import GrammarLab.Regex.Escape

/-!
# Text of character classes

How the inside of a class is written for the expression language. Classes of a grammar know
neither negation nor operators nor nesting, so the characters for these are escaped; `\b` is the
backspace.

    classText? ['a', '-', '\\', 'b'] = some (['a', '-'] ++ backspaceText)
-/

namespace GrammarLab.Pattern

/-- A character that stands for itself. -/
def charText (c : Char) : List Char := if Regex.isMeta c then ['\\', c] else [c]

/-- Text that stands for itself. -/
def literalText (s : List Char) : List Char := s.flatMap charText

/-- The character of a code point. -/
def hexEscape (digits : List Char) : List Char := ['\\', 'x', '\x7b'] ++ digits ++ ['\x7d']

def backspaceText : List Char := ['\\', 'x', '0', '8']

/-- The text through the first closing brace, or all of it, and what is left. -/
def throughBrace : List Char → List Char × List Char
  | [] => ([], [])
  | c :: cs =>
    if c = '\x7d' then ([c], cs)
    else
      let (taken, rest) := throughBrace cs
      (c :: taken, rest)

theorem length_throughBrace_le (s : List Char) : (throughBrace s).2.length ≤ s.length := by
  induction s with
  | nil => simp [throughBrace]
  | cons c cs ih =>
    simp only [throughBrace]
    split
    · simp
    · simp only [List.length_cons]; omega

/-- The escapes that mean the same in both languages. -/
def isSameEscape (c : Char) : Bool :=
  c = 'n' || c = 'r' || c = 't' || c = 'f' || c = '\\' || c = ']' || c = '-'

/-- The text of a class for the inside of a class of a grammar. There is none when a backslash
has nothing to escape. -/
def classText? : List Char → Option (List Char)
  | [] => some []
  | '\\' :: cs =>
    match cs with
    | [] => none
    | e :: rest =>
      if isSameEscape e then (classText? rest).map (['\\', e] ++ ·)
      else if e = 'b' then (classText? rest).map (backspaceText ++ ·)
      else if e = 'u' then
        if rest.head? = some '\x7b' then
          (classText? (throughBrace rest).2).map (['\\', 'u'] ++ (throughBrace rest).1 ++ ·)
        else (classText? (rest.drop 4)).map (hexEscape (rest.take 4) ++ ·)
      else if e = 'p' || e = 'P' then
        (classText? (throughBrace rest).2).map (['\\', e] ++ (throughBrace rest).1 ++ ·)
      else (classText? rest).map (charText e ++ ·)
  | c :: rest => (classText? rest).map ((if c = '-' then ['-'] else charText c) ++ ·)
termination_by cs => cs.length
decreasing_by
  all_goals
    have := length_throughBrace_le rest
    simp only [List.length_cons, List.length_drop]
    omega

end GrammarLab.Pattern
