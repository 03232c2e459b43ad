import GrammarLab.Regex.Derivative
import GrammarLab.Regex.Normal
import GrammarLab.Regex.Parser
import GrammarLab.Regex.Preferred
import GrammarLab.Pattern.Spelling

/-!
# Compiled patterns

A pattern that is ready to match. Without a lazy loop the longest match counts, with one the
preferred match, so that a loop up to a closing mark ends at the first one. Lengths and offsets
are in bytes; an empty match is none, since a token takes something.

    p.matchAt s n = none           when n is not a character boundary of s
-/

namespace GrammarLab

open Text

structure Pattern where
  /-- The text of the expression. -/
  text : List Char
  isLazy : Bool
  regex : Regex
  depth : Nat
  /-- What a lazy pattern runs. -/
  program : Array Regex.Instruction

namespace Pattern

def ofSpelling (t : Spelling) : Except PatternError Pattern :=
  match Regex.parse? t.text with
  | none => .error (.invalid .rejected)
  | some p =>
    .ok {
      text := t.text
      isLazy := t.isLazy
      regex := p.regex
      depth := p.depth
      program := if t.isLazy then p.regex.normal.program else #[] }

/-- The pattern that matches the text and nothing else. -/
def literal (s : List Char) : Except PatternError Pattern := ofSpelling ⟨literalText s, false⟩

/-- A pattern that belongs to no grammar. -/
def compile (body : List Char) : Except PatternError Pattern := do
  ofSpelling (← spellAlone body)

/-- The number of characters of the match at the beginning of the text, if it takes any. -/
def prefixLength? (p : Pattern) (s : List Char) : Option Nat :=
  match if p.isLazy then Regex.preferred? p.program s else p.regex.longest? s with
  | some (n + 1) => some (n + 1)
  | _ => none

/-- The number of bytes of the match at a byte offset. -/
def matchAt (p : Pattern) (s : List Char) (offset : Nat) : Option Nat := do
  let rest ← dropBytes offset s
  return byteLength (rest.take (← p.prefixLength? rest))

/-- The pattern matches all of the text, which is not empty. With a lazy loop this asks for any
match that ends there; it is asked of the expression two levels deeper. -/
def matchesWhole (p : Pattern) (s : List Char) : Bool :=
  !s.isEmpty && (!p.isLazy || p.depth + 2 ≤ Regex.maxDepth) && p.regex.accepts s

end Pattern

end GrammarLab
