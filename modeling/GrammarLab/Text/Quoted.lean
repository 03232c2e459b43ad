import GrammarLab.Text.Table.Display
import GrammarLab.Text.Classes

/-!
# Quoted text

The escaped form in which messages and dumps show text. Controls with a short name are written
by it, other characters that do not show by their code point, all else as it is.

    quote ['a', '\n'] = "\"a\\n\""
-/

namespace GrammarLab.Text

/-- Which characters besides backslash and the unprintable ones are escaped. -/
structure Quoting where
  singleQuote : Bool
  doubleQuote : Bool
  /-- Marks that attach to the character before them. -/
  marks : Bool

/-- The character's code point in hexadecimal between braces. -/
def codePointEscape (c : Char) : List Char :=
  ['\\', 'u', '\x7b'] ++ Nat.toDigits 16 c.toNat ++ ['\x7d']

def isMark (c : Char) : Bool := 128 ≤ c.toNat && inRanges Table.graphemeExtend c

def isPrintable (c : Char) : Bool :=
  if c.toNat < 128 then 32 ≤ c.toNat && c.toNat ≤ 126 else !inRanges Table.unprintable c

/-- One character in escaped form. -/
def escapeChar (q : Quoting) (c : Char) : List Char :=
  if c = '\x00' then ['\\', '0']
  else if c = '\t' then ['\\', 't']
  else if c = '\r' then ['\\', 'r']
  else if c = '\n' then ['\\', 'n']
  else if c = '\\' then ['\\', '\\']
  else if c = '"' && q.doubleQuote then ['\\', '"']
  else if c = '\'' && q.singleQuote then ['\\', '\'']
  else if q.marks && isMark c then codePointEscape c
  else if isPrintable c then [c]
  else codePointEscape c

/-- The text between double quotes. -/
def quote (s : List Char) : String :=
  String.ofList (['"'] ++ s.flatMap (escapeChar ⟨false, true, true⟩) ++ ['"'])

/-- The character between single quotes. -/
def quoteChar (c : Char) : String :=
  String.ofList (['\''] ++ escapeChar ⟨true, false, true⟩ c ++ ['\''])

/-- The text with both kinds of quotes escaped and none put around it. A mark is escaped only at
the start, where there is nothing for it to attach to. -/
def escape : List Char → String
  | [] => ""
  | c :: cs =>
    String.ofList (escapeChar ⟨true, true, true⟩ c ++ cs.flatMap (escapeChar ⟨true, true, false⟩))

end GrammarLab.Text
