import GrammarLab.Text.Table.Letter
import GrammarLab.Text.Table.Derived
import GrammarLab.Text.Table.Number
import GrammarLab.Text.Table.Script

/-!
# Character classes

The classes that names, blanks and trimming depend on. Each is a table of code point ranges;
ASCII is answered without the table.

    trim (trim s) = trim s
-/

namespace GrammarLab.Text

/-- The character lies in one of the ranges, ends included. -/
def inRanges (ranges : List (Nat × Nat)) (c : Char) : Bool :=
  ranges.any fun r => r.1 ≤ c.toNat && c.toNat ≤ r.2

/-- Blank space, line breaks included. -/
def isWhiteSpace (c : Char) : Bool :=
  if c.toNat < 128 then c = ' ' || (9 ≤ c.toNat && c.toNat ≤ 13) else inRanges Table.whiteSpace c

/-- Capital letters and the capital-like numerals and enclosed letters. -/
def isUppercase (c : Char) : Bool :=
  if c.toNat < 128 then 'A' ≤ c && c ≤ 'Z'
  else inRanges Table.uppercaseLetter c || inRanges Table.otherUppercase c

/-- Letters, and the marks and numerals that count as letters. -/
def isAlphabetic (c : Char) : Bool :=
  if c.toNat < 128 then c.isAlpha
  else inRanges Table.letter c || inRanges Table.otherAlphabetic c

/-- Numbers of every kind. -/
def isNumeric (c : Char) : Bool :=
  if c.toNat < 128 then c.isDigit else inRanges Table.number c

def isAlphanumeric (c : Char) : Bool := isAlphabetic c || isNumeric c

/-- The characters of identifiers in grammar text: ASCII letters, digits and `_`. -/
def isWordChar (c : Char) : Bool := c.isAlphanum || c = '_'

/-- The first characters of identifiers in rule bodies: ASCII letters and `_`. -/
def isWordStart (c : Char) : Bool := c.isAlpha || c = '_'

theorem isWordChar_of_isWordStart {c : Char} (h : isWordStart c = true) : isWordChar c = true := by
  simp only [isWordStart, isWordChar, Char.isAlphanum, Bool.or_eq_true] at h ⊢
  exact h.imp_left .inl

/-! ## Trimming -/

def trimStart (s : List Char) : List Char := s.dropWhile isWhiteSpace

def trimEnd (s : List Char) : List Char := (s.reverse.dropWhile isWhiteSpace).reverse

/-- The text without blank space at its two ends. -/
def trim (s : List Char) : List Char := trimEnd (trimStart s)

/-- The words of `s` between the characters that satisfy `p`, empty ones included. -/
def splitOn (p : Char → Bool) : List Char → List (List Char)
  | [] => [[]]
  | c :: cs =>
    if p c then [] :: splitOn p cs
    else match splitOn p cs with
      | [] => [[c]]
      | word :: words => (c :: word) :: words

/-- Lines are what stands between line feeds; a text without one is a single line. -/
def lines (s : List Char) : List (List Char) := splitOn (· = '\n') s

/-- The number of line feeds. -/
def lineFeeds (s : List Char) : Nat := s.count '\n'

end GrammarLab.Text
