/-!
# Places in a text

A place is a line, counted from one, and the number of characters before it on that line.

    Place.start.along s = the place behind s
-/

namespace GrammarLab.Text

structure Place where
  line : Nat := 1
  column : Nat := 0
deriving DecidableEq, Repr

namespace Place

def start : Place := {}

/-- The place behind one character. -/
def next (p : Place) (c : Char) : Place :=
  if c = '\n' then ⟨p.line + 1, 0⟩ else ⟨p.line, p.column + 1⟩

/-- The place behind a text. -/
def along (p : Place) (s : List Char) : Place := s.foldl next p

end Place

end GrammarLab.Text
