/-!
# Rows of coloured text

Text is drawn on rows of cells, and what is drawn later covers what was there. In print, cells of
one ink that stand side by side share their codes, and plain cells have none.
-/

namespace GrammarLab.Snippet

inductive Color
  | brightRed
  | yellow
  | brightBlue
deriving DecidableEq, Repr

/-- The parameter of the colour in an escape sequence. -/
def Color.code : Color → String
  | brightRed => "91"
  | yellow => "33"
  | brightBlue => "94"

structure Ink where
  bold : Bool := false
  color : Option Color := none
deriving DecidableEq, Repr

namespace Ink

def plain : Ink := {}

def strong : Ink := { bold := true }

/-- Line numbers, bars and all that is not the main point. -/
def gutter : Ink := { bold := true, color := some .brightBlue }

/-- An escape sequence that selects how text is written. -/
def sequence (code : String) : List Char := '\x1b' :: '[' :: (code ++ "m").toList

/-- The text in this ink, and plain again behind it. -/
def write (ink : Ink) (s : List Char) : List Char :=
  if ink = plain then s
  else
    (if ink.bold then sequence "1" else []) ++
      (ink.color.toList.flatMap fun c => sequence c.code) ++ s ++ sequence "0"

end Ink

/-- A character on the grid. -/
structure Cell where
  char : Char
  ink : Ink
deriving DecidableEq, Repr

abbrev Row := List Cell

namespace Row

def ofText (s : List Char) (ink : Ink := .plain) : Row := s.map (⟨·, ink⟩)

def blank (n : Nat) : Row := ofText (List.replicate n ' ')

/-- Draws a text from a column on; a row that ends before it is filled up with blanks. -/
def put (column : Nat) (s : List Char) (ink : Ink) (row : Row) : Row :=
  if s.isEmpty then row
  else
    (row ++ blank (column - row.length)).take column ++ ofText s ink ++
      row.drop (column + s.length)

/-- The text of the row without any ink. -/
def plainText (row : Row) : List Char := row.map (·.char)

/-- The text of the row in the inks of its cells. -/
def colored (row : Row) : List Char :=
  (row.splitBy fun a b => a.ink = b.ink).flatMap fun run =>
    (run.head?.elim Ink.plain (·.ink)).write (plainText run)

end Row

/-- Text drawn at one place of a list of rows. -/
structure Stroke where
  row : Nat
  column : Nat
  text : List Char
  ink : Ink
deriving DecidableEq, Repr

/-- Draws the strokes in their order on `count` empty rows. -/
def paint (count : Nat) (strokes : List Stroke) : List Row :=
  strokes.foldl (fun rows s => rows.modify s.row (Row.put s.column s.text s.ink))
    (List.replicate count [])

/-! ## Lemmas -/

theorem Row.length_put (column : Nat) {s : List Char} (ink : Ink) (row : Row) (h : s ≠ []) :
    (row.put column s ink).length = max row.length (column + s.length) := by
  have hs : s.isEmpty = false := by simpa using h
  simp only [put, hs, Bool.false_eq_true, if_false, blank, ofText, List.length_append,
    List.length_take, List.length_map, List.length_replicate, List.length_drop]
  omega

theorem paint_length (count : Nat) (strokes : List Stroke) :
    (paint count strokes).length = count := by
  suffices h : ∀ (rows : List Row),
      (strokes.foldl (fun rows s => rows.modify s.row (Row.put s.column s.text s.ink)) rows).length
        = rows.length by
    simp [paint, h]
  induction strokes with
  | nil => intro rows; rfl
  | cons s strokes ih => intro rows; simp [ih]

end GrammarLab.Snippet
