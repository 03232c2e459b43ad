import GrammarLab.Snippet.Canvas
import GrammarLab.Snippet.Placement
import GrammarLab.Snippet.Window

/-!
# Drawings of a source

The marked lines of a source with their numbers, each followed by its marks and labels. Between
them stands the line that they leave out, or dots for more than one.

    3 |   l3 x
      |   ^^^^
    ...
    6 |   l6 x
      |   ---- a
-/

namespace GrammarLab.Snippet

open Text

/-- What all lines of a drawing share. -/
structure Frame where
  /-- The digits of the largest line number. -/
  digits : Nat
  /-- How many bars stand side by side at most. -/
  bars : Nat
  /-- The ink of what the whole is about. -/
  primary : Ink
  window : Window

/-- The sign for what was cut off or left out. -/
def dots : List Char := ['.', '.', '.']

namespace Frame

/-- The column of the bar between numbers and code. -/
def edge (f : Frame) : Nat := f.digits + 1

/-- The column of a bar that joins marks. -/
def barColumn (f : Frame) (bar : Nat) : Nat := f.edge + 1 + bar

/-- The column at which the code begins. -/
def code (f : Frame) : Nat := f.edge + 2 + if f.bars = 0 then 0 else f.bars + 1

def inkOf (f : Frame) (m : Mark) : Ink := if m.isPrimary then f.primary else .gutter

def edgeStroke (f : Frame) (row : Nat) : Stroke := ⟨row, f.edge, ['|'], .gutter⟩

/-! ## Code -/

/-- The number of a line, aligned to the right. -/
def numberStroke (f : Frame) (number : Nat) : Stroke :=
  let digits := Nat.toDigits 10 number
  ⟨0, 0, List.replicate (f.digits - digits.length) ' ' ++ digits, .gutter⟩

/-- The number of a line, its text and dots where it was cut. -/
def codeStrokes (f : Frame) (number : Nat) (v : View) : List Stroke :=
  let text := if v.isCutLeft then dropColumns dots.length v.text else v.text
  let start := f.code + (width v.text - width text)
  let covered := v.text.length - (dropColumns dots.length v.text.reverse).length
  [f.numberStroke number, f.edgeStroke 0, ⟨0, start, text, .plain⟩] ++
    (if v.isCutLeft then [⟨0, f.code, dots, .gutter⟩] else []) ++
    if v.isCutRight then [⟨0, start + text.length - covered, dots, .gutter⟩] else []

/-! ## Marks -/

def symbol (m : Mark) : Char := if m.isPrimary then '^' else '-'

/-- A bar over the rows from `first` to `last`. -/
def upright (first last column : Nat) (ink : Ink) : List Stroke :=
  (List.range' first (last + 1 - first)).map fun row => ⟨row, column, ['|'], ink⟩

/-- The column of a place in the code of which `cut` columns are not shown. -/
def columnOf (f : Frame) (cut n : Nat) : Nat := f.code + n - cut

/-- The line from a bar to the mark that it joins. -/
def joinStrokes (f : Frame) (cut row : Nat) (m : Mark) : List Stroke :=
  match m.shape.bar? with
  | none => []
  | some bar =>
    let start := f.barColumn bar + 1
    [⟨row + 1, start, List.replicate (f.columnOf cut m.start - start) '_', f.inkOf m⟩]

/-- The bars from a mark down to its label, and those of joined marks up to the line or down to
the last row. -/
def uprightStrokes (f : Frame) (cut extra row : Nat) (m : Mark) : List Stroke :=
  let ink := f.inkOf m
  let down := if 0 < row && (m.hasLabel || m.isJoined) then
      upright 1 (row + 1) (f.columnOf cut m.start) ink
    else []
  down ++ match m.shape with
    | .inline => []
    | .opening bar =>
      ⟨row + 1, f.barColumn bar, [' '], ink⟩ :: upright (row + 2) (extra + 1) (f.barColumn bar) ink
    | .closing bar => upright 0 (row + 1) (f.barColumn bar) ink

/-- The label behind its mark, or under it on the row that it has. -/
def labelStroke (f : Frame) (cut row : Nat) (m : Mark) : Stroke :=
  if row = 0 then
    let gap := if m.stop = 0 then 2 else 1
    ⟨1, f.code + (m.stop + gap - cut), m.label, f.inkOf m⟩
  else ⟨row + 2, f.code + (m.start - cut), m.label, f.inkOf m⟩

/-- The mark itself, and the end of what leads to it. -/
def markStrokes (f : Frame) (cut row : Nat) (m : Mark) : List Stroke :=
  let column := f.columnOf cut m.start
  let whole := ⟨1, column, List.replicate (m.stop - m.start) (symbol m), f.inkOf m⟩
  if m.isJoined || (0 < row && m.hasLabel) then [whole, ⟨1, column, [symbol m], f.inkOf m⟩]
  else [whole]

/-- Longer marks are drawn first, and of equals the primary one last. -/
def isDrawnBefore (a b : Nat × Mark) : Bool :=
  b.2.length < a.2.length ||
    (a.2.length = b.2.length && (!a.2.isPrimary || b.2.isPrimary))

/-! ## Lines -/

/-- The strokes of a line for marks that only open, with nothing but blanks before them. -/
def openingStrokes (f : Frame) (ms : List Mark) : List Stroke :=
  ms.filterMap fun m => m.shape.bar?.map fun bar => ⟨0, f.barColumn bar, ['/'], f.inkOf m⟩

/-- Every mark only goes on to the next line, and nothing but blanks stands before it. -/
def onlyOpens (text : List Char) (ms : List Mark) : Bool :=
  ms.all fun m =>
    match m.shape with
    | .opening _ => (text.take m.start).all isWhiteSpace
    | _ => false

/-- The rows of a line with its marks. -/
def drawLine (f : Frame) (l : MarkedLine) : List Row :=
  let text := displayed l.line.text
  let v := f.window.view text
  let code := f.codeStrokes l.line.number v
  if onlyOpens text l.marks then paint 1 (code ++ f.openingStrokes l.marks)
  else
    let placed := place l.marks
    let extra := extraRows placed
    paint (extra + 2) <|
      code ++ (List.range (extra + 1)).map (fun row => f.edgeStroke (row + 1)) ++
        placed.flatMap (fun (row, m) => f.joinStrokes v.cut row m) ++
        placed.flatMap (fun (row, m) => f.uprightStrokes v.cut extra row m) ++
        placed.map (fun (row, m) => f.labelStroke v.cut row m) ++
        (placed.mergeSort isDrawnBefore).flatMap fun (row, m) => f.markStrokes v.cut row m

/-- The rows between two lines: the one line between them, or dots. -/
def drawBetween (f : Frame) (lines : List MarkedLine) (first last : Nat) : List Row :=
  if last = first + 2 then
    (lines.find? fun l => l.line.number = first + 1).toList.flatMap fun l =>
      f.drawLine { l with marks := [] }
  else if first + 2 < last then [Row.ofText dots .gutter]
  else []

/-- The rows of marked lines among all lines. -/
def drawLines (f : Frame) (lines : List MarkedLine) : List MarkedLine → List Row
  | [] => []
  | [l] => f.drawLine l
  | l :: next :: rest =>
    f.drawLine l ++ f.drawBetween lines l.line.number next.line.number ++
      f.drawLines lines (next :: rest)

end Frame

/-- The largest number of columns that a drawing takes, if its lines can be cut to that. -/
def gridWidth : Nat := 140

/-- The frame for the marked lines of a source. -/
def MarkedSource.frame (s : MarkedSource) (primary : Ink) : Frame :=
  let digits := (Nat.toDigits 10 ((s.marked.getLast?.map (·.line.number)).getD 0)).length
  let f : Frame := { digits, bars := s.bars, primary, window := ⟨0, 0, 0⟩ }
  { f with window := Window.ofExtent (gridWidth - f.code) (Extent.ofLines s.marked) }

/-- The drawing of a marked source. -/
def MarkedSource.draw (s : MarkedSource) (f : Frame) : List Row := f.drawLines s.lines s.marked

end GrammarLab.Snippet
