import GrammarLab.Snippet.Mark

/-!
# The visible columns

Of lines that are too long only a window of columns is shown, so chosen that the marks are in it
with their labels if that can be. Much indentation is cut off in any case.
-/

namespace GrammarLab.Snippet

open Text

/-- What the choice of a window depends on. -/
structure Extent where
  /-- The indentation that all lines with text have. -/
  indent : Nat
  /-- The first column of a mark and the one behind the last. -/
  start : Nat
  stop : Nat
  /-- The column behind the marks and the labels that stand behind them. -/
  labelStop : Nat
  /-- The columns of the longest line. -/
  length : Nat
deriving DecidableEq, Repr

structure Window where
  left : Nat
  right : Nat
  /-- How many columns there is room for. -/
  capacity : Nat
deriving DecidableEq, Repr

/-- The columns of blank space before the text; only tabs take more than one. -/
def indentation (s : List Char) : Nat :=
  ((s.takeWhile isWhiteSpace).map fun c => if c = '\t' then 4 else 1).foldr (· + ·) 0

def smallest (ns : List Nat) : Nat := ns.min?.getD 0

def largest (ns : List Nat) : Nat := ns.foldl max 0

def Extent.ofLines (lines : List MarkedLine) : Extent :=
  let texts := lines.map (·.line.text)
  let marks := lines.flatMap (·.marks)
  { indent := smallest ((texts.filter (·.any (!isWhiteSpace ·))).map indentation)
    start := smallest (marks.map fun m => min m.start m.stop)
    stop := largest (marks.map fun m => max m.start m.stop)
    labelStop := largest (marks.map fun m =>
      m.stop + if m.hasLabel then width m.label + 1 else 0)
    length := largest (texts.map width) }

namespace Window

/-- Columns left free at both sides of what has to be seen, for the dots that stand for a cut. -/
def margin : Nat := 6

/-- The window of the extent in a grid with room for `capacity` columns of code. -/
def ofExtent (capacity : Nat) (e : Extent) : Window :=
  let indent := e.indent - margin
  let start := e.start - margin
  let stop := e.stop + margin
  let labelStop := e.labelStop + margin
  let left := if 20 < indent then indent - 16 else 0
  let right := max e.length left
  if right - left ≤ capacity then ⟨left, right, capacity⟩
  else if labelStop - indent ≤ capacity then ⟨indent, indent + capacity, capacity⟩
  else if labelStop - start ≤ capacity then
    let left := start - (capacity - (labelStop - start)) / 2
    ⟨left, left + capacity, capacity⟩
  else if stop - start ≤ capacity then
    let left := start - (capacity - (stop - start)) / 5 * 2
    ⟨left, left + capacity, capacity⟩
  else ⟨start, stop, capacity⟩

/-- The last column shown of a line of `length` columns. A line that fits is shown to its end. -/
def rightOf (w : Window) (length : Nat) : Nat :=
  if length - w.left ≤ w.capacity then length else min length w.right

end Window

/-- What is seen of a line through a window. -/
structure View where
  text : List Char
  /-- The columns that were cut off at the left. -/
  cut : Nat
  isCutLeft : Bool
  isCutRight : Bool
deriving DecidableEq, Repr

/-- The view of a text that is ready to be shown. A character of several columns that lies across
the left end is cut off as a whole. -/
def Window.view (w : Window) (s : List Char) : View :=
  let length := width s
  let left := min w.left length
  let right := w.rightOf length
  let rest := dropColumns left s
  { text := takeColumns (right - left) rest
    cut := length - width rest
    isCutLeft := 0 < w.left
    isCutRight := right < length }

end GrammarLab.Snippet
