import GrammarLab.Snippet.Span

/-!
# Marks

What is drawn on a line because of the annotations of a source. An annotation that lies on one
line is one mark. One that runs over a line break is an opening mark and a closing mark on the next
line, joined by a bar at the left; bars that meet stand side by side.
-/

namespace GrammarLab.Snippet

/-- A remark on a span of the source. -/
structure Annotation where
  span : Span
  /-- Empty for none. -/
  label : List Char
  /-- It is what the whole is about. -/
  isPrimary : Bool
deriving DecidableEq, Repr

inductive Shape
  /-- Lies on the line. -/
  | inline
  /-- Goes on to the next line, by the bar of the number. -/
  | opening (bar : Nat)
  /-- Comes from the line before, by the bar of the number. -/
  | closing (bar : Nat)
deriving DecidableEq, Repr

/-- The bar by which the mark is joined to another one. -/
def Shape.bar? : Shape → Option Nat
  | inline => none
  | opening bar | closing bar => some bar

structure Mark where
  /-- The first column and the one behind the last. -/
  start : Nat
  stop : Nat
  label : List Char
  isPrimary : Bool
  shape : Shape
deriving DecidableEq, Repr

namespace Mark

def hasLabel (m : Mark) : Bool := !m.label.isEmpty

def isJoined (m : Mark) : Bool := m.shape.bar?.isSome

def length (m : Mark) : Nat := (m.stop - m.start) + (m.start - m.stop)

/-- The marks share a column when `m` is made longer by `room`. -/
def overlaps (m : Mark) (room : Nat) (n : Mark) : Bool :=
  (n.start ≤ m.start && m.start < n.stop) ||
    (m.start ≤ n.start && n.start < m.stop + room)

end Mark

/-! ## Annotations over a line break -/

/-- An annotation that begins on one line and ends on the next. -/
structure Crossing where
  start : Location
  stop : Location
  label : List Char
  isPrimary : Bool
deriving DecidableEq, Repr

/-- Where an annotation lies: on one line, or over a break. An empty one takes one column. -/
def Annotation.resolve (lines : List Line) (a : Annotation) : (Nat × Mark) ⊕ Crossing :=
  let start := locate lines a.span.start
  let stop := if a.span.start = a.span.stop then start else locate lines a.span.stop
  if start.line = stop.line then
    let last := if start.column = stop.column then stop.column + 1 else stop.column
    .inl (start.line, ⟨start.column, last, a.label, a.isPrimary, .inline⟩)
  else .inr ⟨start, stop, a.label, a.isPrimary⟩

/-- The marks of crossings that are sorted by line, each with its line. `first` is the line of the
first one. A crossing of that line has the bar at the left, all others have the one at the right of
`bars`. Of crossings that begin together, on the line `first` or the next one, only the last has a
bar, and they are primary from the first primary one on. `before` has those that came earlier. -/
def crossingMarks (first bars : Nat) (before : List Crossing) : List Crossing → List (Nat × Mark)
  | [] => []
  | c :: rest =>
    let together (d : Crossing) : Bool := d.start.line = c.start.line && c.start.line ≤ first + 1
    let bar := if c.start.line = first then 1 else bars
    let isPrimary := c.isPrimary || before.any fun d => together d && d.isPrimary
    let closing := ⟨c.stop.column - 1, c.stop.column, c.label, isPrimary, .closing bar⟩
    let marks :=
      if rest.any together then [(c.stop.line, { closing with shape := .inline })]
      else
        [(c.start.line, ⟨c.start.column, c.start.column + 1, [], isPrimary, .opening bar⟩),
          (c.stop.line, closing)]
    marks ++ crossingMarks first bars (before ++ [c]) rest

/-- The line on which the first of the crossings begins. -/
def firstLine : List Crossing → Nat
  | [] => 0
  | c :: _ => c.start.line

/-- How many bars stand side by side at most. -/
def barCount (cs : List Crossing) : Nat :=
  if cs.isEmpty then 0 else 1 + cs.countP fun c => c.start.line = firstLine cs + 1

/-! ## Marked lines -/

structure MarkedLine where
  line : Line
  marks : List Mark
deriving DecidableEq, Repr

/-- The lines of a source with the marks on them. -/
structure MarkedSource where
  lines : List MarkedLine
  /-- How many bars stand side by side at most. -/
  bars : Nat
deriving DecidableEq, Repr

namespace MarkedSource

/-- The source marked by annotations. On a line, marks stand in the order of the annotations, those
that are joined to other lines last. -/
def ofAnnotations (source : List Char) (as : List Annotation) : MarkedSource :=
  let lines := linesOf source
  let resolved := as.map (·.resolve lines)
  let inline := resolved.filterMap fun r => r.getLeft?
  let crossings := (resolved.filterMap fun r => r.getRight?).mergeSort
    fun a b => decide (a.start.line ≤ b.start.line)
  let bars := barCount crossings
  let marks := inline ++ crossingMarks (firstLine crossings) bars [] crossings
  { lines := lines.map fun l =>
      ⟨l, (marks.filter fun m => m.1 = l.number).map (·.2)⟩
    bars }

/-- The lines that have marks. -/
def marked (s : MarkedSource) : List MarkedLine := s.lines.filter (!·.marks.isEmpty)

end MarkedSource

end GrammarLab.Snippet
