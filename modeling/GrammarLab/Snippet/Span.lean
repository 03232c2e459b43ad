import GrammarLab.Text.Classes
import GrammarLab.Text.Display
import GrammarLab.Text.Utf8

/-!
# Lines and spans of a source

A span is a stretch of the source in bytes. The span of a line is its text without indentation,
the place behind its blanks if it has no text, and a location says on which line a span begins and
how far into it.
-/

namespace GrammarLab.Snippet

open Text

/-- From the offset `start` to the one behind the last byte. -/
structure Span where
  start : Nat
  stop : Nat
deriving DecidableEq, Repr

/-! ## The span of a line -/

/-- The text without the carriage returns at its end. -/
def withoutReturns (s : List Char) : List Char := (s.reverse.dropWhile (· = '\r')).reverse

/-- The span of a text that begins at the offset `start` of a source of `total` bytes: from its
first character that is not blank, or the byte behind its blanks. -/
def textSpan (total start : Nat) (s : List Char) : Span :=
  let content := withoutReturns s
  let first := start + byteLength (content.takeWhile isWhiteSpace)
  let stop := start + byteLength content
  if first = stop then ⟨first, min (first + 1) total⟩ else ⟨first, stop⟩

/-- The span of the n-th text, counted from one, when each takes one more byte for its break. -/
def spanAmong (total start : Nat) : Nat → List (List Char) → Option Span
  | 0, _ => none
  | _, [] => none
  | 1, s :: _ => some (textSpan total start s)
  | n + 2, s :: rest => spanAmong total (start + byteLength s + 1) (n + 1) rest

/-- The span of a line of the source, counted from one. -/
def lineSpan? (source : List Char) (number : Nat) : Option Span :=
  spanAmong (byteLength source) 0 number (splitOn (· = '\n') source)

/-! ## Lines -/

structure Line where
  number : Nat
  /-- Without its break, which may have a carriage return. -/
  text : List Char
  start : Nat
  /-- The offset behind its break. -/
  stop : Nat
deriving DecidableEq, Repr

def withoutReturn (s : List Char) : List Char := if s.getLast? = some '\r' then s.dropLast else s

/-- The lines of texts between breaks. Nothing behind the last break is no line, unless there is no
other. -/
def linesFrom (number start : Nat) : List (List Char) → List Line
  | [] => []
  | [s] =>
    if s.isEmpty && number ≠ 1 then [] else [⟨number, s, start, start + byteLength s⟩]
  | s :: rest =>
    let stop := start + byteLength s + 1
    ⟨number, withoutReturn s, start, stop⟩ :: linesFrom (number + 1) stop rest

def linesOf (source : List Char) : List Line := linesFrom 1 0 (splitOn (· = '\n') source)

/-! ## Locations -/

structure Location where
  line : Nat
  /-- The characters before it on its line. -/
  character : Nat
  /-- The columns before it on its line. -/
  column : Nat
deriving DecidableEq, Repr

/-- The line of an offset, the last one for those behind it. -/
def lineAt (lines : List Line) (offset : Nat) : Line :=
  (lines.find? fun l => l.start ≤ offset && offset < l.stop).getD
    (lines.getLastD ⟨1, [], 0, 0⟩)

/-- The location of an offset. One behind the text of its line is one character further. -/
def locate (lines : List Line) (offset : Nat) : Location :=
  let l := lineAt lines offset
  let before := takeBytes (offset - l.start) l.text
  let behind := if byteLength l.text < offset - l.start then 1 else 0
  { line := l.number, character := before.length + behind, column := width before }

end GrammarLab.Snippet
