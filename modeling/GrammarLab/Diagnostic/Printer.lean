import GrammarLab.Diagnostic.Basic
import GrammarLab.Snippet.Drawing

/-!
# Printed diagnostics

A diagnostic in print is its title, the lines of the source that it is about, and its hints.
Without a source it is one line of text.

    error: duplicate rule
     --> T.g4:3:3
      |
    3 |   l3 x
      |   ^^^^
-/

namespace GrammarLab

open Text Snippet

/-- The ink of what a diagnostic of this severity is about. -/
def Severity.ink : Severity → Ink
  | .error => { bold := true, color := some .brightRed }
  | .warning => { bold := true, color := some .yellow }
  | .info => { bold := true, color := some .brightBlue }

structure Printer where
  source : Option (List Char) := none
  /-- The name of the source. -/
  path : Option String := none
  colored : Bool := false
deriving DecidableEq, Repr

namespace Printer

/-- The lines of a text as they are shown. A break at the end begins no further line. -/
def shownLines (s : String) : List (List Char) :=
  let lines := splitOn (· = '\n') (displayed s.toList)
  if lines.getLast? = some [] then lines.dropLast else lines

/-- A text behind a head, its further lines below its first one. -/
def hanging (head : Row) (s : String) (ink : Ink) : List Row :=
  match shownLines s with
  | [] => [head]
  | first :: rest =>
    (head ++ Row.ofText first ink) ::
      rest.map fun line => Row.blank head.length ++ Row.ofText line ink

/-- Severity and message. -/
def titleRows (d : Diagnostic) : List Row :=
  hanging (Row.ofText d.severity.text.toList d.severity.ink ++ Row.ofText [':', ' '] .strong)
    d.message .strong

/-- Nothing but the bar behind the column of line numbers. -/
def edgeRow (digits : Nat) : Row := Row.blank (digits + 1) ++ Row.ofText ['|'] .gutter

/-- The hints, set apart by an empty row. -/
def hintRows (digits : Nat) (hints : List String) : List Row :=
  let head := Row.blank (digits + 1) ++ Row.ofText ['=', ' '] .gutter ++
    Row.ofText "help".toList .strong ++ Row.ofText [':', ' ']
  if hints.isEmpty then [] else edgeRow digits :: hints.flatMap fun h => hanging head h .plain

/-- What is marked in the source: the line of the diagnostic and the related ones. -/
def annotations (source : List Char) (d : Diagnostic) (span : Span) : List Annotation :=
  ⟨span, [], true⟩ :: d.related.filterMap fun r =>
    (lineSpan? source r.line).map fun s => ⟨s, displayed r.message.toList, false⟩

/-- The place of the diagnostic by name, line and column, counted from one. -/
def pathRow (digits : Nat) (path : String) (l : Location) : Row :=
  Row.blank digits ++ Row.ofText "--> ".toList .gutter ++
    Row.ofText s!"{path}:{l.line}:{l.character + 1}".toList

/-- The rows of a diagnostic that stands on a span of the source. -/
def spanRows (source : List Char) (path : Option String) (d : Diagnostic) (span : Span) :
    List Row :=
  let marked := MarkedSource.ofAnnotations source (annotations source d span)
  let frame := marked.frame d.severity.ink
  let place := path.toList.map fun p =>
    pathRow frame.digits p (locate (linesOf source) span.start)
  place ++ [edgeRow frame.digits] ++ marked.draw frame ++ hintRows frame.digits d.hints

/-- The rows of a diagnostic about a source. -/
def rows (source : List Char) (path : Option String) (d : Diagnostic) : List Row :=
  titleRows d ++ match d.line.bind (lineSpan? source) with
    | some span => spanRows source path d span
    | none => hintRows 0 d.hints

/-- Prints diagnostics, one below the other. -/
def print (p : Printer) (ds : Diagnostics) : String :=
  match p.source with
  | none => ds.plain
  | some source =>
    let lines := ds.flatMap (rows source p.path)
    let write := if p.colored then Row.colored else Row.plainText
    String.ofList (['\n'].intercalate (lines.map write))

end Printer

end GrammarLab
