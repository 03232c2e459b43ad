import GrammarLab.Source.Comment
import GrammarLab.Source.Progress

/-!
# Scanning a source

The machine runs over the source with its comments blanked out until nothing is left. Every step
lowers the potential, so every run ends.

    (m.run limits).cursor.rest = []                     (rest_run)
-/

namespace GrammarLab.Source

namespace Machine

/-- The machine at the end of the source. -/
def run (limits : ScanLimits) (m : Machine) : Machine :=
  match _h : m.cursor.rest with
  | [] => m
  | first :: _ => run limits (step limits first m)
termination_by potential m
decreasing_by exact potential_step limits first m (by simp [_h])

theorem rest_run (limits : ScanLimits) (m : Machine) : (m.run limits).cursor.rest = [] := by
  fun_induction run limits m with
  | case1 m h => exact h
  | case2 m first rest h ih => exact ih

/-- Closes a rule that the source leaves open. -/
def close (m : Machine) : Draft :=
  match m.state with
  | .outside => m.draft
  | .header h => m.draft.missingColon h
  | .body h => m.draft.finishRule h m.cursor [] false

end Machine

/-- The diagnostic of a source that never declares its grammar. -/
def missingDeclaration : Diagnostic :=
  (Diagnostic.ofKind .missingGrammarDeclaration).onLine 1

/-- The grammar of a source, and what could not be read in it. -/
def scan (limits : ScanLimits) (source : List Char) : Grammar × Diagnostics :=
  let draft := (Machine.run limits { cursor := .start (strip source) }).close
  (draft.grammar,
    if draft.declared then draft.diagnostics else missingDeclaration :: draft.diagnostics)

end GrammarLab.Source
