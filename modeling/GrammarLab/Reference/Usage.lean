import GrammarLab.Grammar
import GrammarLab.Body.Reference
import GrammarLab.Text.Classes

/-!
# Usages of a rule

Where a name stands in the bodies of a grammar.

    r.lineAt 0 = r.bodyLine
-/

namespace GrammarLab

open Text

/-- The source line of a byte offset within the body. An offset within a character counts as its
beginning, one behind the end as the end. -/
def Rule.lineAt (r : Rule) (offset : Nat) : Nat :=
  r.bodyLine + lineFeeds (takeBytes offset r.definition)

/-- A place that names a rule. -/
structure Usage where
  /-- The rule whose body it is in. -/
  rule : String
  line : Nat
deriving DecidableEq, Repr

/-- The places that name a rule, in source order. -/
def Grammar.usages (g : Grammar) (name : String) : List Usage :=
  g.rules.flatMap fun r =>
    ((Body.references r.definition).filter (·.name = name)).map fun ref =>
      ⟨r.name, r.lineAt ref.offset⟩

end GrammarLab
