import GrammarLab.Body.Outline
import GrammarLab.Config
import GrammarLab.Mean
import GrammarLab.Reference.Recursion

/-!
# Metrics

Figures about the size of a grammar, the branching and the complexity of its rules and how they
depend on each other.

    (g.metrics c).rules.length = g.rules.length
-/

namespace GrammarLab

/-- The figures of one rule. -/
structure RuleMetrics where
  rule : String
  alternatives : Nat
  /-- How deep its groups nest. -/
  depth : Nat
  complexity : Nat
  fanIn : Nat
  fanOut : Nat
  /-- The length of the shortest cycle of references through it, 0 if there is none. -/
  recursionDepth : Nat
deriving DecidableEq, Repr

structure GrammarMetrics where
  rules : List RuleMetrics
  parserRules : Nat
  /-- Fragments included. -/
  lexerRules : Nat
  fragments : Nat
  /-- The default mode included. -/
  modes : Nat
  /-- In characters of the bodies. -/
  ruleLength : Mean
  hubThreshold : Nat
deriving DecidableEq, Repr

namespace GrammarMetrics

def maxOf (f : RuleMetrics → Nat) (m : GrammarMetrics) : Nat := (m.rules.map f).foldl max 0

def meanOf (f : RuleMetrics → Nat) (m : GrammarMetrics) : Mean :=
  ⟨(m.rules.map f).foldr (· + ·) 0, m.rules.length⟩

/-- The five most complex rules, the most complex first and equals in source order. -/
def mostComplex (m : GrammarMetrics) : List RuleMetrics :=
  (m.rules.mergeSort fun a b => decide (b.complexity ≤ a.complexity)).take 5

/-- The rules that no other rule names. -/
def orphans (m : GrammarMetrics) : List String := (m.rules.filter (·.fanIn = 0)).map (·.rule)

/-- The rules that more rules name than the threshold allows. -/
def hubs (m : GrammarMetrics) : List String :=
  (m.rules.filter fun r => m.hubThreshold < r.fanIn).map (·.rule)

end GrammarMetrics

def Rule.metrics (r : Rule) (graph : ReferenceGraph) (c : MetricsConfig) : RuleMetrics :=
  let outline := Body.outline r.definition
  { rule := r.name
    alternatives := outline.alternatives
    depth := outline.depth
    complexity := Body.complexity r.definition
    fanIn := graph.fanIn r.name
    fanOut := graph.fanOut r.name
    recursionDepth := graph.recursionDepth r.name c.maxRecursionDepth.toNat }

def Grammar.metrics (g : Grammar) (c : MetricsConfig) : GrammarMetrics :=
  let graph := ReferenceGraph.ofGrammar g
  { rules := g.rules.map (·.metrics graph c)
    parserRules := g.parserRules.length
    lexerRules := g.lexerRules.length
    fragments := g.fragments.length
    modes := g.modes.length
    ruleLength := ⟨(g.rules.map (·.definition.length)).foldr (· + ·) 0, g.rules.length⟩
    hubThreshold := c.hubThreshold.toNat }

end GrammarLab
