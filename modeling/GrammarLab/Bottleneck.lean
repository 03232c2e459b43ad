import GrammarLab.Metrics
import GrammarLab.Mode.Check
import GrammarLab.Redos
import GrammarLab.Reference.Order

/-!
# Bottlenecks

Rules that stand out by the metrics, patterns at risk of backtracking and problems with modes,
ranked: the most severe first, then the highest score, equals in the order in which they were
found.
-/

namespace GrammarLab

inductive BottleneckKind
  | highComplexity
  | excessiveAlternatives
  | deepNesting
  | hubRule
  | deepRecursion
  | redosRisk
  | modeProblem
deriving DecidableEq, Repr

def BottleneckKind.text : BottleneckKind → String
  | .highComplexity => "high-complexity"
  | .excessiveAlternatives => "excessive-alternatives"
  | .deepNesting => "deep-nesting"
  | .hubRule => "hub-rule"
  | .deepRecursion => "deep-recursion"
  | .redosRisk => "redos-risk"
  | .modeProblem => "mode-problem"

structure Bottleneck where
  kind : BottleneckKind
  rule : Option String
  line : Option Nat
  severity : Severity
  /-- How bad it is among those of its kind. -/
  score : Nat
  message : String
  suggestion : Option String
deriving DecidableEq, Repr

namespace Bottleneck

/-- The bottleneck on one line of text. -/
def text (b : Bottleneck) : String :=
  let rule := b.rule.elim "" fun r => s!" `{r}`"
  let suggestion := b.suggestion.elim "" fun s => s!" (suggestion: {s})"
  s!"{b.severity.text} {b.kind.text} [{b.score}]" ++ rule ++ ": " ++ b.message ++ suggestion

/-- More severe, or as severe with a score at least as high. -/
def precedes (a b : Bottleneck) : Bool :=
  a.severity.rank < b.severity.rank ||
    (a.severity.rank = b.severity.rank && b.score ≤ a.score)

end Bottleneck

structure BottleneckReport where
  findings : List Bottleneck
  /-- Parser rules, each after the rules that it names. -/
  suggestedOrder : List String
deriving DecidableEq, Repr

/-- The largest machine word. -/
def maxWord : Nat := 0xFFFFFFFFFFFFFFFF

/-- A warning from twice the threshold on; the doubling stops at the largest machine word. -/
def escalated (value threshold : Nat) : Severity :=
  if min (2 * threshold) maxWord ≤ value then .warning else .info

/-- A cycle through a rule counts as deep when twice its length, in machine words, is beyond the
bound of the search. -/
def isDeepRecursion (depth bound : UInt64) : Bool := bound < depth * 2

namespace Rule

/-- A bottleneck on the line of the rule. -/
def bottleneck (r : Rule) (kind : BottleneckKind) (severity : Severity) (score : Nat)
    (message : String) (suggestion : Option String) : Bottleneck :=
  { kind, rule := some r.name, line := some r.lineNumber, severity, score, message, suggestion }

def complexityBottleneck? (r : Rule) (m : RuleMetrics) (c : MetricsConfig) : Option Bottleneck :=
  let threshold := c.highComplexity.toNat
  if threshold < m.complexity then
    some (r.bottleneck .highComplexity (escalated m.complexity threshold) m.complexity
      s!"complexity {m.complexity} exceeds {threshold}"
      (some "split the rule into smaller sub-rules"))
  else none

def alternativesBottleneck? (r : Rule) (m : RuleMetrics) (c : MetricsConfig) :
    Option Bottleneck :=
  let threshold := c.manyAlternatives.toNat
  if threshold < m.alternatives then
    some (r.bottleneck .excessiveAlternatives (escalated m.alternatives threshold) m.alternatives
      s!"{m.alternatives} alternatives" (some "group related alternatives under their own rules"))
  else none

def nestingBottleneck? (r : Rule) (m : RuleMetrics) (c : MetricsConfig) : Option Bottleneck :=
  if c.deepNesting.toNat < m.depth then
    some (r.bottleneck .deepNesting .info m.depth s!"groups nested {m.depth} deep"
      (some "extract nested groups into named rules"))
  else none

def hubBottleneck? (r : Rule) (m : RuleMetrics) (c : MetricsConfig) : Option Bottleneck :=
  if c.hubThreshold.toNat < m.fanIn then
    some (r.bottleneck .hubRule .info m.fanIn s!"referenced by {m.fanIn} rules"
      (some "changes here ripple widely; keep the rule stable"))
  else none

def recursionBottleneck? (r : Rule) (m : RuleMetrics) (c : MetricsConfig) : Option Bottleneck :=
  if isDeepRecursion m.recursionDepth.toUInt64 c.maxRecursionDepth then
    let message := if c.maxRecursionDepth.toNat ≤ m.recursionDepth then
        "recursion without a bound"
      else s!"recursion through {m.recursionDepth} rules"
    some (r.bottleneck .deepRecursion .info m.recursionDepth message none)
  else none

end Rule

def RedosFinding.bottleneck (f : RedosFinding) : Bottleneck :=
  { kind := .redosRisk
    rule := some f.rule
    line := some f.line
    severity := .warning
    score := match f.kind with
      | .nestedQuantifier => 3
      | .sharedStart => 2
      | .broadRepetition => 1
    message := s!"{f.kind.text} `{f.pattern}`"
    suggestion := some <| match f.kind with
      | .broadRepetition => "use a non-greedy loop or exclude the closing character"
      | _ => "make the repeated alternatives disjoint" }

def Diagnostic.modeBottleneck (d : Diagnostic) : Bottleneck :=
  { kind := .modeProblem
    rule := d.rule
    line := d.line
    severity := d.severity
    score := 1
    message := d.message
    suggestion := d.hints.head? }

def Grammar.bottlenecks (g : Grammar) (c : MetricsConfig) : BottleneckReport :=
  let rules := g.rules.zip (g.metrics c).rules
  let findings :=
    rules.filterMap (fun (r, m) => r.complexityBottleneck? m c) ++
      rules.flatMap (fun (r, m) =>
        (r.alternativesBottleneck? m c).toList ++ (r.nestingBottleneck? m c).toList) ++
      rules.flatMap (fun (r, m) =>
        (r.hubBottleneck? m c).toList ++ (r.recursionBottleneck? m c).toList) ++
      g.redosFindings.map RedosFinding.bottleneck ++
      g.modeDiagnostics.map Diagnostic.modeBottleneck
  { findings := findings.mergeSort Bottleneck.precedes
    suggestedOrder := g.dependencyOrder }

end GrammarLab
