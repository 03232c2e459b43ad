import GrammarLab.Body.Structure.Parser
import GrammarLab.Cycle
import GrammarLab.Diagnostic.Basic
import GrammarLab.Reference.Usage

/-!
# Left recursion

A rule is directly left-recursive when one of its alternatives starts with the rule, and hidden
left recursion is a cycle of parser rules of which each can start with the next.
-/

namespace GrammarLab

open Body

def Rule.structure (r : Rule) : Structure := Structure.parse r.definition

/-- The names that the alternatives of the rule can start with. -/
def Rule.firstNames (r : Rule) : List String :=
  r.structure.alternatives.flatMap AlternativeOf.firstNames

/-! ## Direct -/

/-- A report for the first alternative that starts with the rule itself. -/
def Rule.directRecursion? (r : Rule) : Option Diagnostic := do
  let b ← r.structure.alternatives.find? fun b => b.firstNames.contains r.name
  let kind := if r.isLexer then DiagnosticKind.lexerLeftRecursion else .directLeftRecursion
  return ((Diagnostic.ofKind kind).onLine (r.lineAt b.offset)).onRule r.name
    |>.withDetail r.name

/-! ## Hidden -/

/-- The other parser rules that can start the rule. -/
def Grammar.firstRules (g : Grammar) (r : Rule) : List String :=
  (r.firstNames.filter fun name => !isLexerName name && name ≠ r.name && g.contains name).eraseDups

/-- The edges of the graph of first elements. Of rules with one name the last one counts. -/
def Grammar.firstEdges (g : Grammar) : List (String × List String) :=
  (g.parserRules.map fun r => (r.name, g.firstRules r)).reverse

def Grammar.hiddenCycles (g : Grammar) : List (Cycle Unit) :=
  let edges := g.firstEdges
  Cycle.distinct (Walk.cycles
    (fun name => ((edges.lookup name).getD []).map fun target => (target, ()))
    (g.parserRules.map (·.name)))

/-- The line of the rule of a name. -/
def Grammar.ruleLine (g : Grammar) (name : String) : Nat :=
  ((g.rule? name).map (·.lineNumber)).getD 0

def Grammar.hiddenDiagnostic (g : Grammar) (c : Cycle Unit) : Diagnostic :=
  let head := c.members.headD ""
  let chain := " -> ".intercalate c.chain
  let d := ((Diagnostic.ofKind .hiddenLeftRecursion).onLine (g.ruleLine head)).onRule head
    |>.withDetail s!"`{head}` starts with itself through {chain}"
  (c.members.zip (c.chain.drop 1)).foldl (fun d (source, target) =>
    d.relatedTo s!"`{source}` can start with `{target}`" (g.ruleLine source)) d

/-- Direct left recursion of all rules, then hidden left recursion. -/
def Grammar.leftRecursion (g : Grammar) : Diagnostics :=
  g.rules.filterMap (·.directRecursion?) ++ g.hiddenCycles.map g.hiddenDiagnostic

end GrammarLab
