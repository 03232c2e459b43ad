import GrammarLab.Grammar

/-!
# Reference graph

The graph whose nodes are the names of rules, in source order, and whose edges lead from a rule to
each rule that its body names. Declared tokens and names without a rule are no nodes.

    b ∈ g.successors a ↔ (a, b) ∈ g.edges
-/

namespace GrammarLab

structure ReferenceGraph where
  nodes : List String
  /-- Pairs of a rule and one that it names, in source order. -/
  edges : List (String × String)
deriving DecidableEq, Repr

namespace ReferenceGraph

def ofGrammar (g : Grammar) : ReferenceGraph :=
  let nodes := (g.rules.map (·.name)).eraseDups
  { nodes
    edges := g.rules.flatMap fun r =>
      (r.referencedRules.filter (· ∈ nodes)).map fun target => (r.name, target) }

def contains (g : ReferenceGraph) (name : String) : Bool := g.nodes.contains name

/-- The rules that a rule names, itself included. -/
def successors (g : ReferenceGraph) (name : String) : List String :=
  ((g.edges.filter (·.1 = name)).map (·.2)).eraseDups

/-- The other rules that name a rule. -/
def referrers (g : ReferenceGraph) (name : String) : List String :=
  (((g.edges.filter (·.2 = name)).map (·.1)).eraseDups).filter (· ≠ name)

def fanIn (g : ReferenceGraph) (name : String) : Nat := (g.referrers name).length

def fanOut (g : ReferenceGraph) (name : String) : Nat :=
  ((g.successors name).filter (· ≠ name)).length

def isSelfReferencing (g : ReferenceGraph) (name : String) : Bool :=
  (g.successors name).contains name

end ReferenceGraph

end GrammarLab
