/-!
# Cycles of a walk

A depth-first walk over named nodes with labelled edges. Each edge back to a node on the current
path closes a cycle. A node is finished when the walk leaves it, and not entered again; the walk
goes no deeper than a bound.

    every cycle found consists of edges: each step leads to the source of the next one, and the
    last one to the source of the first
-/

namespace GrammarLab

/-- An edge that was taken, by the node that it leaves. -/
structure Step (α : Type) where
  source : String
  label : α
deriving DecidableEq, Repr

/-- Steps around a cycle; the last one leads back to the first source. -/
abbrev Cycle (α : Type) := List (Step α)

namespace Cycle

variable {α : Type}

def members (c : Cycle α) : List String := c.map (·.source)

/-- The members in order, with the first one again at the end. -/
def chain (c : Cycle α) : List String := c.members ++ c.members.take 1

/-- Both go through the same nodes. -/
def hasMembersOf (c d : Cycle α) : Bool :=
  c.members.all (d.members.contains ·) && d.members.all (c.members.contains ·)

/-- The cycles without those that go through the same nodes as an earlier one. -/
def distinct (cs : List (Cycle α)) : List (Cycle α) := cs.eraseDupsBy hasMembersOf

end Cycle

/-- How deep a walk goes. -/
def maxWalkDepth : Nat := 256

namespace Walk

variable {α : Type}

/-- The steps from the given node on; `path` holds the latest step first. -/
def stepsFrom (node : String) : List (Step α) → Cycle α
  | [] => []
  | s :: path => if s.source = node then [s] else stepsFrom node path ++ [s]

/-- Visits a node behind `path`, with at most `depth` nodes more on the path. Gives the cycles
that were closed, in order, and the finished nodes. -/
def visit (edges : String → List (String × α)) :
    Nat → List (Step α) → String → List String → List (Cycle α) × List String
  | 0, _, _, finished => ([], finished)
  | depth + 1, path, node, finished =>
    let (cycles, finished) := (edges node).foldl (fun (cycles, finished) (target, label) =>
      let path := ⟨node, label⟩ :: path
      if path.any (·.source = target) then (cycles ++ [stepsFrom target path], finished)
      else if target ∈ finished then (cycles, finished)
      else
        let (more, finished) := visit edges depth path target finished
        (cycles ++ more, finished)) ([], finished)
    (cycles, node :: finished)

/-- The cycles closed by walks that start at each of the nodes that is not finished by then. -/
def cycles (edges : String → List (String × α)) (nodes : List String) : List (Cycle α) :=
  (nodes.foldl (fun (cycles, finished) node =>
    if node ∈ finished then (cycles, finished)
    else
      let (more, finished) := visit edges maxWalkDepth [] node finished
      (cycles ++ more, finished)) ([], [])).1

end Walk

end GrammarLab
