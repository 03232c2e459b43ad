import GrammarLab.Reference.Graph

/-!
# Recursion depth

How few references lead from a rule back to it. The search goes on from the rule that it reached
last, and keeps for each rule in how few steps it was reached so far. A rule that is reached in
fewer steps than before is gone on from once more. Nothing is followed that cannot close a shorter
cycle than the known one, or one within the cap.

    s.pending ≠ [] → (s.round g rule cap).weight g cap < s.weight g cap          (weight_round_lt)
-/

namespace GrammarLab

namespace ReferenceGraph

/-! ## Algorithm -/

/-- Where a search for the shortest cycle through a rule stands. -/
structure Search where
  /-- The length of the shortest cycle found so far. -/
  shortest : Option Nat := none
  /-- Other rules with the number of steps they were reached in; the latest entry counts. -/
  reached : List (String × Nat) := []
  /-- What was reached and not gone on from yet, the latest first. -/
  pending : List (String × Nat)
deriving DecidableEq, Repr

namespace Search

/-- The search has been nowhere but at the rule itself. -/
def start (rule : String) : Search := { pending := [(rule, 0)] }

/-- In how few steps a rule was reached so far. -/
def steps? (s : Search) (name : String) : Option Nat := s.reached.lookup name

/-- A cycle of `n` steps is closed. -/
def close (s : Search) (n : Nat) : Search :=
  { s with shortest := some (s.shortest.elim n (min · n)) }

/-- A rule is reached in `n` steps. -/
def push (s : Search) (name : String) (n : Nat) : Search :=
  { s with reached := (name, n) :: s.reached, pending := (name, n) :: s.pending }

/-- To reach a rule in `n` steps is of no use. -/
def prunes (cap : Nat) (s : Search) (name : String) (n : Nat) : Bool :=
  cap ≤ n || s.shortest.any (· ≤ n) || (s.steps? name).any (· ≤ n)

/-- Follows a reference to `next` from the rule `node`, which was reached in `steps` steps. -/
def follow (rule : String) (cap : Nat) (node : String) (steps : Nat) (s : Search)
    (next : String) : Search :=
  if next = node then s
  else if next = rule then s.close (steps + 1)
  else if s.prunes cap next (steps + 1) then s
  else s.push next (steps + 1)

/-- Goes on from the rule that was reached last. -/
def round (g : ReferenceGraph) (rule : String) (cap : Nat) (s : Search) : Search :=
  match s.pending with
  | [] => s
  | (node, steps) :: rest =>
    (g.successors node).foldl (follow rule cap node steps) { s with pending := rest }

/-! ## Termination -/

/-- The steps to each target of an edge, where one that was not reached counts for the cap. -/
def stepsLeft (cap : Nat) (s : Search) (targets : List String) : Nat :=
  targets.foldr (fun name left => (s.steps? name).getD cap + left) 0

/-- What each round lowers: rules are only reached again in fewer steps. -/
def weight (g : ReferenceGraph) (cap : Nat) (s : Search) : Nat :=
  s.stepsLeft cap (g.edges.map (·.2)) + s.pending.length

theorem steps?_push (s : Search) (name : String) (n : Nat) (other : String) :
    (s.push name n).steps? other = if other = name then some n else s.steps? other := by
  by_cases h : other = name
  · simp [steps?, push, h]
  · simp [steps?, push, List.lookup_cons, beq_false_of_ne h, h]

theorem stepsLeft_push {s : Search} {cap : Nat} {name : String} {n : Nat}
    (hn : n < (s.steps? name).getD cap) (targets : List String) :
    (s.push name n).stepsLeft cap targets + (if name ∈ targets then 1 else 0) ≤
      s.stepsLeft cap targets := by
  induction targets with
  | nil => simp [stepsLeft]
  | cons target targets ih =>
    simp only [stepsLeft, List.foldr_cons, steps?_push, List.mem_cons] at ih ⊢
    by_cases htarget : target = name
    · subst htarget
      split at ih <;> simp <;> omega
    · simp only [htarget, Ne.symm htarget, if_false, false_or]
      omega

theorem lt_steps_of_not_prunes {s : Search} {cap : Nat} {name : String} {n : Nat}
    (h : s.prunes cap name n = false) : n < (s.steps? name).getD cap := by
  cases hsteps : s.steps? name <;> simp_all [prunes]

theorem weight_follow_le {g : ReferenceGraph} {rule node next : String} {cap steps : Nat}
    (hnext : next ∈ g.successors node) (s : Search) :
    (follow rule cap node steps s next).weight g cap ≤ s.weight g cap := by
  have htarget : next ∈ g.edges.map (·.2) := by
    simp only [successors, List.mem_eraseDups, List.mem_map] at hnext ⊢
    obtain ⟨e, he, rfl⟩ := hnext
    exact ⟨e, (List.mem_filter.1 he).1, rfl⟩
  unfold follow
  split
  · exact Nat.le_refl _
  split
  · exact Nat.le_refl _
  split
  · exact Nat.le_refl _
  · rename_i hprunes
    have hless := stepsLeft_push (lt_steps_of_not_prunes (by simpa using hprunes))
      (g.edges.map (·.2))
    rw [if_pos htarget] at hless
    show _ + (s.pending.length + 1) ≤ _ + s.pending.length
    omega

theorem weight_foldl_follow_le {g : ReferenceGraph} {rule node : String} {cap steps : Nat}
    {names : List String} (hnames : ∀ next ∈ names, next ∈ g.successors node) (s : Search) :
    (names.foldl (follow rule cap node steps) s).weight g cap ≤ s.weight g cap := by
  induction names generalizing s with
  | nil => exact Nat.le_refl _
  | cons next names ih =>
    rw [List.forall_mem_cons] at hnames
    exact Nat.le_trans (ih hnames.2 _) (weight_follow_le hnames.1 s)

theorem weight_round_lt {g : ReferenceGraph} {rule : String} {cap : Nat} {s : Search}
    (h : s.pending ≠ []) : (s.round g rule cap).weight g cap < s.weight g cap := by
  unfold round
  split
  · rename_i hpending
    exact absurd hpending h
  · rename_i node steps rest hpending
    refine Nat.lt_of_le_of_lt (weight_foldl_follow_le (fun _ hnext => hnext) _) ?_
    simp only [weight, hpending, List.length_cons]
    exact Nat.lt_succ_self _

/-- Goes on until nothing is pending. -/
def run (g : ReferenceGraph) (rule : String) (cap : Nat) (s : Search) : Search :=
  if s.pending = [] then s else run g rule cap (s.round g rule cap)
termination_by s.weight g cap
decreasing_by exact weight_round_lt ‹_›

end Search

/-- The length of the shortest cycle through a rule, if it is at most `cap`, and 0 otherwise. A
rule that names itself counts as `cap`, since nothing bounds how often it recurs. -/
def recursionDepth (g : ReferenceGraph) (name : String) (cap : Nat) : Nat :=
  if g.isSelfReferencing name then cap
  else ((Search.start name).run g name cap).shortest.getD 0

end ReferenceGraph

end GrammarLab
