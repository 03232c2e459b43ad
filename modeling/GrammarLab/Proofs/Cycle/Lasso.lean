import GrammarLab.Proofs.Cycle.Walk

/-!
# Lassos

Names that each lead to the next one alone, the last of them back to an earlier one, form one cycle
with a way into it, or a ring when the way back is to the first name. A walk that enters a lasso of
one name more than it goes deep has its end at the last name. All others are finished then, among
them the one that the last name leads back to, so no cycle is closed, however short.

    Lasso edges name label back maxWalkDepth → cycles edges names = []       (Lasso.cycles_eq_nil)
-/

namespace GrammarLab.Walk

/-! ## Numbered names -/

theorem toDigits_injective : Function.Injective (Nat.toDigits 10) := by
  intro i j heq
  have hvalue := congrArg (Nat.ofDigitChars 10 · 0) heq
  simpa only [Nat.ofDigitChars_toDigits (b := 10) (by decide) (by decide)] using hvalue

/-! ## Lassos -/

variable {α : Type}

/-- Each name leads to the next one alone, and the last one to the name with the number `back`. -/
structure Lasso (edges : String → List (String × α)) (name : Nat → String) (label : Nat → α)
    (back last : Nat) : Prop where
  injective : Function.Injective name
  edges_next : ∀ i < last, edges (name i) = [(name (i + 1), label i)]
  edges_last : edges (name last) = [(name back, label last)]

/-- The last name leads back to the first. -/
abbrev Ring (edges : String → List (String × α)) (name : Nat → String) (label : Nat → α)
    (last : Nat) : Prop :=
  Lasso edges name label 0 last

/-- The steps around the ring. -/
def ringSteps (name : Nat → String) (label : Nat → α) (n : Nat) : Cycle α :=
  (List.range n).map fun i => ⟨name i, label i⟩

section

variable {edges : String → List (String × α)} {name : Nat → String} {label : Nat → α}
  {back last depth i : Nat} {path : List (Step α)} {found : List (Cycle α) × List String}

theorem Lasso.leadsTo (h : Lasso edges name label back last) {n : Nat} (hn : n ≤ last) :
    LeadsTo edges (ringSteps name label n).reverse (name n) := by
  induction n with
  | zero => trivial
  | succ n ih =>
    rw [ringSteps, List.range_succ, List.map_append, List.map_singleton, List.reverse_concat]
    refine ⟨?_, ih (by omega)⟩
    rw [h.edges_next n (by omega)]
    exact List.mem_singleton.2 rfl

theorem Ring.isCycle (h : Ring edges name label last) :
    IsCycle edges (ringSteps name label (last + 1)) := by
  have hsteps : ringSteps name label (last + 1) =
      ringSteps name label last ++ [⟨name last, label last⟩] := by
    rw [ringSteps, List.range_succ, List.map_append, List.map_singleton]
    rfl
  have hfirst : ∃ rest, ringSteps name label (last + 1) = ⟨name 0, label 0⟩ :: rest := by
    rw [ringSteps, List.range_succ_eq_map]
    exact ⟨_, rfl⟩
  obtain ⟨rest, hrest⟩ := hfirst
  refine ⟨_, rest, hrest, ?_⟩
  rw [hsteps, List.reverse_concat]
  refine ⟨?_, h.leadsTo (Nat.le_refl _)⟩
  rw [h.edges_last]
  exact List.mem_singleton.2 rfl

/-- A walk along the names that does not last to their end closes nothing. -/
theorem Lasso.visit_eq (h : Lasso edges name label back last) (hi : i + depth = last)
    (hpath : ∀ s ∈ path, ∃ j < i, s.source = name j) :
    visit edges depth path (name i) [] = ([], (List.range' i depth).map name) := by
  induction depth generalizing i path with
  | zero => rfl
  | succ depth ih =>
    have hpath' : ∀ s ∈ (⟨name i, label i⟩ :: path : List (Step α)),
        ∃ j < i + 1, s.source = name j := by
      rw [List.forall_mem_cons]
      refine ⟨⟨i, by omega, rfl⟩, fun s hs => ?_⟩
      obtain ⟨j, hj, heq⟩ := hpath s hs
      exact ⟨j, by omega, heq⟩
    have hback : (⟨name i, label i⟩ :: path : List (Step α)).any (·.source = name (i + 1)) =
        false := by
      rw [List.any_eq_false]
      intro s hs
      obtain ⟨j, hj, heq⟩ := hpath' s hs
      rw [heq, decide_eq_true_eq]
      exact fun hname => absurd (h.injective hname) (by omega)
    rw [visit_succ, h.edges_next i (by omega), List.foldl_cons, List.foldl_nil, follow]
    simp only [hback, Bool.false_eq_true, if_false, List.not_mem_nil]
    rw [ih (by omega) hpath', List.range'_succ, List.map_cons]
    rfl

theorem foldl_restart_of_subset {nodes : List String} (h : nodes ⊆ found.2) :
    nodes.foldl (restart edges) found = found := by
  induction nodes with
  | nil => rfl
  | cons node nodes ih =>
    obtain ⟨hnode, hnodes⟩ := List.cons_subset.1 h
    rw [List.foldl_cons, restart, if_pos hnode, ih hnodes]

/-- The depth does not last for one name more: the last name is entered when all others are
finished. -/
theorem Lasso.cycles_eq_nil (h : Lasso edges name label back maxWalkDepth)
    (hback : back < maxWalkDepth) :
    cycles edges ((List.range (maxWalkDepth + 1)).map name) = [] := by
  let others : List String := (List.range maxWalkDepth).map name
  have hfirst : others.foldl (restart edges) ([], []) = ([], others) := by
    have hrange : others = name 0 :: (List.range' 1 255).map name := by
      show (List.range (255 + 1)).map name = _
      rw [List.range_eq_range', List.range'_succ, List.map_cons]
    have hvisit : restart edges ([], []) (name 0) = ([], others) := by
      rw [restart, if_neg List.not_mem_nil, h.visit_eq (Nat.zero_add _) (by simp)]
      simp only [List.nil_append, others, List.range_eq_range']
    have hrest : (List.range' 1 255).map name ⊆ others := hrange ▸ List.subset_cons_self _ _
    calc others.foldl (restart edges) ([], [])
      _ = ((List.range' 1 255).map name).foldl (restart edges) (restart edges ([], []) (name 0)) := by
        rw [hrange, List.foldl_cons]
      _ = ([], others) := by rw [hvisit, foldl_restart_of_subset hrest]
  have hnew : name maxWalkDepth ∉ others := by
    intro hmem
    obtain ⟨i, hi, heq⟩ := List.mem_map.1 hmem
    rw [h.injective heq] at hi
    exact absurd hi (by simp)
  have hdone : name back ∈ others := List.mem_map.2 ⟨back, List.mem_range.2 hback, rfl⟩
  have hother : name maxWalkDepth ≠ name back := fun heq =>
    absurd (h.injective heq) (Nat.ne_of_gt hback)
  rw [cycles_eq, List.range_succ, List.map_append, List.foldl_append, hfirst, List.map_singleton,
    List.foldl_cons, List.foldl_nil, restart, if_neg hnew]
  show ((visit edges 256 [] (name maxWalkDepth) others).1 : List (Cycle α)) = []
  rw [visit_succ, h.edges_last, List.foldl_cons, List.foldl_nil, follow]
  simp [hother, hdone]

theorem Ring.cycles_eq_nil (h : Ring edges name label maxWalkDepth) :
    cycles edges ((List.range (maxWalkDepth + 1)).map name) = [] :=
  Lasso.cycles_eq_nil h (by decide)

end

end GrammarLab.Walk
