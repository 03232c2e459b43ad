import Mathlib.Data.List.SplitBy
import GrammarLab.Proofs.Regex.Language
import GrammarLab.Regex.Normal

/-!
# Meaning of normal forms

The normal form matches what the expression matches. Which of several matches is preferred is not
part of that.

    r.normal.Matches s ↔ r.Matches s          (matches_normal)
-/

namespace GrammarLab.CharSet

open Text

/-! ## Sets -/

/-- Ranges that meet are made one without a change, if none begins before the one in front. -/
theorem inRanges_joinFrom {r : Nat × Nat} {ranges : List (Nat × Nat)} (c : Char)
    (hr : ∀ a ∈ ranges, r.1 ≤ a.1) (hsorted : ranges.Pairwise fun a b => a.1 ≤ b.1) :
    inRanges (joinFrom r ranges) c = inRanges (r :: ranges) c := by
  induction ranges generalizing r with
  | nil => rfl
  | cons a ranges ih =>
    have hra := hr a List.mem_cons_self
    obtain ⟨ha, hsorted⟩ := List.pairwise_cons.1 hsorted
    rw [joinFrom]
    split
    · have hjoined := ih (r := (r.1, max r.2 a.2)) (fun b hb => Nat.le_trans hra (ha b hb)) hsorted
      simp only [inRanges, List.any_cons, ← Bool.or_assoc] at hjoined ⊢
      rw [hjoined]
      congr 1
      rw [Bool.eq_iff_iff]
      simp only [Bool.or_eq_true, Bool.and_eq_true, decide_eq_true_eq]
      omega
    · have htail := ih ha hsorted
      simp only [inRanges, List.any_cons] at htail ⊢
      rw [htail]

@[simp] theorem contains_normal (s : CharSet) (c : Char) : s.normal.contains c = s.contains c := by
  have hperm := List.mergeSort_perm s.ranges fun a b => decide (a.1 ≤ b.1)
  have hsorted : (s.ranges.mergeSort fun a b => decide (a.1 ≤ b.1)).Pairwise
      fun a b => a.1 ≤ b.1 := by
    refine (List.pairwise_mergeSort ?_ ?_ _).imp fun h => of_decide_eq_true h
    · intro a b c hab hbc
      simp only [decide_eq_true_eq] at hab hbc ⊢
      omega
    · intro a b
      simp only [Bool.or_eq_true, decide_eq_true_eq]
      omega
  have hany : inRanges (s.ranges.mergeSort fun a b => decide (a.1 ≤ b.1)) c =
      s.contains c := hperm.any_eq
  rw [contains, normal, ← hany]
  cases hs : s.ranges.mergeSort fun a b => decide (a.1 ≤ b.1) with
  | nil => rfl
  | cons r ranges =>
    rw [hs, List.pairwise_cons] at hsorted
    exact inRanges_joinFrom c hsorted.1 hsorted.2

theorem contains_foldl_union (ss : List CharSet) (s : CharSet) (c : Char) :
    (ss.foldl union s).contains c = (s.contains c || ss.any fun t => t.contains c) := by
  induction ss generalizing s with
  | nil => simp
  | cons t ss ih => rw [List.foldl_cons, ih, contains_union, List.any_cons, Bool.or_assoc]

end GrammarLab.CharSet

namespace GrammarLab.Regex

variable {r : Regex} {rs : List Regex} {s : List Char}

/-! ## Chains -/

theorem matches_items : (Regex.sequence r.items).Matches s ↔ r.Matches s := by
  induction r generalizing s with
  | empty => rfl
  | seq a b iha ihb => simp only [items, matches_sequence_append, iha, ihb, matches_seq_iff]
  | set cs => rfl
  | group r => rfl
  | or a b => rfl
  | repeated q isLazy r => rfl

theorem matches_branches : (∃ b ∈ r.branches, b.Matches s) ↔ r.Matches s := by
  induction r with
  | or a b iha ihb => simp only [branches, List.mem_append, or_and_right, exists_or, iha, ihb,
      matches_or_iff]
  | empty => simp [branches]
  | set cs => simp [branches]
  | group r => simp [branches]
  | seq a b => simp [branches]
  | repeated q isLazy r => simp [branches]

theorem matches_flatMap_branches :
    (∃ b ∈ rs.flatMap branches, b.Matches s) ↔ ∃ r ∈ rs, r.Matches s := by
  constructor
  · rintro ⟨b, hb, hs⟩
    obtain ⟨r, hr, hb⟩ := List.mem_flatMap.1 hb
    exact ⟨r, hr, matches_branches.1 ⟨b, hb, hs⟩⟩
  · rintro ⟨r, hr, hs⟩
    obtain ⟨b, hb, hs⟩ := matches_branches.2 hs
    exact ⟨b, List.mem_flatMap.2 ⟨r, hr, hb⟩, hs⟩

/-! ## Branches of sets -/

theorem eq_set_setOf (h : r.isLetter = true ∨ r.isClass = true) : r = .set r.setOf := by
  cases r with
  | set cs => rfl
  | empty => simp [isLetter, isClass] at h
  | group r => simp [isLetter, isClass] at h
  | seq a b => simp [isLetter, isClass] at h
  | or a b => simp [isLetter, isClass] at h
  | repeated q isLazy r => simp [isLetter, isClass] at h

theorem all_sets (h : (rs.all isLetter || rs.all isClass) = true) (hr : r ∈ rs) :
    r.isLetter = true ∨ r.isClass = true := by
  rw [Bool.or_eq_true, List.all_eq_true, List.all_eq_true] at h
  exact h.imp (fun h => h r hr) (fun h => h r hr)

theorem matches_setOf (h : ∀ r ∈ rs, r = .set r.setOf) :
    (Regex.set (CharSet.normal ((rs.map setOf).foldl .union .empty))).Matches s ↔
      ∃ r ∈ rs, r.Matches s := by
  simp only [matches_set_iff, CharSet.contains_normal, CharSet.contains_foldl_union,
    CharSet.contains_empty, Bool.false_or, List.any_map, List.any_eq_true, Function.comp_apply]
  constructor
  · rintro ⟨c, rfl, r, hr, hc⟩
    refine ⟨r, hr, ?_⟩
    rw [h r hr]
    exact .set hc
  · rintro ⟨r, hr, hs⟩
    rw [h r hr, matches_set_iff] at hs
    obtain ⟨c, rfl, hc⟩ := hs
    exact ⟨c, rfl, r, hr, hc⟩

/-! ## Common beginnings -/

section

variable {α : Type} [DecidableEq α]

theorem shared_prefix_left (as bs : List α) : shared as bs <+: as := by
  fun_induction shared as bs with
  | case1 a as bs ih => exact List.cons_prefix_cons.2 ⟨rfl, ih⟩
  | case2 => exact List.nil_prefix
  | case3 => exact List.nil_prefix

theorem shared_prefix_right (as bs : List α) : shared as bs <+: bs := by
  fun_induction shared as bs with
  | case1 a as bs ih => exact List.cons_prefix_cons.2 ⟨rfl, ih⟩
  | case2 => exact List.nil_prefix
  | case3 => exact List.nil_prefix

theorem foldl_shared_prefix (lists : List (List α)) (as : List α) :
    lists.foldl shared as <+: as ∧ ∀ bs ∈ lists, lists.foldl shared as <+: bs := by
  induction lists generalizing as with
  | nil => exact ⟨List.prefix_rfl, by simp⟩
  | cons bs lists ih =>
    obtain ⟨hhead, htail⟩ := ih (shared as bs)
    refine ⟨hhead.trans (shared_prefix_left as bs), ?_⟩
    intro cs hcs
    rcases List.mem_cons.1 hcs with rfl | hcs
    · exact hhead.trans (shared_prefix_right as cs)
    · exact htail cs hcs

end

theorem sharedRuns_prefix {sequences : List (List (List Regex))} {qs : List (List Regex)}
    (h : qs ∈ sequences) : sharedRuns sequences <+: qs := by
  cases sequences with
  | nil => simp at h
  | cons first others =>
    rw [sharedRuns]
    split
    · obtain ⟨hfirst, hothers⟩ := foldl_shared_prefix others first
      rcases List.mem_cons.1 h with rfl | h
      · exact hfirst
      · exact hothers qs h
    · exact List.nil_prefix

theorem flatten_runs (rs : List Regex) : (runs rs).flatten = rs := List.flatten_splitBy _ rs

/-- What all branches begin with, each of them does. -/
theorem beginning_prefix_items (h : r ∈ rs) :
    (sharedRuns (rs.map fun r => runs r.items)).flatten <+: r.items := by
  obtain ⟨others, hothers⟩ :=
    sharedRuns_prefix (List.mem_map_of_mem (f := fun r : Regex => runs r.items) h)
  refine ⟨others.flatten, ?_⟩
  rw [← List.flatten_append, hothers, flatten_runs]

/-- A beginning of all branches may stand in front of them. -/
theorem matches_beginning {beginning : List Regex} {rest : Regex}
    (hbeginning : ∀ r ∈ rs, beginning <+: r.items)
    (hrest : ∀ t, rest.Matches t ↔
      ∃ r ∈ rs, (Regex.sequence (r.items.drop beginning.length)).Matches t) :
    (Regex.sequence (beginning ++ rest.items)).Matches s ↔ ∃ r ∈ rs, r.Matches s := by
  have hitems : ∀ r ∈ rs, r.Matches s ↔ ∃ t u, s = t ++ u ∧ (Regex.sequence beginning).Matches t ∧
      (Regex.sequence (r.items.drop beginning.length)).Matches u := by
    intro r hr
    rw [← matches_sequence_append, List.prefix_iff_eq_append.1 (hbeginning r hr), matches_items]
  simp only [matches_sequence_append, matches_items, hrest]
  constructor
  · rintro ⟨t, u, hs, ht, r, hr, hu⟩
    exact ⟨r, hr, (hitems r hr).2 ⟨t, u, hs, ht, hu⟩⟩
  · rintro ⟨r, hr, hs⟩
    obtain ⟨t, u, hs, ht, hu⟩ := (hitems r hr).1 hs
    exact ⟨t, u, hs, ht, r, hr, hu⟩

/-! ## Alternations -/

theorem ne_nil_of_not_all (h : ¬(rs.all isLetter || rs.all isClass) = true) : rs ≠ [] := by
  rintro rfl
  exact h rfl

theorem matches_alternate {fuel : Nat} :
    (alternate fuel rs).Matches s ↔ ∃ r ∈ rs, r.Matches s := by
  -- the induction follows the beginnings that are taken out one after the other
  induction fuel generalizing rs s with
  | zero =>
    rw [alternate, ← matches_flatMap_branches]
    split
    · rename_i hsets
      exact matches_setOf fun r hr => eq_set_setOf (all_sets hsets hr)
    · rename_i hsets
      exact matches_alternation (ne_nil_of_not_all hsets)
  | succ fuel ih =>
    rw [alternate, ← matches_flatMap_branches]
    split
    · rename_i hsets
      exact matches_setOf fun r hr => eq_set_setOf (all_sets hsets hr)
    · rename_i hsets
      dsimp only
      split
      · exact matches_alternation (ne_nil_of_not_all hsets)
      · refine matches_beginning (fun r hr => beginning_prefix_items hr) fun t => ?_
        rw [ih]
        simp

theorem matches_joined : (joined rs).Matches s ↔ ∃ r ∈ rs, r.Matches s := by
  unfold joined
  split
  · simp
  · exact matches_alternate

/-! ## Repetitions -/

/-- No match is longer than the bound. -/
theorem length_le_most {n : Nat} (h : r.most? = some n) (hs : r.Matches s) : s.length ≤ n := by
  induction r generalizing s n with
  | empty =>
    rw [matches_empty_iff.1 hs]
    exact Nat.zero_le n
  | set cs =>
    obtain ⟨c, rfl, -⟩ := matches_set_iff.1 hs
    simp only [most?, Option.ite_none_left_eq_some, Option.some.injEq] at h
    simp [← h.2]
  | group r ih => exact ih h (matches_group_iff.1 hs)
  | seq a b iha ihb =>
    simp only [most?, bind, Option.bind_eq_some_iff, pure, Option.some.injEq] at h
    obtain ⟨i, hi, j, hj, rfl⟩ := h
    obtain ⟨t, u, rfl, ht, hu⟩ := matches_seq_iff.1 hs
    rw [List.length_append]
    exact Nat.add_le_add (iha hi ht) (ihb hj hu)
  | or a b iha ihb =>
    simp only [most?, bind, Option.bind_eq_some_iff, pure, Option.some.injEq] at h
    obtain ⟨i, hi, j, hj, rfl⟩ := h
    rcases matches_or_iff.1 hs with hs | hs
    · exact Nat.le_trans (iha hi hs) (Nat.le_max_left i j)
    · exact Nat.le_trans (ihb hj hs) (Nat.le_max_right i j)
  | repeated q isLazy r ih =>
    cases q with
    | optional =>
      rcases matches_optional_iff.1 hs with rfl | hs
      · exact Nat.zero_le n
      · exact ih h hs
    | star => simp [most?] at h
    | plus => simp [most?] at h

theorem Iterated.eq_nil {P : List Char → Prop} (hP : ∀ t, P t → t = []) (h : Iterated P s) :
    s = [] := by
  induction h with
  | nil => rfl
  | cons hp _ ih => rw [hP _ hp, ih, List.append_nil]

theorem matches_repetition {q : Quantifier} {isLazy : Bool} :
    (repetition q isLazy r).Matches s ↔ (Regex.repeated q isLazy r).Matches s := by
  unfold repetition
  split
  · rename_i hmost
    have hnil : ∀ t, r.Matches t → t = [] := fun t ht =>
      List.eq_nil_of_length_eq_zero (Nat.le_zero.1 (length_le_most hmost ht))
    cases q with
    | optional => exact Iff.rfl
    | star =>
      rw [matches_optional_iff, matches_star_iff]
      constructor
      · rintro (rfl | hs)
        · exact .nil
        · exact .single hs
      · exact fun hs => .inl (hs.eq_nil hnil)
    | plus =>
      rw [matches_plus_iff]
      constructor
      · exact fun hs => ⟨s, [], (List.append_nil s).symm, hs, .nil⟩
      · rintro ⟨t, u, rfl, ht, hu⟩
        rwa [hu.eq_nil hnil, List.append_nil]
  · exact Iff.rfl

theorem matches_repeated_congr {q : Quantifier} {isLazy : Bool} {a b : Regex}
    (h : ∀ t, a.Matches t ↔ b.Matches t) :
    (Regex.repeated q isLazy a).Matches s ↔ (Regex.repeated q isLazy b).Matches s := by
  cases q with
  | optional => rw [matches_optional_iff, matches_optional_iff, h]
  | star => rw [matches_star_iff, matches_star_iff, Iterated.congr h]
  | plus => simp only [matches_plus_iff, h, Iterated.congr h]

/-! ## Normal forms -/

theorem matches_alternatives : (∃ a ∈ r.alternatives, a.Matches s) ↔ r.Matches s := by
  induction r generalizing s with
  | empty => simp [alternatives]
  | set cs => simp [alternatives]
  | group r ih => simp [alternatives, matches_joined, ih]
  | seq a b iha ihb =>
    simp [alternatives, matches_sequence_append, matches_items, matches_joined, iha, ihb]
  | or a b iha ihb => simp [alternatives, matches_joined, iha, ihb]
  | repeated q isLazy r ih =>
    have hjoined : ∀ t, (joined r.alternatives).Matches t ↔ r.Matches t := fun t => by
      rw [matches_joined, ih]
    simp only [alternatives, List.mem_singleton, exists_eq_left, matches_repetition]
    exact matches_repeated_congr hjoined

/-- The normal form means the same. -/
theorem matches_normal : r.normal.Matches s ↔ r.Matches s := by
  rw [normal, matches_joined, matches_alternatives]

end GrammarLab.Regex
