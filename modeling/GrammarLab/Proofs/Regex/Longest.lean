import GrammarLab.Proofs.Regex.Language
import GrammarLab.Regex.Derivative

/-!
# Longest matches and the language

The partial derivatives of an expression are what may follow a character, so running through a
text decides whether the expression matches it, and the longest match found on the way is the
greatest one there is.

    (∃ d ∈ partials c r, d.Matches s) ↔ r.Matches (c :: s)          (exists_partials_iff)
    r.accepts s = true ↔ r.Matches s                                (accepts_iff)
    r.longest? s = some n ↔ n is the greatest with r.Matches (s.take n)
-/

namespace GrammarLab.Regex

/-! ## Derivatives -/

theorem matches_followedBy (a b : Regex) (s : List Char) :
    (a.followedBy b).Matches s ↔ ∃ t u, s = t ++ u ∧ a.Matches t ∧ b.Matches u := by
  induction a generalizing s with
  | empty =>
    simp only [followedBy, matches_empty_iff]
    constructor
    · intro h
      exact ⟨[], s, rfl, rfl, h⟩
    · rintro ⟨_, u, rfl, rfl, hu⟩
      exact hu
  | seq a r _ ih =>
    simp only [followedBy, matches_seq_iff, ih]
    constructor
    · rintro ⟨t, _, rfl, ha, u, v, rfl, hr, hb⟩
      exact ⟨t ++ u, v, (List.append_assoc ..).symm, ⟨t, u, rfl, ha, hr⟩, hb⟩
    · rintro ⟨_, v, rfl, ⟨t, u, rfl, ha, hr⟩, hb⟩
      exact ⟨t, u ++ v, List.append_assoc .., ha, u, v, rfl, hr, hb⟩
  | set => simp only [followedBy, matches_seq_iff]
  | group => simp only [followedBy, matches_seq_iff]
  | or => simp only [followedBy, matches_seq_iff]
  | repeated => simp only [followedBy, matches_seq_iff]

/-- The derivatives of a sequence whose first part has the derivatives `ds`. -/
theorem exists_followedBy_iff {ds : List Regex} {b : Regex} {P : List Char → Prop}
    (h : ∀ s, (∃ d ∈ ds, d.Matches s) ↔ P s) (s : List Char) :
    (∃ d ∈ ds.map (·.followedBy b), d.Matches s) ↔ ∃ t u, s = t ++ u ∧ P t ∧ b.Matches u := by
  constructor
  · rintro ⟨_, he, hm⟩
    obtain ⟨d, hd, rfl⟩ := List.mem_map.1 he
    obtain ⟨t, u, rfl, ht, hu⟩ := (matches_followedBy d b _).1 hm
    exact ⟨t, u, rfl, (h t).1 ⟨d, hd, ht⟩, hu⟩
  · rintro ⟨t, u, rfl, ht, hu⟩
    obtain ⟨d, hd, hm⟩ := (h t).2 ht
    exact ⟨d.followedBy b, List.mem_map.2 ⟨d, hd, rfl⟩,
      (matches_followedBy d b _).2 ⟨t, u, rfl, hm, hu⟩⟩

theorem matches_seq_cons_iff (a b : Regex) (c : Char) (s : List Char) :
    (Regex.seq a b).Matches (c :: s) ↔
      (∃ t u, s = t ++ u ∧ a.Matches (c :: t) ∧ b.Matches u) ∨
        a.nullable = true ∧ b.Matches (c :: s) := by
  simp only [matches_seq_iff]
  constructor
  · rintro ⟨t, u, hs, ha, hb⟩
    cases t with
    | nil => exact .inr ⟨matches_nil_iff.1 ha, hs ▸ hb⟩
    | cons d t =>
      simp only [List.cons_append, List.cons.injEq] at hs
      obtain ⟨rfl, rfl⟩ := hs
      exact .inl ⟨t, u, rfl, ha, hb⟩
  · rintro (⟨t, u, rfl, ha, hb⟩ | ⟨ha, hb⟩)
    · exact ⟨c :: t, u, rfl, ha, hb⟩
    · exact ⟨[], c :: s, rfl, matches_nil_iff.2 ha, hb⟩

/-- A repetition that needs a round starts like one that needs none: an empty first round leaves
the text to the next one. -/
theorem matches_plus_cons_iff {l : Bool} {r : Regex} {c : Char} {s : List Char} :
    (Regex.repeated .plus l r).Matches (c :: s) ↔ Iterated r.Matches (c :: s) := by
  rw [matches_plus_iff]
  constructor
  · rintro ⟨t, u, hs, ht, hu⟩
    exact hs ▸ .cons ht hu
  · intro h
    obtain ⟨t, u, rfl, ht, hu⟩ := Iterated.cons_iff.1 h
    exact ⟨c :: t, u, rfl, ht, hu⟩

theorem exists_partials_iff (c : Char) (r : Regex) (s : List Char) :
    (∃ d ∈ partials c r, d.Matches s) ↔ r.Matches (c :: s) := by
  induction r generalizing s with
  | empty => simp [partials]
  | set cs =>
    simp only [partials, matches_set_iff, List.cons.injEq]
    split
    · rename_i hc
      simp only [List.mem_singleton, exists_eq_left, matches_empty_iff]
      constructor
      · intro h
        exact ⟨c, ⟨rfl, h⟩, hc⟩
      · rintro ⟨_, ⟨-, h⟩, -⟩
        exact h
    · rename_i hc
      simp only [List.not_mem_nil, false_and, exists_false, false_iff]
      rintro ⟨d, ⟨rfl, -⟩, hd⟩
      exact hc hd
  | group r ih => simpa only [partials, matches_group_iff] using ih s
  | seq a b iha ihb =>
    rw [matches_seq_cons_iff, ← exists_followedBy_iff iha s, ← ihb s, partials]
    cases a.nullable <;> simp [or_and_right, exists_or]
  | or a b iha ihb =>
    rw [matches_or_iff, ← iha, ← ihb, partials]
    simp [or_and_right, exists_or]
  | repeated q l r ih =>
    cases q with
    | optional => simpa [partials] using ih s
    | star =>
      rw [matches_star_iff, Iterated.cons_iff, partials, exists_followedBy_iff ih]
      · simp only [matches_star_iff]
      · simp
    | plus =>
      rw [matches_plus_cons_iff, Iterated.cons_iff, partials, exists_followedBy_iff ih]
      · simp only [matches_star_iff]
      · simp

theorem exists_advance_iff (rs : List Regex) (c : Char) (s : List Char) :
    (∃ d ∈ advance rs c, d.Matches s) ↔ ∃ r ∈ rs, r.Matches (c :: s) := by
  simp only [advance, List.mem_eraseDups, List.mem_flatMap, ← exists_partials_iff]
  constructor
  · rintro ⟨d, ⟨r, hr, hd⟩, hm⟩
    exact ⟨r, hr, d, hd, hm⟩
  · rintro ⟨r, hr, d, hd, hm⟩
    exact ⟨d, ⟨r, hr, hd⟩, hm⟩

/-! ## Runs -/

theorem any_nullable_iff (rs : List Regex) :
    rs.any nullable = true ↔ ∃ r ∈ rs, r.Matches [] := by
  simp only [List.any_eq_true, matches_nil_iff]

theorem anyAccepts_iff (rs : List Regex) (s : List Char) :
    anyAccepts rs s = true ↔ ∃ r ∈ rs, r.Matches s := by
  induction s generalizing rs with
  | nil => exact any_nullable_iff rs
  | cons c s ih => rw [anyAccepts, ih, exists_advance_iff]

theorem accepts_iff (r : Regex) (s : List Char) : r.accepts s = true ↔ r.Matches s := by
  simp [accepts, anyAccepts_iff]

/-- `n` is the length of the longest beginning of the text that satisfies `P`. -/
def IsLongest (P : List Char → Prop) (s : List Char) (n : Nat) : Prop :=
  n ≤ s.length ∧ P (s.take n) ∧ ∀ m ≤ s.length, P (s.take m) → m ≤ n

theorem longestOf_eq_none {rs : List Regex} {s : List Char} (h : longestOf rs s = none) (m : Nat) :
    ¬∃ r ∈ rs, r.Matches (s.take m) := by
  induction s generalizing rs m with
  | nil =>
    intro he
    rw [List.take_nil, ← any_nullable_iff] at he
    simp [longestOf, he] at h
  | cons c s ih =>
    simp only [longestOf] at h
    split at h
    · simp at h
    rename_i hnext
    split at h
    · simp at h
    rename_i hnull
    cases m with
    | zero => exact fun he => hnull ((any_nullable_iff rs).2 he)
    | succ m =>
      rw [List.take_succ_cons, ← exists_advance_iff]
      split at hnext
      · rename_i hempty
        simp [List.isEmpty_iff.1 hempty]
      · exact ih hnext m

theorem longestOf_eq_some {rs : List Regex} {s : List Char} {n : Nat}
    (h : longestOf rs s = some n) : IsLongest (fun t => ∃ r ∈ rs, r.Matches t) s n := by
  induction s generalizing rs n with
  | nil =>
    simp only [longestOf] at h
    split at h
    · rename_i hnull
      simp only [Option.some.injEq] at h
      subst h
      exact ⟨Nat.le_refl _, (any_nullable_iff rs).1 hnull, fun m hm _ => hm⟩
    · simp at h
  | cons c s ih =>
    simp only [longestOf] at h
    split at h
    · rename_i k hnext
      simp only [Option.some.injEq] at h
      subst h
      split at hnext
      · simp at hnext
      obtain ⟨hk, hm, hmax⟩ := ih hnext
      refine ⟨by simpa using hk, ?_, fun m hm hr => ?_⟩
      · exact (exists_advance_iff rs c _).1 hm
      · cases m with
        | zero => omega
        | succ m =>
          have := hmax m (by simpa using hm) ((exists_advance_iff rs c _).2 hr)
          omega
    · rename_i hnext
      split at h
      · rename_i hnull
        simp only [Option.some.injEq] at h
        subst h
        refine ⟨Nat.zero_le _, (any_nullable_iff rs).1 hnull, fun m _ hr => ?_⟩
        cases m with
        | zero => omega
        | succ m =>
          replace hr := (exists_advance_iff rs c _).2 hr
          split at hnext
          · rename_i hempty
            simp [List.isEmpty_iff.1 hempty] at hr
          · exact absurd hr (longestOf_eq_none hnext m)
      · simp at h

theorem IsLongest.unique {P : List Char → Prop} {s : List Char} {n m : Nat} (hn : IsLongest P s n)
    (hm : IsLongest P s m) : n = m :=
  Nat.le_antisymm (hm.2.2 n hn.1 hn.2.1) (hn.2.2 m hm.1 hm.2.1)

theorem longest?_eq_some_iff {r : Regex} {s : List Char} {n : Nat} :
    r.longest? s = some n ↔ IsLongest r.Matches s n := by
  have key : ∀ m, r.longest? s = some m → IsLongest r.Matches s m := by
    intro m h
    simpa using longestOf_eq_some h
  refine ⟨key n, fun h => ?_⟩
  cases hl : r.longest? s with
  | none => exact absurd ⟨r, by simp, h.2.1⟩ (longestOf_eq_none hl n)
  | some m => rw [(key m hl).unique h]

theorem longest?_eq_none_iff {r : Regex} {s : List Char} :
    r.longest? s = none ↔ ∀ m, ¬r.Matches (s.take m) := by
  constructor
  · intro h m hm
    exact longestOf_eq_none h m ⟨r, by simp, hm⟩
  · intro h
    cases hl : r.longest? s with
    | none => rfl
    | some m => exact absurd (longest?_eq_some_iff.1 hl).2.1 (h m)

end GrammarLab.Regex
