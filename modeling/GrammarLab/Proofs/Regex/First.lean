import GrammarLab.Proofs.Regex.Language
import GrammarLab.Regex.Extent

/-!
# First characters

The least length of a match is unknown as soon as a set without members stands somewhere in the
expression, also where that part can be left out. The first characters of a sequence go on behind a
part only if its least length is known to be zero. So they are those that a match begins with, but
for the ones that stand behind a part with such a set.

    r.least? = some 0 ↔ r.nullable = true ∧ r.hasEmptySet = false            (least?_eq_zero_iff)
    r.first.contains c = true ↔ r.BeginsPlainly c                            (contains_first_iff)
-/

namespace GrammarLab.Regex

/-! ## Beginnings -/

/-- A set without members stands somewhere in the expression. -/
def hasEmptySet : Regex → Bool
  | .empty => false
  | .set s => s.isEmpty
  | .group r => r.hasEmptySet
  | .seq a b => a.hasEmptySet || b.hasEmptySet
  | .or a b => a.hasEmptySet || b.hasEmptySet
  | .repeated _ _ r => r.hasEmptySet

/-- `Begins r skipped c`: a match of the expression may begin with the character `c`, behind the
parts `skipped`, which it leaves empty. -/
inductive Begins : Regex → List Regex → Char → Prop
  | set {s c} : s.contains c = true → Begins (.set s) [] c
  | group {r skipped c} : Begins r skipped c → Begins (.group r) skipped c
  | head {a b skipped c} : Begins a skipped c → Begins (.seq a b) skipped c
  | behind {a b skipped c} : a.nullable = true → Begins b skipped c →
      Begins (.seq a b) (a :: skipped) c
  | left {a b skipped c} : Begins a skipped c → Begins (.or a b) skipped c
  | right {a b skipped c} : Begins b skipped c → Begins (.or a b) skipped c
  | repeated {q isLazy r skipped c} : Begins r skipped c →
      Begins (.repeated q isLazy r) skipped c

/-- A match may begin with the character, and no part that it leaves empty in front holds a set
without members. -/
def BeginsPlainly (r : Regex) (c : Char) : Prop :=
  ∃ skipped, Begins r skipped c ∧ ∀ p ∈ skipped, p.hasEmptySet = false

variable {r : Regex} {s : List Char} {c : Char} {skipped : List Regex}

/-- Every match that is not empty begins in one of these ways. -/
theorem exists_begins (h : r.Matches (c :: s)) : ∃ skipped, Begins r skipped c := by
  induction r generalizing s with
  | empty => simp at h
  | set cs =>
    obtain ⟨d, heq, hd⟩ := matches_set_iff.1 h
    obtain ⟨rfl, -⟩ := List.cons.inj heq
    exact ⟨[], .set hd⟩
  | group r ih =>
    obtain ⟨skipped, hr⟩ := ih (matches_group_iff.1 h)
    exact ⟨skipped, .group hr⟩
  | seq a b iha ihb =>
    obtain ⟨t, u, heq, ht, hu⟩ := matches_seq_iff.1 h
    cases t with
    | nil =>
      obtain rfl : c :: s = u := heq
      obtain ⟨skipped, hb⟩ := ihb hu
      exact ⟨a :: skipped, .behind (matches_nil_iff.1 ht) hb⟩
    | cons d t =>
      obtain ⟨rfl, -⟩ := List.cons.inj heq
      obtain ⟨skipped, ha⟩ := iha ht
      exact ⟨skipped, .head ha⟩
  | or a b iha ihb =>
    rcases matches_or_iff.1 h with h | h
    · obtain ⟨skipped, ha⟩ := iha h
      exact ⟨skipped, .left ha⟩
    · obtain ⟨skipped, hb⟩ := ihb h
      exact ⟨skipped, .right hb⟩
  | repeated q isLazy r ih =>
    have hround (hrounds : Iterated r.Matches (c :: s)) :
        ∃ skipped, Begins (.repeated q isLazy r) skipped c := by
      obtain ⟨t, u, rfl, ht, -⟩ := Iterated.cons_iff.1 hrounds
      obtain ⟨skipped, hr⟩ := ih ht
      exact ⟨skipped, .repeated hr⟩
    cases q with
    | optional =>
      rcases matches_optional_iff.1 h with h | h
      · simp at h
      · exact hround (.single h)
    | star => exact hround (matches_star_iff.1 h)
    | plus =>
      obtain ⟨t, u, heq, ht, hu⟩ := matches_plus_iff.1 h
      exact hround (heq ▸ .cons ht hu)

/-- What is left empty in front can be, and is part of the expression. -/
theorem Begins.of_mem_skipped (h : Begins r skipped c) {p : Regex} (hp : p ∈ skipped) :
    p.nullable = true ∧ (p.hasEmptySet = true → r.hasEmptySet = true) := by
  induction h with
  | set => simp at hp
  | group _ ih => exact ih hp
  | head _ ih => exact ⟨(ih hp).1, fun h => by simp [hasEmptySet, (ih hp).2 h]⟩
  | behind hnullable _ ih =>
    rcases List.mem_cons.1 hp with rfl | hp
    · exact ⟨hnullable, fun h => by simp [hasEmptySet, h]⟩
    · exact ⟨(ih hp).1, fun h => by simp [hasEmptySet, (ih hp).2 h]⟩
  | left _ ih => exact ⟨(ih hp).1, fun h => by simp [hasEmptySet, (ih hp).2 h]⟩
  | right _ ih => exact ⟨(ih hp).1, fun h => by simp [hasEmptySet, (ih hp).2 h]⟩
  | repeated _ ih => exact ih hp

/-- Where every set has members, all matches begin plainly. -/
theorem beginsPlainly_of_matches (hr : r.hasEmptySet = false) (h : r.Matches (c :: s)) :
    r.BeginsPlainly c := by
  obtain ⟨skipped, hbegins⟩ := exists_begins h
  refine ⟨skipped, hbegins, fun p hp => Bool.eq_false_iff.2 fun hempty => ?_⟩
  rw [(hbegins.of_mem_skipped hp).2 hempty] at hr
  contradiction

/-! ## Least lengths -/

theorem least?_eq_none_iff : r.least? = none ↔ r.hasEmptySet = true := by
  induction r with
  | empty => simp [least?, hasEmptySet]
  | set cs => simp [least?, hasEmptySet]
  | group r ih => exact ih
  | seq a b iha ihb =>
    rw [hasEmptySet, Bool.or_eq_true, ← iha, ← ihb, least?]
    cases a.least? <;> cases b.least? <;> simp
  | or a b iha ihb =>
    rw [hasEmptySet, Bool.or_eq_true, ← iha, ← ihb, least?]
    cases a.least? <;> cases b.least? <;> simp
  | repeated q isLazy r ih =>
    rw [hasEmptySet, ← ih]
    cases q <;> simp [least?]

/-- A least length that is known is zero for the expressions that match the empty text. -/
theorem least?_eq_zero_iff_of_some {n : Nat} (h : r.least? = some n) :
    n = 0 ↔ r.nullable = true := by
  induction r generalizing n with
  | empty => simpa [least?, nullable] using h.symm
  | set cs =>
    simp only [least?, Option.ite_none_left_eq_some, Option.some.injEq] at h
    simp [nullable, ← h.2]
  | group r ih => exact ih h
  | seq a b iha ihb =>
    simp only [least?, bind, Option.bind_eq_some_iff, pure, Option.some.injEq] at h
    obtain ⟨i, hi, j, hj, rfl⟩ := h
    rw [nullable, Bool.and_eq_true, ← iha hi, ← ihb hj]
    omega
  | or a b iha ihb =>
    simp only [least?, bind, Option.bind_eq_some_iff, pure, Option.some.injEq] at h
    obtain ⟨i, hi, j, hj, rfl⟩ := h
    rw [nullable, Bool.or_eq_true, ← iha hi, ← ihb hj]
    omega
  | repeated q isLazy r ih =>
    cases q with
    | plus => simpa [nullable] using ih h
    | optional | star =>
      obtain ⟨i, -, rfl⟩ := Option.map_eq_some_iff.1 h
      simp [nullable]

theorem least?_eq_zero_iff : r.least? = some 0 ↔ r.nullable = true ∧ r.hasEmptySet = false := by
  cases hleast : r.least? with
  | none =>
    have hempty := least?_eq_none_iff.1 hleast
    simp [hempty]
  | some n =>
    have hempty : r.hasEmptySet = false := by
      refine Bool.eq_false_iff.2 fun h => ?_
      rw [least?_eq_none_iff.2 h] at hleast
      contradiction
    rw [Option.some.injEq, least?_eq_zero_iff_of_some hleast, and_iff_left hempty]

/-! ## First characters -/

theorem beginsPlainly_set_iff {cs : CharSet} :
    (Regex.set cs).BeginsPlainly c ↔ cs.contains c = true :=
  ⟨fun ⟨_, h, _⟩ => by cases h; assumption, fun h => ⟨[], .set h, by simp⟩⟩

theorem beginsPlainly_group_iff : (Regex.group r).BeginsPlainly c ↔ r.BeginsPlainly c :=
  ⟨fun ⟨skipped, h, hplain⟩ => by cases h with | group h => exact ⟨skipped, h, hplain⟩,
    fun ⟨skipped, h, hplain⟩ => ⟨skipped, .group h, hplain⟩⟩

theorem beginsPlainly_repeated_iff {q : Quantifier} {isLazy : Bool} :
    (Regex.repeated q isLazy r).BeginsPlainly c ↔ r.BeginsPlainly c :=
  ⟨fun ⟨skipped, h, hplain⟩ => by cases h with | repeated h => exact ⟨skipped, h, hplain⟩,
    fun ⟨skipped, h, hplain⟩ => ⟨skipped, .repeated h, hplain⟩⟩

theorem beginsPlainly_seq_iff {a b : Regex} : (Regex.seq a b).BeginsPlainly c ↔
    a.BeginsPlainly c ∨ (a.nullable = true ∧ a.hasEmptySet = false) ∧ b.BeginsPlainly c := by
  constructor
  · rintro ⟨skipped, h, hplain⟩
    cases h with
    | head h => exact .inl ⟨skipped, h, hplain⟩
    | behind hnullable h =>
      rw [List.forall_mem_cons] at hplain
      exact .inr ⟨⟨hnullable, hplain.1⟩, _, h, hplain.2⟩
  · rintro (⟨skipped, h, hplain⟩ | ⟨⟨hnullable, hempty⟩, skipped, h, hplain⟩)
    · exact ⟨skipped, .head h, hplain⟩
    · exact ⟨a :: skipped, .behind hnullable h, List.forall_mem_cons.2 ⟨hempty, hplain⟩⟩

theorem beginsPlainly_or_iff {a b : Regex} :
    (Regex.or a b).BeginsPlainly c ↔ a.BeginsPlainly c ∨ b.BeginsPlainly c := by
  constructor
  · rintro ⟨skipped, h, hplain⟩
    cases h with
    | left h => exact .inl ⟨skipped, h, hplain⟩
    | right h => exact .inr ⟨skipped, h, hplain⟩
  · rintro (⟨skipped, h, hplain⟩ | ⟨skipped, h, hplain⟩)
    · exact ⟨skipped, .left h, hplain⟩
    · exact ⟨skipped, .right h, hplain⟩

/-- The first characters are those that a match begins with plainly. -/
theorem contains_first_iff : r.first.contains c = true ↔ r.BeginsPlainly c := by
  induction r with
  | empty => exact ⟨fun h => by simp [first] at h, fun ⟨_, h, _⟩ => nomatch h⟩
  | set cs => exact beginsPlainly_set_iff.symm
  | group r ih => exact ih.trans beginsPlainly_group_iff.symm
  | seq a b iha ihb =>
    rw [beginsPlainly_seq_iff, ← least?_eq_zero_iff, ← iha, ← ihb, first]
    split
    · rename_i hleast
      simp [hleast]
    · rename_i hleast
      simp [hleast]
  | or a b iha ihb =>
    rw [beginsPlainly_or_iff, ← iha, ← ihb, first, CharSet.contains_union, Bool.or_eq_true]
  | repeated q isLazy r ih => exact ih.trans beginsPlainly_repeated_iff.symm

end GrammarLab.Regex
