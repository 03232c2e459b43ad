import GrammarLab.Regex.Basic

/-!
# Languages of expressions

What each constructor matches, in terms of what its parts match. A repetition matches the texts
that are put together from matches of its body.

    (repeated .star l r).Matches s ↔ Iterated r.Matches s            (matches_star_iff)
-/

namespace GrammarLab.Regex

/-- Texts put together from several texts that satisfy `P`, or none. -/
inductive Iterated (P : List Char → Prop) : List Char → Prop
  | nil : Iterated P []
  | cons {s t} : P s → Iterated P t → Iterated P (s ++ t)

namespace Iterated

variable {P Q : List Char → Prop}

theorem single {s : List Char} (h : P s) : Iterated P s := by
  have := cons h nil
  rwa [List.append_nil] at this

theorem append {s t : List Char} (hs : Iterated P s) (ht : Iterated P t) :
    Iterated P (s ++ t) := by
  induction hs with
  | nil => exact ht
  | cons hp _ ih => rw [List.append_assoc]; exact cons hp ih

theorem mono {s : List Char} (h : Iterated P s) (hPQ : ∀ t, P t → Q t) : Iterated Q s := by
  induction h with
  | nil => exact nil
  | cons hp _ ih => exact cons (hPQ _ hp) ih

theorem congr (h : ∀ t, P t ↔ Q t) (s : List Char) : Iterated P s ↔ Iterated Q s :=
  ⟨fun hs => hs.mono fun t => (h t).1, fun hs => hs.mono fun t => (h t).2⟩

/-- The first round that takes something takes the first character; rounds before it are empty. -/
theorem cons_iff {c : Char} {s : List Char} :
    Iterated P (c :: s) ↔ ∃ t u, s = t ++ u ∧ P (c :: t) ∧ Iterated P u := by
  constructor
  · generalize he : c :: s = w
    intro h
    induction h with
    | nil => simp at he
    | @cons t u ht hu ih =>
      cases t with
      | nil => exact ih he
      | cons d t =>
        simp only [List.cons_append, List.cons.injEq] at he
        obtain ⟨rfl, rfl⟩ := he
        exact ⟨t, u, rfl, ht, hu⟩
  · rintro ⟨t, u, rfl, ht, hu⟩
    exact cons ht hu

end Iterated

/-! ## One constructor at a time -/

variable {a b r : Regex} {s : List Char} {l : Bool}

@[simp] theorem matches_empty_iff : Matches .empty s ↔ s = [] :=
  ⟨fun h => by cases h; rfl, fun h => h ▸ .empty⟩

@[simp] theorem matches_set_iff {cs : CharSet} :
    Matches (.set cs) s ↔ ∃ c, s = [c] ∧ cs.contains c = true :=
  ⟨fun h => by cases h with | set hc => exact ⟨_, rfl, hc⟩, fun ⟨_, hs, hc⟩ => hs ▸ .set hc⟩

@[simp] theorem matches_group_iff : Matches (.group r) s ↔ r.Matches s :=
  ⟨fun h => by cases h; assumption, .group⟩

@[simp] theorem matches_seq_iff :
    Matches (.seq a b) s ↔ ∃ t u, s = t ++ u ∧ a.Matches t ∧ b.Matches u :=
  ⟨fun h => by cases h with | seq ha hb => exact ⟨_, _, rfl, ha, hb⟩,
    fun ⟨_, _, hs, ha, hb⟩ => hs ▸ .seq ha hb⟩

@[simp] theorem matches_or_iff : Matches (.or a b) s ↔ a.Matches s ∨ b.Matches s :=
  ⟨fun h => by cases h with | left h => exact .inl h | right h => exact .inr h,
    fun h => h.elim .left .right⟩

@[simp] theorem matches_optional_iff :
    Matches (.repeated .optional l r) s ↔ s = [] ∨ r.Matches s :=
  ⟨fun h => by cases h with | absent => exact .inl rfl | present h => exact .inr h,
    fun h => h.elim (fun hs => hs ▸ .absent) .present⟩

@[simp] theorem matches_star_iff :
    Matches (.repeated .star l r) s ↔ Iterated r.Matches s := by
  constructor
  · generalize he : Regex.repeated .star l r = q
    intro h
    induction h with
    | stop => exact .nil
    | @next _ _ _ _ hr _ _ ih =>
      simp only [repeated.injEq, true_and] at he
      exact .cons (he.2 ▸ hr) (ih (by simp [he.1, he.2]))
    | _ => simp at he
  · intro h
    induction h with
    | nil => exact .stop
    | cons hr _ ih => exact .next hr ih

@[simp] theorem matches_plus_iff :
    Matches (.repeated .plus l r) s ↔ ∃ t u, s = t ++ u ∧ r.Matches t ∧ Iterated r.Matches u :=
  ⟨fun h => by cases h with | plus hr hs => exact ⟨_, _, rfl, hr, matches_star_iff.1 hs⟩,
    fun ⟨_, _, hs, hr, ht⟩ => hs ▸ .plus hr (matches_star_iff.2 ht)⟩

/-! ## Chains -/

theorem matches_sequence_cons {rs : List Regex} :
    (sequence (r :: rs)).Matches s ↔ ∃ t u, s = t ++ u ∧ r.Matches t ∧ (sequence rs).Matches u := by
  cases rs with
  | nil => simp [sequence]
  | cons => simp [sequence]

theorem matches_sequence_append {rs qs : List Regex} :
    (sequence (rs ++ qs)).Matches s ↔
      ∃ t u, s = t ++ u ∧ (sequence rs).Matches t ∧ (sequence qs).Matches u := by
  induction rs generalizing s with
  | nil =>
    simp only [List.nil_append, sequence, matches_empty_iff]
    constructor
    · intro h
      exact ⟨[], s, rfl, rfl, h⟩
    · rintro ⟨_, u, rfl, rfl, hu⟩
      exact hu
  | cons r rs ih =>
    simp only [List.cons_append, matches_sequence_cons, ih]
    constructor
    · rintro ⟨t, _, rfl, hr, u, v, rfl, hu, hv⟩
      exact ⟨t ++ u, v, (List.append_assoc ..).symm, ⟨t, u, rfl, hr, hu⟩, hv⟩
    · rintro ⟨_, v, rfl, ⟨t, u, rfl, hr, hu⟩, hv⟩
      exact ⟨t, u ++ v, List.append_assoc .., hr, u, v, rfl, hu, hv⟩

theorem matches_alternation {rs : List Regex} (h : rs ≠ []) :
    (alternation rs).Matches s ↔ ∃ r ∈ rs, r.Matches s := by
  induction rs with
  | nil => exact absurd rfl h
  | cons r rs ih =>
    cases rs with
    | nil => simp [alternation]
    | cons q rs => simp [alternation, ih (List.cons_ne_nil q rs)]

end GrammarLab.Regex
