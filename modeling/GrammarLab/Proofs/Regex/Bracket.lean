import GrammarLab.Regex.Bracket
import GrammarLab.Proofs.Regex.Property

/-!
# Where classes end

A class is read up to the first closing bracket that no backslash stands in front of, and what is
read does not depend on the text behind it. So a class means the same wherever it is written.

    bracket? (body ++ ']' :: rest) = some (b, r) →
      r = rest ∧ ∀ more, bracket? (body ++ ']' :: more) = some (b, more)    (bracket?_append)
-/

namespace GrammarLab.Regex

/-- Text without a bare closing bracket, in which every backslash has a character behind it. -/
inductive Inside : List Char → Prop
  | nil : Inside []
  | escaped {c s} : Inside s → Inside ('\\' :: c :: s)
  | plain {c s} : c ≠ '\\' → c ≠ ']' → Inside s → Inside (c :: s)

/-! ## Lemmas -/

namespace Inside

theorem append {s t : List Char} (hs : Inside s) (ht : Inside t) : Inside (s ++ t) := by
  induction hs with
  | nil => exact ht
  | escaped _ ih => exact .escaped ih
  | plain h₁ h₂ _ ih => exact .plain h₁ h₂ ih

theorem tail {c : Char} {s : List Char} (h : Inside (c :: s)) (hc : c ≠ '\\') : Inside s := by
  cases h with
  | escaped _ => exact absurd rfl hc
  | plain _ _ h => exact h

theorem of_append {s t : List Char} (h : Inside (s ++ t)) (hs : Inside s) : Inside t := by
  induction hs with
  | nil => exact h
  | escaped _ ih =>
    rw [List.cons_append, List.cons_append] at h
    cases h with
    | escaped h => exact ih h
    | plain h₁ _ _ => exact absurd rfl h₁
  | plain h₁ _ _ ih =>
    exact ih (h.tail h₁)

theorem of_plain {s : List Char} (h : Plain s) : Inside s := by
  induction s with
  | nil => exact .nil
  | cons c s ih =>
    obtain ⟨hc, hs⟩ := List.forall_mem_cons.1 h
    exact .plain hc.1 hc.2 (ih hs)

/-- The first bare closing bracket of a text is one place. -/
theorem unique {s t u v : List Char} (hs : Inside s) (ht : Inside t)
    (h : s ++ ']' :: u = t ++ ']' :: v) : s = t ∧ u = v := by
  induction hs generalizing t with
  | nil =>
    cases ht with
    | nil => simpa using h
    | escaped _ => simp at h
    | plain _ h₂ _ =>
      simp only [List.nil_append, List.cons_append, List.cons.injEq] at h
      exact absurd h.1.symm h₂
  | escaped _ ih =>
    cases ht with
    | nil => simp at h
    | escaped ht =>
      simp only [List.cons_append, List.cons.injEq, true_and] at h
      obtain ⟨rfl, rfl⟩ := ih ht h.2
      exact ⟨by rw [h.1], rfl⟩
    | plain h₁ _ _ =>
      simp only [List.cons_append, List.cons.injEq] at h
      exact absurd h.1.symm h₁
  | plain h₁ h₂ _ ih =>
    cases ht with
    | nil =>
      simp only [List.nil_append, List.cons_append, List.cons.injEq] at h
      exact absurd h.1 h₂
    | escaped _ =>
      simp only [List.cons_append, List.cons.injEq] at h
      exact absurd h.1 h₁
    | plain _ _ ht =>
      simp only [List.cons_append, List.cons.injEq] at h
      obtain ⟨rfl, rfl⟩ := ih ht h.2
      exact ⟨by rw [h.1], rfl⟩

end Inside

/-! ## Units -/

section

open Text CharSet

theorem isSome_hexDigit?_of_hexNumberFrom? {s : List Char} {acc n : Nat}
    (h : hexNumberFrom? acc s = some n) : ∀ c ∈ s, (hexDigit? c).isSome = true := by
  induction s generalizing acc with
  | nil => exact fun _ hc => absurd hc List.not_mem_nil
  | cons c cs ih =>
    simp only [hexNumberFrom?] at h
    split at h
    · rename_i d hd
      exact List.forall_mem_cons.2 ⟨by rw [hd]; rfl, ih h⟩
    · simp at h

/-- A number is written with digits only, and at least one. -/
theorem digits_of_hexNumber? {s : List Char} {n : Nat} (h : hexNumber? s = some n) :
    s ≠ [] ∧ ∀ c ∈ s, (hexDigit? c).isSome = true := by
  simp only [hexNumber?] at h
  split at h
  · simp at h
  · rename_i hs
    exact ⟨by simpa using hs, isSome_hexDigit?_of_hexNumberFrom? h⟩

theorem plain_of_hexNumber? {s : List Char} {n : Nat} (h : hexNumber? s = some n) : Plain s := by
  intro c hc
  have hdigit := (digits_of_hexNumber? h).2 c hc
  constructor
  · rintro rfl
    simp [hexDigit?] at hdigit
  · rintro rfl
    simp [hexDigit?] at hdigit

theorem exists_of_braced? {s inner rest : List Char} (h : braced? s = some (inner, rest)) :
    s = inner ++ '\x7d' :: rest ∧
      ∀ more, braced? (inner ++ '\x7d' :: more) = some (inner, more) := by
  induction s generalizing inner rest with
  | nil => simp [braced?] at h
  | cons c cs ih =>
    simp only [braced?] at h
    split at h
    · rename_i hc
      simp only [Option.some.injEq, Prod.mk.injEq] at h
      obtain ⟨rfl, rfl⟩ := h
      exact ⟨by simp [hc], fun more => by simp [braced?]⟩
    · rename_i hc
      obtain ⟨⟨i, r⟩, hb, he⟩ := Option.map_eq_some_iff.1 h
      simp only [Prod.mk.injEq] at he
      obtain ⟨rfl, rfl⟩ := he
      obtain ⟨hs, hmore⟩ := ih hb
      exact ⟨by simp [hs], fun more => by simp [braced?, hc, hmore]⟩

theorem codePoint?_digits {n : Nat} {c : Char} {ds more : List Char} (hc : c ≠ '\x7b')
    (hl : (c :: ds).length = n) :
    codePoint? n (c :: ds ++ more) =
      (hexNumber? (c :: ds)).bind fun m => (scalar? m).map fun d => (.char d, more) := by
  subst hl
  simp only [List.cons_append, codePoint?, if_neg hc]
  rw [if_pos (by simp), ← List.cons_append, List.take_left, List.drop_left]
  cases hexNumber? (c :: ds) with
  | none => rfl
  | some m => cases hd : scalar? m <;> simp [hd]

theorem exists_of_codePoint? {n : Nat} {s rest : List Char} {u : TextUnit} (hn : 0 < n)
    (h : codePoint? n s = some (u, rest)) :
    ∃ used, s = used ++ rest ∧ Plain used ∧
      ∀ more, codePoint? n (used ++ more) = some (u, more) := by
  cases s with
  | nil => simp [codePoint?] at h
  | cons c cs =>
    simp only [codePoint?] at h
    split at h
    · rename_i hc
      subst hc
      simp only [bind, Option.bind_eq_some_iff, pure, Option.some.injEq, Prod.mk.injEq] at h
      obtain ⟨⟨i, r⟩, hb, m, hm, d, hd, rfl, rfl⟩ := h
      obtain ⟨hcs, hmore⟩ := exists_of_braced? hb
      have hi : Plain i := plain_of_hexNumber? hm
      refine ⟨'\x7b' :: i ++ ['\x7d'], by simp [hcs], ?_, fun more => ?_⟩
      · exact (Plain.cons (by decide) (by decide) hi).append (by decide)
      · simp [codePoint?, hmore, hm, hd]
    · rename_i hc
      split at h
      · rename_i hlen
        simp only [bind, Option.bind_eq_some_iff, pure, Option.some.injEq, Prod.mk.injEq] at h
        obtain ⟨m, hm, d, hd, rfl, rfl⟩ := h
        obtain ⟨k, rfl⟩ := Nat.exists_eq_succ_of_ne_zero (Nat.pos_iff_ne_zero.1 hn)
        refine ⟨c :: cs.take k, by simp, by simpa using plain_of_hexNumber? hm, fun more => ?_⟩
        have hl : (c :: cs.take k).length = k + 1 := List.length_take_of_le hlen
        rw [codePoint?_digits hc hl]
        rw [List.take_succ_cons] at hm
        simp [hm, hd]
      · simp at h

theorem exists_of_propertyUnit? {negated : Bool} {s rest : List Char} {u : TextUnit}
    (h : propertyUnit? negated s = some (u, rest)) :
    ∃ used, s = used ++ rest ∧ Plain used ∧
      ∀ more, propertyUnit? negated (used ++ more) = some (u, more) := by
  cases s with
  | nil => simp [propertyUnit?] at h
  | cons c cs =>
    simp only [propertyUnit?] at h
    split at h
    · rename_i hc
      subst hc
      simp only [bind, Option.bind_eq_some_iff, pure, Option.some.injEq, Prod.mk.injEq] at h
      obtain ⟨⟨i, r⟩, hb, m, hm, rfl, rfl⟩ := h
      obtain ⟨hcs, hmore⟩ := exists_of_braced? hb
      have hi : Plain i := plain_of_property? hm
      refine ⟨'\x7b' :: i ++ ['\x7d'], by simp [hcs], ?_, fun more => ?_⟩
      · exact (Plain.cons (by decide) (by decide) hi).append (by decide)
      · simp [propertyUnit?, hmore, hm]
    · rename_i hc
      split at h
      · simp at h
      · rename_i hb
        simp only [bind, Option.bind_eq_some_iff, pure, Option.some.injEq, Prod.mk.injEq] at h
        obtain ⟨m, hm, rfl, rfl⟩ := h
        exact ⟨[c], rfl, plain_of_named? hm, fun more => by simp [propertyUnit?, hc, hb, hm]⟩

theorem exists_of_escape? {s rest : List Char} {u : TextUnit} (h : escape? s = some (u, rest)) :
    ∃ c used, s = c :: used ++ rest ∧ Plain used ∧
      ∀ more, escape? (c :: used ++ more) = some (u, more) := by
  cases s with
  | nil => simp [escape?] at h
  | cons c cs =>
    have alone : ∀ {v : TextUnit}, some (v, cs) = some (u, rest) →
        (∀ more, escape? (c :: more) = some (v, more)) →
        ∃ d used, c :: cs = d :: used ++ rest ∧ Plain used ∧
          ∀ more, escape? (d :: used ++ more) = some (u, more) := by
      intro v hv hmore
      simp only [Option.some.injEq, Prod.mk.injEq] at hv
      obtain ⟨rfl, rfl⟩ := hv
      exact ⟨c, [], rfl, fun _ hc => absurd hc List.not_mem_nil, hmore⟩
    have behind : ∀ {f : List Char → Option (TextUnit × List Char)},
        (∀ more, escape? (c :: more) = f more) →
        (∃ used, cs = used ++ rest ∧ Plain used ∧ ∀ more, f (used ++ more) = some (u, more)) →
        ∃ d used, c :: cs = d :: used ++ rest ∧ Plain used ∧
          ∀ more, escape? (d :: used ++ more) = some (u, more) := by
      rintro f hf ⟨used, rfl, hp, hmore⟩
      exact ⟨c, used, rfl, hp, fun more => by rw [List.cons_append, hf, hmore]⟩
    simp only [escape?] at h
    split at h
    · rename_i h₁
      exact behind (fun more => by simp [escape?, h₁]) (exists_of_codePoint? (by decide) h)
    split at h
    · rename_i h₁ h₂
      exact behind (fun more => by simp [escape?, h₂]) (exists_of_codePoint? (by decide) h)
    split at h
    · rename_i h₁ h₂ h₃
      exact behind (fun more => by simp [escape?, h₃]) (exists_of_codePoint? (by decide) h)
    split at h
    · rename_i h₁ h₂ h₃ h₄
      exact behind (fun more => by simp [escape?, h₄]) (exists_of_propertyUnit? h)
    split at h
    · rename_i h₁ h₂ h₃ h₄ h₅
      exact behind (fun more => by simp [escape?, h₅]) (exists_of_propertyUnit? h)
    rename_i h₁ h₂ h₃ h₄ h₅
    split at h
    · rename_i hs
      exact alone h fun more => by simp [escape?, h₁, h₂, h₃, h₄, h₅, hs]
    rename_i hs
    split at h
    · rename_i hd
      exact alone h fun more => by simp [escape?, h₁, h₂, h₃, h₄, h₅, hs, hd]
    rename_i hd
    split at h
    · rename_i he
      exact alone h fun more => by simp [escape?, h₁, h₂, h₃, h₄, h₅, hs, hd, he]
    · simp at h

theorem exists_of_unit? {c : Char} {s rest : List Char} {u : TextUnit} (hc : c ≠ ']')
    (h : unit? c s = some (u, rest)) :
    ∃ used, s = used ++ rest ∧ Inside (c :: used) ∧
      ∀ more, unit? c (used ++ more) = some (u, more) := by
  simp only [unit?] at h
  split at h
  · rename_i hb
    subst hb
    obtain ⟨d, used, rfl, hp, hmore⟩ := exists_of_escape? h
    exact ⟨d :: used, rfl, .escaped (.of_plain hp), fun more => by simp [unit?, ← hmore]⟩
  · rename_i hb
    simp only [Option.some.injEq, Prod.mk.injEq] at h
    obtain ⟨rfl, rfl⟩ := h
    exact ⟨[], rfl, .plain hb hc .nil, fun more => by simp [unit?, hb]⟩

end

/-! ## Members -/

/-- Text behind a unit that makes no range of it: no dash, or one that joins nothing. -/
def EndsUnit (s : List Char) : Prop :=
  ∃ c t, s = c :: t ∧ (c = '-' → ∃ d u, t = d :: u ∧ (d = ']' ∨ d = '-'))

/-- Text that ends in a dash of its own. -/
def EndsWithDash (s : List Char) : Prop := ∃ t, s = t ++ ['-'] ∧ Inside t

/-- Text that may stand behind `s` in a class without changing how `s` is read. -/
def Fits (s more : List Char) : Prop :=
  ∃ c t, more = c :: t ∧ c ∉ ['-', '&', '~'] ∧ (EndsWithDash s → c = ']')

theorem EndsWithDash.append {s t : List Char} (ht : EndsWithDash t) (hs : Inside s) :
    EndsWithDash (s ++ t) := by
  obtain ⟨u, rfl, hu⟩ := ht
  exact ⟨s ++ u, by rw [List.append_assoc], hs.append hu⟩

theorem EndsWithDash.of_append {s t : List Char} (h : EndsWithDash (s ++ t)) (hs : Inside s)
    (ht : t ≠ []) : EndsWithDash t := by
  obtain ⟨u, he, hu⟩ := h
  obtain rfl | ⟨v, c, rfl⟩ := List.eq_nil_or_concat t
  · exact absurd rfl ht
  rw [List.concat_eq_append, ← List.append_assoc] at he
  obtain ⟨rfl, hc⟩ := List.append_inj' he rfl
  exact ⟨v, by rw [List.concat_eq_append, hc], hu.of_append hs⟩

theorem not_endsWithDash_concat {c : Char} (hc : c ≠ '-') (s : List Char) :
    ¬EndsWithDash (s ++ [c]) := by
  rintro ⟨t, ht, -⟩
  exact hc (List.cons.inj (List.append_inj' ht rfl).2).1

/-- A dash behind a backslash is no dash of its own. -/
theorem not_endsWithDash_escaped (c : Char) : ¬EndsWithDash ['\\', c] := by
  rintro ⟨t, ht, hin⟩
  have ht' : ['\\'] ++ [c] = t ++ ['-'] := ht
  obtain ⟨rfl, -⟩ := List.append_inj' ht' rfl
  cases hin with
  | plain h₁ _ _ => exact h₁ rfl

theorem fits_close (s more : List Char) : Fits s (']' :: more) :=
  ⟨']', more, rfl, by decide, fun _ => rfl⟩

/-- What stands behind a text may stand behind the end of it. -/
theorem Fits.of_append {s t more : List Char} (h : Fits (s ++ t) more) (hs : Inside s) :
    Fits t more := by
  obtain ⟨c, u, rfl, hc, hd⟩ := h
  exact ⟨c, u, rfl, hc, fun ht => hd (ht.append hs)⟩

/-- Where a bracket ends a unit, so does what fits in its place. -/
theorem Fits.endsUnit {s more rest : List Char} (h : Fits s more)
    (hs : EndsUnit (s ++ ']' :: rest)) : EndsUnit (s ++ more) := by
  obtain ⟨c, t, rfl, hc, hd⟩ := h
  cases s with
  | nil =>
    refine ⟨c, t, rfl, ?_⟩
    rintro rfl
    simp at hc
  | cons d s =>
    obtain ⟨_, _, he, hdash⟩ := hs
    obtain ⟨rfl, rfl⟩ := List.cons.inj he
    refine ⟨d, s ++ c :: t, rfl, fun hd' => ?_⟩
    cases s with
    | nil =>
      subst hd'
      exact ⟨c, t, rfl, .inl (hd ⟨[], rfl, .nil⟩)⟩
    | cons e s =>
      obtain ⟨_, _, he', hor⟩ := hdash hd'
      obtain ⟨rfl, rfl⟩ := List.cons.inj he'
      exact ⟨e, s ++ c :: t, rfl, hor⟩

/-- An operator is one of three characters written twice. -/
theorem operatorAt?_eq_none_iff {c : Char} {s : List Char} :
    operatorAt? c s = none ↔ (s.head? = some c → c ∉ ['-', '&', '~']) := by
  cases s with
  | nil => simp [operatorAt?]
  | cons d s =>
    by_cases hd : c = d
    · subst hd
      simp only [operatorAt?, ne_eq, not_true_eq_false, if_false, List.head?_cons, forall_const]
      repeat' split
      all_goals simp_all
    · simp [operatorAt?, hd, eq_comm]

/-- Where no operator stands in front of a bracket, none stands in front of what fits. -/
theorem Fits.operatorAt?_eq_none {c : Char} {s more rest : List Char} (h : Fits (c :: s) more)
    (hs : operatorAt? c (s ++ ']' :: rest) = none) : operatorAt? c (s ++ more) = none := by
  obtain ⟨d, t, rfl, hd, -⟩ := h
  rw [operatorAt?_eq_none_iff] at hs ⊢
  cases s with
  | nil =>
    intro hc
    obtain rfl : d = c := by simpa using hc
    exact hd
  | cons e s => exact hs

theorem eq_of_operatorAt? {c : Char} {s rest : List Char} {op : SetOperator}
    (h : operatorAt? c s = some (op, rest)) :
    s = c :: rest ∧ c ≠ '\\' ∧ c ≠ ']' ∧ ∀ more, operatorAt? c (c :: more) = some (op, more) := by
  cases s with
  | nil => simp [operatorAt?] at h
  | cons d ds =>
    simp only [operatorAt?] at h
    split at h
    · simp at h
    rename_i hd
    obtain rfl : c = d := Classical.not_not.1 hd
    repeat' split at h
    all_goals simp_all [operatorAt?]

/-- A unit that begins no range. -/
theorem member?_of_endsUnit {c : Char} {s more : List Char} {u : TextUnit}
    (hu : unit? c s = some (u, more)) (h : EndsUnit more) : member? c s = some (u.toSet, more) := by
  obtain ⟨d, t, rfl, hd⟩ := h
  simp only [member?, hu]
  by_cases hdash : d = '-'
  · obtain ⟨e, v, rfl, he⟩ := hd hdash
    simp [hdash, he]
  · simp [hdash]

/-- A unit, a dash and a unit. -/
theorem member?_of_range {c d : Char} {s t more : List Char} {u v : TextUnit} (h₁ : d ≠ ']')
    (h₂ : d ≠ '-') (hu : unit? c s = some (u, '-' :: d :: t)) (hv : unit? d t = some (v, more)) :
    member? c s = (range? u v).map (·, more) := by
  simp [member?, hu, hv, h₁, h₂]

/-- A member is read the same whatever stands behind it, unless that makes a range of it. -/
theorem exists_of_member? {c : Char} {s rest : List Char} {m : CharSet} (hc : c ≠ ']')
    (h : member? c s = some (m, rest)) :
    ∃ used, s = used ++ rest ∧ Inside (c :: used) ∧
      ∀ more, (EndsUnit rest → EndsUnit more) → member? c (used ++ more) = some (m, more) := by
  simp only [member?] at h
  split at h
  · simp at h
  rename_i u r hu
  obtain ⟨used, rfl, hin, hmore⟩ := exists_of_unit? hc hu
  have single : EndsUnit r → some (u.toSet, r) = some (m, rest) →
      ∃ used', used ++ r = used' ++ rest ∧ Inside (c :: used') ∧
        ∀ more, (EndsUnit rest → EndsUnit more) → member? c (used' ++ more) = some (m, more) := by
    intro hr he
    obtain ⟨rfl, rfl⟩ := Prod.mk.inj (Option.some.inj he)
    exact ⟨used, rfl, hin, fun more h => member?_of_endsUnit (hmore more) (h hr)⟩
  split at h
  · simp at h
  rename_i d ds
  split at h
  · rename_i hd
    subst hd
    split at h
    · simp at h
    rename_i e es
    split at h
    · rename_i he
      simp only [Bool.or_eq_true, decide_eq_true_eq] at he
      exact single ⟨'-', e :: es, rfl, fun _ => ⟨e, es, rfl, he⟩⟩ h
    · rename_i he
      split at h
      · simp at h
      rename_i v r' hv
      obtain ⟨x, hx, hxe⟩ := Option.map_eq_some_iff.1 h
      simp only [Prod.mk.injEq] at hxe
      obtain ⟨rfl, rfl⟩ := hxe
      simp only [Bool.or_eq_true, decide_eq_true_eq, not_or] at he
      obtain ⟨used', rfl, hin', hmore'⟩ := exists_of_unit? he.1 hv
      refine ⟨used ++ '-' :: e :: used', by simp, ?_, fun more _ => ?_⟩
      · exact hin.append (.plain (by decide) (by decide) hin')
      · rw [List.append_assoc, List.cons_append, List.cons_append,
          member?_of_range he.1 he.2 (hmore _) (hmore' more), hx]
        rfl
  · rename_i hd
    exact single ⟨d, ds, rfl, fun h => absurd h hd⟩ h

/-! ## Classes -/

theorem parts?_close (more : List Char) : parts? (']' :: more) = some ([], more) := by
  rw [parts?]
  simp

theorem parts?_of_operator {c : Char} {s rest : List Char} {op : SetOperator} (h₁ : c ≠ ']')
    (h₂ : c ≠ '[') (hop : operatorAt? c s = some (op, rest)) :
    parts? (c :: s) = (parts? rest).map fun (parts, r) => (.operator op :: parts, r) := by
  rw [parts?]
  simp only [h₁, h₂, if_false]
  split
  · rename_i ho
    obtain ⟨rfl, rfl⟩ := Prod.mk.inj (Option.some.inj (hop.symm.trans ho))
    rfl
  · simp_all

theorem parts?_of_member {c : Char} {s rest : List Char} {m : CharSet} (h₁ : c ≠ ']')
    (h₂ : c ≠ '[') (hop : operatorAt? c s = none) (hm : member? c s = some (m, rest)) :
    parts? (c :: s) = (parts? rest).map fun (parts, r) => (.member m :: parts, r) := by
  rw [parts?]
  simp only [h₁, h₂, if_false]
  split
  · simp_all
  · split
    · rename_i hm'
      obtain ⟨rfl, rfl⟩ := Prod.mk.inj (Option.some.inj (hm.symm.trans hm'))
      rfl
    · simp_all

/-- The parts up to the bracket are the same in front of what fits, and those of that follow. -/
theorem exists_of_parts? {s rest : List Char} {ps : List ClassPart}
    (h : parts? s = some (ps, rest)) :
    ∃ used, s = used ++ ']' :: rest ∧ Inside used ∧
      ∀ more, Fits used more →
        parts? (used ++ more) = (parts? more).map fun (qs, r) => (ps ++ qs, r) := by
  fun_induction parts? s generalizing ps rest with
  | case1 => simp at h
  | case2 cs =>
    simp only [Option.some.injEq, Prod.mk.injEq] at h
    obtain ⟨rfl, rfl⟩ := h
    exact ⟨[], rfl, .nil, fun more _ => by simp⟩
  | case3 => simp at h
  | case4 c cs hc hb op r hop ih =>
    obtain ⟨⟨qs, r'⟩, hq, he⟩ := Option.map_eq_some_iff.1 h
    simp only [Prod.mk.injEq] at he
    obtain ⟨rfl, rfl⟩ := he
    obtain ⟨used, rfl, hin, hmore⟩ := ih hq
    obtain ⟨rfl, h₁, h₂, hop'⟩ := eq_of_operatorAt? hop
    have hfront : Inside [c, c] := .plain h₁ h₂ (.plain h₁ h₂ .nil)
    refine ⟨c :: c :: used, rfl, hfront.append hin, fun more hf => ?_⟩
    have hf' := Fits.of_append (s := [c, c]) hf hfront
    rw [List.cons_append, List.cons_append, parts?_of_operator hc hb (hop' _), hmore more hf',
      Option.map_map]
    rfl
  | case5 c cs hc hb hop m r hm ih =>
    obtain ⟨⟨qs, r'⟩, hq, he⟩ := Option.map_eq_some_iff.1 h
    simp only [Prod.mk.injEq] at he
    obtain ⟨rfl, rfl⟩ := he
    obtain ⟨used, rfl, hin, hmore⟩ := ih hq
    obtain ⟨taken, rfl, hin', hmore'⟩ := exists_of_member? hc hm
    refine ⟨c :: taken ++ used, by simp, hin'.append hin, fun more hf => ?_⟩
    have hf' := hf.of_append hin'
    have hop' : operatorAt? c (taken ++ (used ++ more)) = none := by
      rw [← List.append_assoc] at hop ⊢
      exact hf.operatorAt?_eq_none hop
    rw [List.append_assoc, List.cons_append,
      parts?_of_member hc hb hop' (hmore' _ hf'.endsUnit), hmore more hf', Option.map_map]
    rfl
  | case6 => simp at h

theorem inside_of_dashes {dashes : List Char} (hd : ∀ c ∈ dashes, c = '-') : Inside dashes := by
  refine .of_plain fun c hc => ?_
  rw [hd c hc]
  decide

/-- With the dashes in front set apart, what is left of a class goes up to its bracket. -/
theorem opening?_dashes {dashes s more : List Char} (hd : ∀ c ∈ dashes, c = '-')
    (hs : s.head? ≠ some '-') (hne : dashes ++ s ≠ []) (hin : Inside s) :
    opening? (dashes ++ (s ++ ']' :: more)) =
      (parts? (s ++ ']' :: more)).map fun (parts, rest) =>
        (dashes.map (fun c => ClassPart.member (.single c)) ++ parts, rest) := by
  have hp : ∀ c ∈ dashes, decide (c = '-') = true := by simpa using hd
  have hfirst : ∀ c t, s ++ ']' :: more = c :: t → decide (c = '-') = false := by
    intro c t h
    cases s with
    | nil =>
      simp only [List.nil_append, List.cons.injEq] at h
      simp [← h.1]
    | cons d s =>
      simp only [List.cons_append, List.cons.injEq] at h
      simpa [← h.1] using hs
  have htake : (s ++ ']' :: more).takeWhile (fun c => decide (c = '-')) = [] := by
    cases h : s ++ ']' :: more with
    | nil => rfl
    | cons c t => simp [hfirst c t h]
  have hdrop : (s ++ ']' :: more).dropWhile (fun c => decide (c = '-')) = s ++ ']' :: more := by
    cases h : s ++ ']' :: more with
    | nil => rfl
    | cons c t => simp [hfirst c t h]
  simp only [opening?, List.takeWhile_append_of_pos hp, List.dropWhile_append_of_pos hp, htake,
    hdrop, List.append_nil]
  split
  · rename_i hbr
    cases hin with
    | nil => simp at hne
    | escaped _ => simp at hbr
    | plain _ h₂ _ =>
      simp only [List.cons_append, List.cons.injEq] at hbr
      exact absurd hbr.1 h₂
  · rfl

theorem exists_dashes (s : List Char) :
    ∃ dashes t, s = dashes ++ t ∧ (∀ c ∈ dashes, c = '-') ∧ t.head? ≠ some '-' := by
  refine ⟨s.takeWhile (· = '-'), s.dropWhile (· = '-'),
    (List.takeWhile_append_dropWhile ..).symm, fun c hc => ?_, fun hh => ?_⟩
  · simpa using List.all_eq_true.1 List.all_takeWhile c hc
  · have := List.head?_dropWhile_not (fun c : Char => decide (c = '-')) s
    simp [hh] at this

theorem opening?_append {body rest r : List Char} {ps : List ClassPart} (hin : Inside body)
    (hne : body ≠ []) (h : opening? (body ++ ']' :: rest) = some (ps, r)) :
    r = rest ∧ ∀ more, opening? (body ++ ']' :: more) = some (ps, more) := by
  obtain ⟨dashes, s, rfl, hd, hs⟩ := exists_dashes body
  have hins := hin.of_append (inside_of_dashes hd)
  simp only [List.append_assoc] at h ⊢
  rw [opening?_dashes hd hs hne hins] at h
  obtain ⟨⟨qs, r'⟩, hq, he⟩ := Option.map_eq_some_iff.1 h
  simp only [Prod.mk.injEq] at he
  obtain ⟨rfl, rfl⟩ := he
  obtain ⟨used, hu, hin', hmore⟩ := exists_of_parts? hq
  obtain ⟨rfl, rfl⟩ := hins.unique hin' hu
  refine ⟨rfl, fun more => ?_⟩
  rw [opening?_dashes hd hs hne hins, hmore _ (fits_close s more), parts?_close]
  simp

/-- A class with something between its brackets ends at the first of them that is bare. -/
theorem bracket?_append {body rest r : List Char} {b : Bracketed} (hin : Inside body)
    (hne : body ≠ []) (hcaret : body ≠ ['^']) (h : bracket? (body ++ ']' :: rest) = some (b, r)) :
    r = rest ∧ ∀ more, bracket? (body ++ ']' :: more) = some (b, more) := by
  obtain ⟨c, s, rfl⟩ := List.exists_cons_of_ne_nil hne
  simp only [bracket?, List.cons_append, List.head?_cons, Option.some.injEq] at h ⊢
  by_cases hc : c = '^'
  · subst hc
    have hs : s ≠ [] := fun hs => hcaret (by rw [hs])
    cases hin with
    | plain _ _ hin =>
      simp only [decide_true, if_true, List.drop_one, List.tail_cons] at h ⊢
      obtain ⟨⟨ps, r'⟩, hp, he⟩ := Option.map_eq_some_iff.1 h
      simp only [Prod.mk.injEq] at he
      obtain ⟨rfl, rfl⟩ := he
      obtain ⟨rfl, hmore⟩ := opening?_append hin hs hp
      exact ⟨rfl, fun more => by simp [hmore]⟩
  · simp only [hc, decide_false, Bool.false_eq_true, if_false] at h ⊢
    obtain ⟨⟨ps, r'⟩, hp, he⟩ := Option.map_eq_some_iff.1 h
    simp only [Prod.mk.injEq] at he
    obtain ⟨rfl, rfl⟩ := he
    obtain ⟨rfl, hmore⟩ := opening?_append hin hne hp
    refine ⟨rfl, fun more => ?_⟩
    have hm := hmore more
    rw [List.cons_append] at hm
    simp [hm]

/-! ## Between classes -/

/-- Text in which, up to the first class, all that means something in a class stands behind a
backslash. -/
inductive Outside : List Char → Prop
  | nil : Outside []
  | opening {s} : Outside ('[' :: s)
  | escaped {c s} : isMeta c = true → Outside s → Outside ('\\' :: c :: s)
  | plain {c s} : c ∉ ['\\', '[', ']', '-', '&', '~'] → Outside s → Outside (c :: s)

theorem escape?_of_isMeta {c : Char} (h : isMeta c = true) (s : List Char) :
    escape? (c :: s) = some (.char c, s) := by
  simp only [isMeta, Bool.or_eq_true, decide_eq_true_eq] at h
  repeat' rcases h with h | h
  all_goals rfl

/-- No range begins with the unit: what stands behind it is not a dash. -/
theorem member?_of_outside {c : Char} {cs s : List Char} {u : TextUnit}
    (hu : unit? c cs = some (u, s)) (hs : Outside s) :
    member? c cs = none ∨ member? c cs = some (u.toSet, s) := by
  simp only [member?, hu]
  cases hs with
  | nil => exact .inl rfl
  | opening => exact .inr rfl
  | escaped _ _ => exact .inr rfl
  | plain hd _ =>
    simp only [List.mem_cons, not_or] at hd
    exact .inr (by simp [hd])

theorem parts?_of_unit {c : Char} {cs s : List Char} {u : TextUnit} (h₁ : c ≠ ']') (h₂ : c ≠ '[')
    (hop : operatorAt? c cs = none) (hu : unit? c cs = some (u, s)) (hs : Outside s)
    (ih : parts? s = none) : parts? (c :: cs) = none := by
  rw [parts?]
  simp only [h₁, h₂, if_false]
  split
  · simp_all
  · split
    · rename_i hm
      rcases member?_of_outside hu hs with h | h
      · simp [h] at hm
      · rw [h] at hm
        simp only [Option.some.injEq, Prod.mk.injEq] at hm
        obtain ⟨rfl, rfl⟩ := hm
        rw [ih]
        rfl
    · rfl

/-- A class whose closing bracket is missing is none, as classes do not nest. -/
theorem parts?_of_outside {s : List Char} (h : Outside s) : parts? s = none := by
  induction h with
  | nil => simp [parts?]
  | opening => simp [parts?]
  | @escaped c s hc hs ih =>
    refine parts?_of_unit (by decide) (by decide) ?_ (u := .char c) ?_ hs ih
    · simp only [operatorAt?]
      split <;> simp
    · simp [unit?, escape?_of_isMeta hc]
  | @plain c s hc hs ih =>
    simp only [List.mem_cons, List.not_mem_nil, or_false, not_or] at hc
    refine parts?_of_unit hc.2.2.1 hc.2.1 ?_ (u := .char c) ?_ hs ih
    · cases s with
      | nil => rfl
      | cons d s => simp [operatorAt?, hc]
    · simp [unit?, hc.1]

/-- The complement of nothing has no closing bracket: the one behind `^` is its first member. -/
theorem bracket?_emptyComplement {s : List Char} (h : Outside s) :
    bracket? ('^' :: ']' :: s) = none := by
  simp [bracket?, opening?, parts?_of_outside h]

end GrammarLab.Regex
