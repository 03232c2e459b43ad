import GrammarLab.Text.Place
import GrammarLab.Text.Utf8

/-!
# Offsets into a text

What a reader of the text finds at a byte offset: the rest, a slice, a character, a line and a
column. All of them are read off the text alone, so that they can be compared with what a run
keeps while it moves on.

    dropBytes n s = some rest ↔ ∃ before, s = before ++ rest ∧ byteLength before = n
    placeAt (before ++ rest) (byteLength before) = Place.start.along before
-/

namespace GrammarLab.Text

/-- The text between two offsets, if a character ends at each. -/
def slice? (s : List Char) (start stop : Nat) : Option (List Char) := do
  let rest ← dropBytes start s
  let behind ← dropBytes (stop - start) rest
  return rest.take (rest.length - behind.length)

/-- The character that starts at the offset. -/
def charAt? (s : List Char) (offset : Nat) : Option Char := (dropBytes offset s).bind List.head?

/-- The line is one more than the line feeds before the offset, the column the number of characters
behind the last of them. -/
def placeAt (s : List Char) (offset : Nat) : Place :=
  let before := takeBytes offset s
  ⟨1 + before.count '\n', (before.reverse.takeWhile (· ≠ '\n')).length⟩

/-! ## Lemmas -/

theorem dropBytes_eq_some_iff {n : Nat} {s rest : List Char} :
    dropBytes n s = some rest ↔ ∃ before, s = before ++ rest ∧ byteLength before = n := by
  constructor
  · intro h
    fun_induction dropBytes n s with
    | case1 s =>
      simp only [Option.some.injEq] at h
      exact ⟨[], by simp [h], rfl⟩
    | case2 => simp at h
    | case3 n c cs hc ih =>
      obtain ⟨before, rfl, hn⟩ := ih h
      exact ⟨c :: before, rfl, by simp only [byteLength]; omega⟩
    | case4 => simp at h
  · rintro ⟨before, rfl, rfl⟩
    exact dropBytes_byteLength before rest

/-- What lies in front of an offset is fixed by it. -/
theorem append_inj_of_byteLength {a b s t : List Char} (h : a ++ s = b ++ t)
    (hl : byteLength a = byteLength b) : a = b ∧ s = t := by
  have hs : dropBytes (byteLength a) (a ++ s) = some s := dropBytes_byteLength a s
  have ht : dropBytes (byteLength a) (a ++ s) = some t := by
    rw [h, hl]; exact dropBytes_byteLength b t
  have hst : s = t := Option.some.inj (hs.symm.trans ht)
  exact ⟨List.append_cancel_right (hst ▸ h), hst⟩

theorem takeBytes_byteLength (s t : List Char) : takeBytes (byteLength s) (s ++ t) = s := by
  induction s with
  | nil =>
    cases t with
    | nil => rfl
    | cons c cs =>
      have hc : ¬c.utf8Size ≤ 0 := Nat.not_le.2 c.utf8Size_pos
      simp [takeBytes, byteLength, hc]
  | cons c cs ih => simp [takeBytes, byteLength, ih]

/-- A character that does not fit in is left away. -/
theorem takeBytes_within {c : Char} {k : Nat} (h : k < c.utf8Size) (s t : List Char) :
    takeBytes (byteLength s + k) (s ++ c :: t) = s := by
  induction s with
  | nil => simp [takeBytes, byteLength, Nat.not_le.2 h]
  | cons d s ih => simp [takeBytes, byteLength, Nat.add_assoc, ih]

theorem byteLength_eq_zero {s : List Char} (h : byteLength s = 0) : s = [] := by
  cases s with
  | nil => rfl
  | cons c cs => have := byteLength_pos (List.cons_ne_nil c cs); omega

theorem slice?_append (before t behind : List Char) :
    slice? (before ++ t ++ behind) (byteLength before) (byteLength before + byteLength t) =
      some t := by
  have h₁ := dropBytes_byteLength before (t ++ behind)
  have h₂ := dropBytes_byteLength t behind
  simp [slice?, List.append_assoc, h₁, h₂]

theorem slice?_eq_some {s t : List Char} {start stop : Nat} (h : slice? s start stop = some t) :
    ∃ before behind, s = before ++ t ++ behind ∧ byteLength before = start ∧
      byteLength t = stop - start := by
  simp only [slice?, bind, Option.bind_eq_some_iff, pure, Option.some.injEq] at h
  obtain ⟨rest, hrest, behind, hbehind, rfl⟩ := h
  obtain ⟨before, rfl, hstart⟩ := dropBytes_eq_some_iff.1 hrest
  obtain ⟨t, rfl, hlen⟩ := dropBytes_eq_some_iff.1 hbehind
  have ht : (t ++ behind).take ((t ++ behind).length - behind.length) = t := by simp
  rw [ht]
  exact ⟨before, behind, (List.append_assoc ..).symm, hstart, hlen⟩

/-- The slices that start at an offset are the beginnings of what follows it. -/
theorem slice?_append_iff {before rest t : List Char} {n : Nat} :
    slice? (before ++ rest) (byteLength before) (byteLength before + n) = some t ↔
      ∃ k ≤ rest.length, t = rest.take k ∧ byteLength t = n := by
  constructor
  · intro h
    obtain ⟨before', behind, hs, hb, hn⟩ := slice?_eq_some h
    rw [List.append_assoc] at hs
    obtain ⟨rfl, rfl⟩ := append_inj_of_byteLength hs hb.symm
    refine ⟨t.length, by simp, by simp, ?_⟩
    omega
  · rintro ⟨k, -, rfl, rfl⟩
    have h := slice?_append before (rest.take k) (rest.drop k)
    rwa [List.append_assoc, List.take_append_drop] at h

/-- Where no character ends, no slice starts. -/
theorem slice?_eq_none {s : List Char} {start : Nat} (h : dropBytes start s = none) (stop : Nat) :
    slice? s start stop = none := by
  simp [slice?, h]

theorem charAt?_append (before : List Char) (c : Char) (rest : List Char) :
    charAt? (before ++ c :: rest) (byteLength before) = some c := by
  simp [charAt?, dropBytes_byteLength]

theorem charAt?_eq_some {s : List Char} {n : Nat} {c : Char} (h : charAt? s n = some c) :
    ∃ before rest, s = before ++ c :: rest ∧ byteLength before = n := by
  obtain ⟨rest, hd, hc⟩ := Option.bind_eq_some_iff.1 h
  obtain ⟨before, rfl, hn⟩ := dropBytes_eq_some_iff.1 hd
  obtain ⟨cs, rfl⟩ := List.head?_eq_some_iff.1 hc
  exact ⟨before, cs, rfl, hn⟩

namespace Place

theorem along_append (p : Place) (s t : List Char) : p.along (s ++ t) = (p.along s).along t := by
  simp [along]

@[simp] theorem along_singleton (p : Place) (c : Char) : p.along [c] = p.next c := rfl

/-- The line and the column that moving along a text keeps are those counted in it. The induction
is on the text read backwards, where the last line feed comes first. -/
theorem start_along_reverse (r : List Char) :
    start.along r.reverse = ⟨1 + r.count '\n', (r.takeWhile (· ≠ '\n')).length⟩ := by
  induction r with
  | nil => rfl
  | cons c r ih =>
    rw [List.reverse_cons, along_append, ih]
    by_cases hc : c = '\n'
    · simp [along, next, hc]; omega
    · simp [along, next, hc]

end Place

theorem placeAt_append (before rest : List Char) :
    placeAt (before ++ rest) (byteLength before) = Place.start.along before := by
  have h := Place.start_along_reverse before.reverse
  rw [List.reverse_reverse] at h
  rw [h, placeAt, takeBytes_byteLength, List.count_reverse]

end GrammarLab.Text
