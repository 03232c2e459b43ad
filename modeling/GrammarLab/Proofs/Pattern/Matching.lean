import GrammarLab.Pattern.Basic
import GrammarLab.Proofs.Regex.Longest
import GrammarLab.Proofs.Regex.Normal
import GrammarLab.Proofs.Regex.Preferred
import GrammarLab.Proofs.Regex.Program
import GrammarLab.Proofs.Text.Offsets

/-!
# Matches of patterns

A match takes at least one character and stays within the text, so it is the same whether it is
counted in characters behind a place or in bytes at an offset.

    p.matchAt (before ++ rest) (byteLength before) =
      (p.prefixLength? rest).map fun n => byteLength (rest.take n)
-/

namespace GrammarLab.Text

theorem byteLength_take_le (s : List Char) {n m : Nat} (h : n ≤ m) :
    byteLength (s.take n) ≤ byteLength (s.take m) := by
  have hs : s.take m = s.take n ++ (s.drop n).take (m - n) := by
    rw [← List.take_add, Nat.add_sub_cancel' h]
  rw [hs, byteLength_append]
  exact Nat.le_add_right _ _

theorem byteLength_take_lt {s : List Char} {n m : Nat} (h : n < m) (hn : n < s.length) :
    byteLength (s.take n) < byteLength (s.take m) := by
  have h₁ : s.take (n + 1) = s.take n ++ [s[n]] := by simp
  have h₂ := byteLength_take_le s (Nat.succ_le_of_lt h)
  have h₃ := s[n].utf8Size_pos
  rw [h₁, byteLength_append] at h₂
  simp only [byteLength] at h₂
  omega

/-- A beginning takes bytes when it takes characters. -/
theorem byteLength_take_pos_iff {s : List Char} {n : Nat} (h : n ≤ s.length) :
    0 < byteLength (s.take n) ↔ 0 < n := by
  constructor
  · intro hpos
    cases n with
    | zero => simp [byteLength] at hpos
    | succ n => exact Nat.succ_pos n
  · intro hpos
    apply byteLength_pos
    intro hnil
    have hlen := congrArg List.length hnil
    rw [List.length_take_of_le h, List.length_nil] at hlen
    omega

end GrammarLab.Text

namespace GrammarLab.Pattern

open Text

/-- A pattern comes from its text; a lazy one runs the program of the normal form. -/
theorem ofSpelling_eq_ok {t : Spelling} {p : Pattern} (h : ofSpelling t = .ok p) :
    p.isLazy = t.isLazy ∧ Regex.parse? t.text = some ⟨p.regex, p.depth⟩ ∧
      (p.isLazy = true → p.program = p.regex.normal.program) := by
  unfold ofSpelling at h
  split at h
  · simp at h
  · rename_i q hq
    obtain rfl := Except.ok.inj h
    exact ⟨rfl, hq, fun hl => if_pos hl⟩

theorem prefixLength?_pos {p : Pattern} {s : List Char} {n : Nat}
    (h : p.prefixLength? s = some n) : 0 < n := by
  simp only [prefixLength?] at h
  split at h <;> simp_all
  omega

theorem le_length_of_prefixLength? {p : Pattern} {s : List Char} {n : Nat}
    (h : p.prefixLength? s = some n) : n ≤ s.length := by
  simp only [prefixLength?] at h
  split at h
  · rename_i m hm
    simp only [Option.some.injEq] at h
    subst h
    split at hm
    · exact Regex.le_length_of_preferred? hm
    · exact (Regex.longest?_eq_some_iff.1 hm).1
  · simp at h

/-- Nothing is matched at the end of a text. -/
@[simp] theorem prefixLength?_nil (p : Pattern) : p.prefixLength? [] = none := by
  cases h : p.prefixLength? [] with
  | none => rfl
  | some n =>
    have h₁ := prefixLength?_pos h
    have h₂ := le_length_of_prefixLength? h
    simp only [List.length_nil] at h₂
    omega

theorem matchAt_append (p : Pattern) (before rest : List Char) :
    p.matchAt (before ++ rest) (byteLength before) =
      (p.prefixLength? rest).map fun n => byteLength (rest.take n) := by
  simp only [matchAt, dropBytes_byteLength, bind, Option.bind_some]
  cases p.prefixLength? rest <;> rfl

theorem matchAt_pos {p : Pattern} {s : List Char} {offset n : Nat}
    (h : p.matchAt s offset = some n) : 0 < n := by
  simp only [matchAt, bind, Option.bind_eq_some_iff, pure, Option.some.injEq] at h
  obtain ⟨rest, -, k, hk, rfl⟩ := h
  exact (byteLength_take_pos_iff (le_length_of_prefixLength? hk)).2 (prefixLength?_pos hk)

/-- Matches at one offset have the same order in bytes as in characters. -/
theorem byteLength_lt_iff {p q : Pattern} {s : List Char} {n m : Nat}
    (hn : p.prefixLength? s = some n) (hm : q.prefixLength? s = some m) :
    byteLength (s.take n) < byteLength (s.take m) ↔ n < m := by
  have hn' := le_length_of_prefixLength? hn
  have hm' := le_length_of_prefixLength? hm
  constructor
  · intro h
    apply Classical.byContradiction
    intro hle
    have := byteLength_take_le s (Nat.le_of_not_lt hle)
    omega
  · intro h
    exact byteLength_take_lt h (by omega)

/-! ## Longest matches -/

/-- `n` is the number of bytes of the longest text at the offset that satisfies `P`, and it is not
empty. -/
def IsLongestAt (P : List Char → Prop) (s : List Char) (offset n : Nat) : Prop :=
  0 < n ∧ (∃ t, slice? s offset (offset + n) = some t ∧ P t) ∧
    ∀ m t, slice? s offset (offset + m) = some t → P t → m ≤ n

section

variable {p : Pattern} {s : List Char}

theorem prefixLength?_eq_some_iff {n : Nat} (h : p.isLazy = false) :
    p.prefixLength? s = some n ↔ 0 < n ∧ Regex.IsLongest p.regex.Matches s n := by
  rw [← Regex.longest?_eq_some_iff, prefixLength?, h]
  simp only [Bool.false_eq_true, if_false]
  cases hl : p.regex.longest? s with
  | none => simp
  | some m =>
    cases m with
    | zero => simp; omega
    | succ m => simp; omega

theorem prefixLength?_eq_none_iff (h : p.isLazy = false) :
    p.prefixLength? s = none ↔ ∀ k ≤ s.length, 0 < k → ¬p.regex.Matches (s.take k) := by
  constructor
  · intro hn k hk hpos hm
    rw [prefixLength?, h] at hn
    simp only [Bool.false_eq_true, if_false] at hn
    cases hl : p.regex.longest? s with
    | none => exact Regex.longest?_eq_none_iff.1 hl k hm
    | some m =>
      have hle := (Regex.longest?_eq_some_iff.1 hl).2.2 k hk hm
      cases m with
      | zero => omega
      | succ m => simp [hl] at hn
  · intro hno
    cases hp : p.prefixLength? s with
    | none => rfl
    | some n =>
      obtain ⟨hpos, hle, hm, -⟩ := (prefixLength?_eq_some_iff h).1 hp
      exact absurd hm (hno n hle hpos)

/-- Without a lazy loop the match is the longest. -/
theorem matchAt_eq_some_iff {offset n : Nat} (h : p.isLazy = false) :
    p.matchAt s offset = some n ↔ IsLongestAt p.regex.Matches s offset n := by
  cases hd : dropBytes offset s with
  | none => simp [matchAt, hd, IsLongestAt, slice?_eq_none hd]
  | some rest =>
    obtain ⟨before, rfl, rfl⟩ := dropBytes_eq_some_iff.1 hd
    rw [matchAt_append, Option.map_eq_some_iff]
    constructor
    · rintro ⟨k, hk, rfl⟩
      obtain ⟨hpos, hle, hm, hmax⟩ := (prefixLength?_eq_some_iff h).1 hk
      refine ⟨(byteLength_take_pos_iff hle).2 hpos,
        ⟨rest.take k, slice?_append_iff.2 ⟨k, hle, rfl, rfl⟩, hm⟩, ?_⟩
      intro m t ht hmt
      obtain ⟨j, hj, rfl, rfl⟩ := slice?_append_iff.1 ht
      exact byteLength_take_le rest (hmax j hj hmt)
    · rintro ⟨hpos, ⟨t, ht, hm⟩, hmax⟩
      obtain ⟨k, hk, rfl, rfl⟩ := slice?_append_iff.1 ht
      have hk' := (byteLength_take_pos_iff hk).1 hpos
      refine ⟨k, (prefixLength?_eq_some_iff h).2 ⟨hk', hk, hm, ?_⟩, rfl⟩
      intro j hj hmj
      have hle := hmax _ _ (slice?_append_iff.2 ⟨j, hj, rfl, rfl⟩) hmj
      apply Nat.le_of_not_lt
      intro hlt
      have := byteLength_take_lt (s := rest) hlt (by omega)
      omega

theorem matchAt_eq_none_iff {offset : Nat} (h : p.isLazy = false) :
    p.matchAt s offset = none ↔
      ∀ m t, 0 < m → slice? s offset (offset + m) = some t → ¬p.regex.Matches t := by
  cases hd : dropBytes offset s with
  | none => simp [matchAt, hd, slice?_eq_none hd]
  | some rest =>
    obtain ⟨before, rfl, rfl⟩ := dropBytes_eq_some_iff.1 hd
    rw [matchAt_append, Option.map_eq_none_iff, prefixLength?_eq_none_iff h]
    constructor
    · intro hno m t hpos ht
      obtain ⟨k, hk, rfl, rfl⟩ := slice?_append_iff.1 ht
      exact hno k hk ((byteLength_take_pos_iff hk).1 hpos)
    · intro hno k hk hpos
      exact hno _ _ ((byteLength_take_pos_iff hk).2 hpos) (slice?_append_iff.2 ⟨k, hk, rfl, rfl⟩)

/-- The whole text is matched when the expression matches it, unless the expression of a lazy
pattern is nested too deep for the question. -/
theorem matchesWhole_iff : p.matchesWhole s = true ↔
    s ≠ [] ∧ p.regex.Matches s ∧ (p.isLazy = false ∨ p.depth + 2 ≤ Regex.maxDepth) := by
  simp only [matchesWhole, Bool.and_eq_true, Bool.or_eq_true, Bool.not_eq_true',
    List.isEmpty_eq_false_iff, decide_eq_true_eq, Regex.accepts_iff]
  rw [and_assoc, and_comm (a := _ ∨ _)]

theorem prefixLength?_eq_some_iff_of_isLazy {n : Nat} (h : p.isLazy = true) :
    p.prefixLength? s = some n ↔ 0 < n ∧ Regex.preferred? p.program s = some n := by
  rw [prefixLength?, h]
  simp only [if_true]
  cases hl : Regex.preferred? p.program s with
  | none => simp
  | some m =>
    cases m with
    | zero => simp; omega
    | succ m => simp; omega

/-- Where a pattern takes all of a text, it takes no less when more text follows. -/
theorem exists_prefixLength?_append (t : List Char) (h : p.prefixLength? s = some s.length) :
    ∃ n, s.length ≤ n ∧ p.prefixLength? (s ++ t) = some n := by
  cases hl : p.isLazy with
  | true =>
    obtain ⟨hpos, hs⟩ := (prefixLength?_eq_some_iff_of_isLazy hl).1 h
    obtain ⟨n, hn, hmore⟩ := Regex.exists_preferred?_append t hs
    exact ⟨n, hn, (prefixLength?_eq_some_iff_of_isLazy hl).2 ⟨by omega, hmore⟩⟩
  | false =>
    obtain ⟨hpos, -, hm, -⟩ := (prefixLength?_eq_some_iff hl).1 h
    rw [List.take_length] at hm
    have htake : (s ++ t).take s.length = s := List.take_left
    cases hmore : p.prefixLength? (s ++ t) with
    | none =>
      refine absurd ?_ ((prefixLength?_eq_none_iff hl).1 hmore s.length (by simp) hpos)
      rwa [htake]
    | some n =>
      obtain ⟨-, -, -, hmax⟩ := (prefixLength?_eq_some_iff hl).1 hmore
      exact ⟨n, hmax s.length (by simp) (by rwa [htake]), rfl⟩

/-- The pattern takes all of the text. -/
def Takes (p : Pattern) (s : List Char) : Prop := p.matchAt s 0 = some (byteLength s)

theorem matchAt_zero (p : Pattern) (s : List Char) :
    p.matchAt s 0 = (p.prefixLength? s).map fun n => byteLength (s.take n) :=
  p.matchAt_append [] s

theorem takes_iff : p.Takes s ↔ p.prefixLength? s = some s.length := by
  rw [Takes, matchAt_zero, Option.map_eq_some_iff]
  constructor
  · rintro ⟨n, hn, hlen⟩
    have hle := le_length_of_prefixLength? hn
    obtain rfl | hlt := Nat.eq_or_lt_of_le hle
    · exact hn
    · have := byteLength_take_lt (s := s) hlt hlt
      rw [List.take_length] at this
      omega
  · intro h
    exact ⟨s.length, h, by rw [List.take_length]⟩

theorem Takes.ne_nil (h : p.Takes s) : s ≠ [] := by
  rintro rfl
  simp [Takes, matchAt_zero] at h

/-- What a greedy pattern takes whole is what its expression matches. -/
theorem takes_iff_of_greedy (h : p.isLazy = false) : p.Takes s ↔ p.matchesWhole s = true := by
  rw [takes_iff, prefixLength?_eq_some_iff h, matchesWhole_iff, Regex.IsLongest, List.take_length]
  constructor
  · rintro ⟨hpos, -, hm, -⟩
    exact ⟨List.ne_nil_of_length_pos hpos, hm, .inl h⟩
  · rintro ⟨hs, hm, -⟩
    exact ⟨List.length_pos_iff.2 hs, Nat.le_refl _, hm, fun k hk _ => hk⟩

/-- What a compiled pattern takes whole, its expression matches. -/
theorem Takes.matches {t : Spelling} (hp : ofSpelling t = .ok p) (h : p.Takes s) :
    p.regex.Matches s := by
  cases hl : p.isLazy with
  | false => exact (matchesWhole_iff.1 ((takes_iff_of_greedy hl).1 h)).2.1
  | true =>
    obtain ⟨-, hs⟩ := (prefixLength?_eq_some_iff_of_isLazy hl).1 (takes_iff.1 h)
    rw [(ofSpelling_eq_ok hp).2.2 hl] at hs
    have hm := Regex.matches_of_preferred? hs
    rw [List.take_length] at hm
    exact Regex.matches_normal.1 hm

theorem le_byteLength_of_matchAt {n : Nat} (h : p.matchAt s 0 = some n) : n ≤ byteLength s := by
  rw [matchAt_zero, Option.map_eq_some_iff] at h
  obtain ⟨k, hk, rfl⟩ := h
  have := byteLength_take_le s (le_length_of_prefixLength? hk)
  rwa [List.take_length] at this

/-- A pattern that takes all of a text takes at least as much wherever the text stands. -/
theorem Takes.exists_matchAt (h : p.Takes s) (before behind : List Char) :
    ∃ n, byteLength s ≤ n ∧
      p.matchAt (before ++ (s ++ behind)) (byteLength before) = some n := by
  obtain ⟨k, hk, hmore⟩ := exists_prefixLength?_append behind (takes_iff.1 h)
  refine ⟨byteLength ((s ++ behind).take k), ?_, by rw [matchAt_append, hmore]; rfl⟩
  have := byteLength_take_le (s ++ behind) hk
  rwa [List.take_left] at this

end

end GrammarLab.Pattern
