import Mathlib.Data.List.DropRight
import GrammarLab.Text.Classes

/-!
# Trimming

What blank space at the two ends of a text has to do with trimming it.

    trim (s ++ w) = trim s when w is blank                        (trim_append_blank)
-/

namespace GrammarLab.Text

variable {s w : List Char}

theorem isPrefix_trimEnd (s : List Char) : trimEnd s <+: s := by
  have : s.reverse.dropWhile isWhiteSpace <:+ s.reverse := List.dropWhile_suffix isWhiteSpace
  simpa [trimEnd] using this.reverse

/-- What trimming the end takes away is blank. -/
theorem exists_eq_trimEnd_append (s : List Char) :
    ∃ w, s = trimEnd s ++ w ∧ ∀ c ∈ w, isWhiteSpace c = true := by
  refine ⟨(s.reverse.takeWhile isWhiteSpace).reverse, ?_, fun c hc => ?_⟩
  · rw [trimEnd, ← List.reverse_append, List.takeWhile_append_dropWhile, List.reverse_reverse]
  · exact List.mem_takeWhile_imp (List.mem_reverse.1 hc)

/-- What stands at the end of a trimmed text that is not blank. -/
theorem exists_trimEnd_eq (h : trimStart s ≠ []) :
    ∃ init x, trimEnd s = init ++ [x] ∧ isWhiteSpace x = false := by
  have hne : s.reverse.dropWhile isWhiteSpace ≠ [] := by
    intro hnil
    refine h (List.dropWhile_eq_nil_iff.2 fun x hx => ?_)
    exact List.dropWhile_eq_nil_iff.1 hnil x (List.mem_reverse.2 hx)
  obtain ⟨x, init, hx⟩ := List.exists_cons_of_ne_nil hne
  refine ⟨init.reverse, x, by simp [trimEnd, hx], ?_⟩
  have := List.head?_dropWhile_not isWhiteSpace s.reverse
  simpa [hx] using this

/-- The blank space in front of a text that is not blank is in front of its trimmed end too. -/
theorem isPrefix_takeWhile_trimEnd (h : trimStart s ≠ []) :
    s.takeWhile isWhiteSpace <+: trimEnd s := by
  obtain ⟨init, x, htrim, hx⟩ := exists_trimEnd_eq h
  refine List.prefix_of_prefix_length_le (List.takeWhile_prefix _) (isPrefix_trimEnd s) ?_
  by_contra hlong
  -- else the last character that is left would be blank
  have hpre : trimEnd s <+: s.takeWhile isWhiteSpace :=
    List.prefix_of_prefix_length_le (isPrefix_trimEnd s) (List.takeWhile_prefix _) (by omega)
  have hmem : x ∈ s.takeWhile isWhiteSpace := hpre.subset (by simp [htrim])
  have := List.mem_takeWhile_imp hmem
  simp [hx] at this

theorem trimStart_blank_append (hw : ∀ c ∈ w, isWhiteSpace c = true) (s : List Char) :
    trimStart (w ++ s) = trimStart s :=
  List.dropWhile_append_of_pos hw

theorem trimEnd_append_blank (hw : ∀ c ∈ w, isWhiteSpace c = true) (s : List Char) :
    trimEnd (s ++ w) = trimEnd s := by
  rw [trimEnd, List.reverse_append, List.dropWhile_append_of_pos, trimEnd]
  exact fun c hc => hw c (List.mem_reverse.1 hc)

theorem trim_blank_append (hw : ∀ c ∈ w, isWhiteSpace c = true) (s : List Char) :
    trim (w ++ s) = trim s := by
  rw [trim, trimStart_blank_append hw, trim]

theorem trim_append_blank (hw : ∀ c ∈ w, isWhiteSpace c = true) (s : List Char) :
    trim (s ++ w) = trim s := by
  by_cases hs : trimStart s = []
  · have hblank : ∀ c ∈ s ++ w, isWhiteSpace c = true :=
      List.forall_mem_append.2 ⟨List.dropWhile_eq_nil_iff.1 hs, hw⟩
    rw [trim, trim, hs, trimStart, List.dropWhile_eq_nil_iff.2 hblank]
  · have happend : trimStart (s ++ w) = trimStart s ++ w := by
      rw [trimStart, List.dropWhile_append, if_neg (by simpa [trimStart] using hs), trimStart]
    rw [trim, happend, trimEnd_append_blank hw, trim]

theorem trimEnd_eq_nil_iff : trimEnd s = [] ↔ ∀ c ∈ s, isWhiteSpace c = true := by
  rw [trimEnd, List.reverse_eq_nil_iff, List.dropWhile_eq_nil_iff]
  simp only [List.mem_reverse]

theorem trimEnd_cons_eq (c : Char) (s : List Char) :
    trimEnd (c :: s) = if isWhiteSpace c = true ∧ trimEnd s = [] then [] else c :: trimEnd s := by
  have hnil : (s.reverse.dropWhile isWhiteSpace).isEmpty ↔ trimEnd s = [] := by
    rw [trimEnd, List.reverse_eq_nil_iff, List.isEmpty_iff]
  rw [trimEnd, List.reverse_cons, List.dropWhile_append]
  by_cases hs : trimEnd s = []
  · cases hc : isWhiteSpace c <;> simp [hnil.2 hs, hs, hc]
  · rw [if_neg (mt hnil.1 hs), if_neg fun h => hs h.2]
    simp [trimEnd]

theorem trim_trimEnd (s : List Char) : trim (trimEnd s) = trim s := by
  obtain ⟨w, hs, hw⟩ := exists_eq_trimEnd_append s
  calc trim (trimEnd s) = trim (trimEnd s ++ w) := (trim_append_blank hw _).symm
    _ = trim s := by rw [← hs]

theorem trim_trim (s : List Char) : trim (trim s) = trim s := by
  calc trim (trim s) = trimEnd (trimStart (trimStart s)) := trim_trimEnd (trimStart s)
    _ = trim s := by
      rw [trimStart, trimStart, List.dropWhile_idempotent isWhiteSpace, trim, trimStart]

/-- A text that neither begins nor ends with blank space is trimmed. -/
theorem trim_eq_self (hhead : ∀ c ∈ s.head?, isWhiteSpace c = false)
    (hlast : ∀ c ∈ s.getLast?, isWhiteSpace c = false) : trim s = s := by
  have hstart : trimStart s = s := by
    cases s with
    | nil => rfl
    | cons c cs => simp [trimStart, hhead c rfl]
  have hend : s.reverse.dropWhile isWhiteSpace = s.reverse := by
    cases h : s.reverse with
    | nil => rfl
    | cons c cs =>
      have hc : s.getLast? = some c := by rw [← List.head?_reverse, h]; rfl
      simp [hlast c hc]
  rw [trim, hstart, trimEnd, hend, List.reverse_reverse]

/-! ## Lines -/

/-- The first word is what the text begins with. -/
theorem exists_splitOn_eq (p : Char → Bool) (s : List Char) :
    ∃ word words, splitOn p s = word :: words ∧ word <+: s := by
  induction s with
  | nil => exact ⟨[], [], rfl, List.prefix_rfl⟩
  | cons c s ih =>
    by_cases hc : p c
    · exact ⟨[], splitOn p s, by simp [splitOn, hc], List.nil_prefix⟩
    · obtain ⟨word, words, hs, hprefix⟩ := ih
      exact ⟨c :: word, words, by simp [splitOn, hc, hs], List.cons_prefix_cons.2 ⟨rfl, hprefix⟩⟩

theorem splitOn_eq_singleton {p : Char → Bool} (h : ∀ c ∈ s, p c = false) : splitOn p s = [s] := by
  induction s with
  | nil => rfl
  | cons c cs ih =>
    rw [List.forall_mem_cons] at h
    simp [splitOn, h.1, ih h.2]

theorem splitOn_append_cons {p : Char → Bool} {c : Char} (h : ∀ d ∈ s, p d = false)
    (hc : p c = true) (t : List Char) : splitOn p (s ++ c :: t) = s :: splitOn p t := by
  induction s with
  | nil => simp [splitOn, hc]
  | cons d ds ih =>
    rw [List.forall_mem_cons] at h
    simp [splitOn, h.1, ih h.2]

theorem ne_lineFeed_of_not_isWhiteSpace {x : Char} (h : isWhiteSpace x = false) : x ≠ '\n' := by
  rintro rfl
  simp [show isWhiteSpace '\n' = true by decide] at h

end GrammarLab.Text
