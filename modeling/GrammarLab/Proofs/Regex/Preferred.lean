import GrammarLab.Proofs.Regex.Language
import GrammarLab.Regex.Preferred

/-!
# Preferred matches and the language

    preferred? p s = some n → n ≤ s.length                     (le_length_of_preferred?)
    preferred? p s = some s.length →
      ∃ n, s.length ≤ n ∧ preferred? p (s ++ t) = some n       (exists_preferred?_append)
-/

namespace GrammarLab.Regex

theorem le_length_of_preferredFrom {p : Array Instruction} {xs : List Instruction} {s : List Char}
    {n : Nat} (h : preferredFrom p xs s = some n) : n ≤ s.length := by
  induction s generalizing xs n with
  | nil =>
    simp only [preferredFrom] at h
    split at h <;> simp_all
  | cons c s ih =>
    simp only [preferredFrom] at h
    split at h
    · rename_i k hnext
      split at hnext
      · simp at hnext
      have := ih hnext
      simp only [Option.some.injEq] at h
      simp only [List.length_cons]; omega
    · split at h
      · simp only [Option.some.injEq] at h
        omega
      · simp at h

theorem le_length_of_preferred? {p : Array Instruction} {s : List Char} {n : Nat}
    (h : preferred? p s = some n) : n ≤ s.length := le_length_of_preferredFrom h

/-- A match that takes all of a text is not given up when more text follows. -/
theorem exists_preferredFrom_append {p : Array Instruction} {xs : List Instruction}
    {s : List Char} (t : List Char) (h : preferredFrom p xs s = some s.length) :
    ∃ n, s.length ≤ n ∧ preferredFrom p xs (s ++ t) = some n := by
  induction s generalizing xs with
  | nil =>
    simp only [preferredFrom] at h
    split at h
    · rename_i haccept
      cases t with
      | nil => exact ⟨0, Nat.le_refl _, by simp [preferredFrom, haccept]⟩
      | cons c t =>
        simp only [List.nil_append, preferredFrom, haccept, if_true]
        split
        · exact ⟨_, Nat.zero_le _, rfl⟩
        · exact ⟨_, Nat.zero_le _, rfl⟩
    · simp at h
  | cons c s ih =>
    simp only [preferredFrom] at h
    split at h
    · rename_i n hnext
      split at hnext
      · simp at hnext
      · rename_i hne
        obtain rfl : n = s.length := by simpa using h
        obtain ⟨m, hm, hmore⟩ := ih hnext
        refine ⟨m + 1, Nat.succ_le_succ hm, ?_⟩
        simp [preferredFrom, hne, hmore]
    · split at h <;> simp at h

theorem exists_preferred?_append {p : Array Instruction} {s : List Char} (t : List Char)
    (h : preferred? p s = some s.length) :
    ∃ n, s.length ≤ n ∧ preferred? p (s ++ t) = some n := exists_preferredFrom_append t h

end GrammarLab.Regex
