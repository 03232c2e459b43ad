import GrammarLab.Matcher.Verdict

/-!
# Attempts

An alternative that does not match makes an attempt. If none matches, each makes one, and the
verdict sums up those that got furthest: whether one of them took a rule, and what any of them
expects.

    v = decideFrom ls tokens index none bs, v.matched = false →
      v = .ofAttempt (.sum attempts) for the attempts of bs      (exists_attempts_of_unmatched)
    (Attempt.sum attempts).Sums attempts                         (Attempt.sums_sum)
-/

namespace GrammarLab.Matcher

open Body

theorem mem_mergeNames {names more : List String} {n : String} :
    n ∈ mergeNames names more ↔ n ∈ names ∨ n ∈ more := by
  induction more generalizing names with
  | nil => simp [mergeNames]
  | cons m more ih =>
    have hinsert : n ∈ insertOnce names m ↔ n ∈ names ∨ n = m := by
      unfold insertOnce
      split
      · rename_i hmem
        exact ⟨.inl, fun h => h.elim id fun heq => heq ▸ hmem⟩
      · simp
    have hnext : n ∈ mergeNames names (m :: more) ↔ n ∈ mergeNames (insertOnce names m) more := .rfl
    rw [hnext, ih, hinsert, List.mem_cons, or_assoc]

/-! ## The sum of attempts -/

/-- What is kept of the attempts: how far the furthest got, whether one of those that got as far
took a rule, and what any of those expects. -/
structure Attempt.Sums (best : Attempt) (attempts : List Attempt) : Prop where
  le : ∀ a ∈ attempts, a.consumed ≤ best.consumed
  attained : best.consumed = 0 ∨ ∃ a ∈ attempts, a.consumed = best.consumed
  assumed_iff : best.assumed = true ↔
    ∃ a ∈ attempts, a.consumed = best.consumed ∧ a.assumed = true
  mem_expected_iff : ∀ n, n ∈ best.expected ↔
    ∃ a ∈ attempts, a.consumed = best.consumed ∧ n ∈ a.expected

namespace Attempt

/-- The sum of the attempts in turn. -/
def sum : List Attempt → Attempt
  | [] => ⟨0, [], false, false⟩
  | a :: attempts => attempts.foldl Attempt.furthest a

variable {best best' : Attempt} {attempts attempts' : List Attempt}

theorem sums_singleton (a : Attempt) : a.Sums [a] where
  le := by simp
  attained := by simp
  assumed_iff := by simp
  mem_expected_iff := by simp

theorem Sums.furthest (h : best.Sums attempts) (a : Attempt) :
    (best.furthest a).Sums (attempts ++ [a]) := by
  unfold Attempt.furthest
  split
  · rename_i hlt
    have hless : ∀ a' ∈ attempts, a'.consumed < a.consumed := fun a' ha' =>
      Nat.lt_of_le_of_lt (h.le a' ha') hlt
    have hother : ∀ p : Attempt → Prop, ¬∃ a' ∈ attempts, a'.consumed = a.consumed ∧ p a' :=
      fun p ⟨a', ha', heq, _⟩ => absurd heq (Nat.ne_of_lt (hless a' ha'))
    refine ⟨?_, .inr ⟨a, by simp⟩, ?_, fun n => ?_⟩
    · rw [List.forall_mem_append, List.forall_mem_singleton]
      exact ⟨fun a' ha' => Nat.le_of_lt (hless a' ha'), Nat.le_refl _⟩
    · simp [hother]
    · simp [hother]
  split
  · rename_i heq
    refine ⟨?_, .inr ⟨a, by simp [heq]⟩, ?_, fun n => ?_⟩
    · rw [List.forall_mem_append, List.forall_mem_singleton]
      exact ⟨h.le, Nat.le_of_eq heq.symm⟩
    · simp [h.assumed_iff, heq]
    · simp [mem_mergeNames, h.mem_expected_iff, heq]
  · rename_i hnlt hne
    refine ⟨?_, h.attained.imp_right fun ⟨a', ha', heq⟩ => ⟨a', by simp [ha'], heq⟩, ?_,
      fun n => ?_⟩
    · rw [List.forall_mem_append, List.forall_mem_singleton]
      exact ⟨h.le, by omega⟩
    · simp [h.assumed_iff, Ne.symm hne]
    · simp [h.mem_expected_iff, Ne.symm hne]

theorem Sums.foldl (h : best.Sums attempts) (more : List Attempt) :
    (more.foldl Attempt.furthest best).Sums (attempts ++ more) := by
  induction more generalizing best attempts with
  | nil => simpa using h
  | cons a more ih =>
    rw [List.append_cons]
    exact ih (h.furthest a)

theorem sums_sum (attempts : List Attempt) : (sum attempts).Sums attempts := by
  cases attempts with
  | nil => exact ⟨by simp, .inl rfl, by simp [sum], by simp [sum]⟩
  | cons a attempts => exact a.sums_singleton.foldl attempts

/-- The same attempts in another order have the same sum. -/
theorem Sums.agrees_of_perm (h : best.Sums attempts) (h' : best'.Sums attempts')
    (hperm : attempts'.Perm attempts) : best'.consumed = best.consumed ∧
      best'.assumed = best.assumed ∧ ∀ n, n ∈ best'.expected ↔ n ∈ best.expected := by
  have hconsumed : best'.consumed = best.consumed := by
    refine Nat.le_antisymm ?_ ?_
    · obtain hzero | ⟨a', ha', heq'⟩ := h'.attained
      · omega
      · exact heq' ▸ h.le a' (hperm.mem_iff.1 ha')
    · obtain hzero | ⟨a, ha, heq⟩ := h.attained
      · omega
      · exact heq ▸ h'.le a (hperm.mem_iff.2 ha)
  refine ⟨hconsumed, ?_, fun n => ?_⟩
  · rw [Bool.eq_iff_iff, h.assumed_iff, h'.assumed_iff, hconsumed]
    simp only [hperm.mem_iff]
  · rw [h.mem_expected_iff, h'.mem_expected_iff, hconsumed]
    simp only [hperm.mem_iff]

end Attempt

/-! ## Verdicts from attempts -/

section

variable {ls : Literals} {tokens : List String} {index : Nat} {bs : List Branch}

/-- The verdict is positive iff the walk of an alternative takes all tokens. -/
theorem matched_decideFrom_iff {best : Option Attempt} :
    (decideFrom ls tokens index best bs).matched = true ↔
      ∃ b ∈ bs, Attempt.ofWalk? tokens.length (walkElements ls b.elements tokens []) = none := by
  induction bs generalizing index best with
  | nil => simp [decideFrom, Verdict.ofAttempt]
  | cons b bs ih =>
    rw [decideFrom]
    cases hwalk : Attempt.ofWalk? tokens.length (walkElements ls b.elements tokens []) with
    | none => simp [Verdict.ofMatch, hwalk]
    | some a => simp [ih, hwalk]

/-- Behind an attempt the verdict is negative only if each alternative makes one. -/
theorem exists_attempts_behind {best : Attempt}
    (h : (decideFrom ls tokens index (some best) bs).matched = false) :
    ∃ attempts : List Attempt,
      bs.map (fun b => Attempt.ofWalk? tokens.length (walkElements ls b.elements tokens [])) =
        attempts.map some ∧
      decideFrom ls tokens index (some best) bs =
        .ofAttempt (attempts.foldl Attempt.furthest best) := by
  induction bs generalizing index best with
  | nil => exact ⟨[], rfl, rfl⟩
  | cons b bs ih =>
    rw [decideFrom] at h ⊢
    cases hwalk : Attempt.ofWalk? tokens.length (walkElements ls b.elements tokens []) with
    | none => simp [hwalk, Verdict.ofMatch] at h
    | some a =>
      simp only [hwalk] at h ⊢
      obtain ⟨attempts, hattempts, hv⟩ := ih h
      exact ⟨a :: attempts, by rw [List.map_cons, List.map_cons, hwalk, hattempts], hv⟩

/-- A negative verdict tells the sum of the attempts of all alternatives. -/
theorem exists_attempts_of_unmatched
    (h : (decideFrom ls tokens index none bs).matched = false) :
    ∃ attempts : List Attempt,
      bs.map (fun b => Attempt.ofWalk? tokens.length (walkElements ls b.elements tokens [])) =
        attempts.map some ∧
      decideFrom ls tokens index none bs = .ofAttempt (.sum attempts) := by
  cases bs with
  | nil => exact ⟨[], rfl, rfl⟩
  | cons b bs =>
    rw [decideFrom] at h ⊢
    cases hwalk : Attempt.ofWalk? tokens.length (walkElements ls b.elements tokens []) with
    | none => simp [hwalk, Verdict.ofMatch] at h
    | some a =>
      simp only [hwalk] at h ⊢
      obtain ⟨attempts, hattempts, hv⟩ := exists_attempts_behind h
      exact ⟨a :: attempts, by rw [List.map_cons, List.map_cons, hwalk, hattempts], hv⟩

/-- A negative verdict tells the sum of all attempts, those before included. -/
theorem exists_sums_of_unmatched {best : Option Attempt} (seen : List Attempt)
    (hseen : match best with | none => seen = [] | some a => a.Sums seen)
    (h : (decideFrom ls tokens index best bs).matched = false) :
    ∃ attempts a, decideFrom ls tokens index best bs = .ofAttempt a ∧ a.Sums (seen ++ attempts) ∧
      bs.map (fun b => Attempt.ofWalk? tokens.length (walkElements ls b.elements tokens [])) =
        attempts.map some := by
  cases best with
  | none =>
    obtain rfl : seen = [] := hseen
    obtain ⟨attempts, hattempts, hv⟩ := exists_attempts_of_unmatched h
    exact ⟨attempts, _, hv, Attempt.sums_sum attempts, hattempts⟩
  | some a =>
    obtain ⟨attempts, hattempts, hv⟩ := exists_attempts_behind h
    exact ⟨attempts, _, hv, Attempt.Sums.foldl hseen attempts, hattempts⟩

end

end GrammarLab.Matcher
