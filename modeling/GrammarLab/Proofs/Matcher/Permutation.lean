import Mathlib.Data.List.Perm.Basic
import GrammarLab.Proofs.Matcher.Attempts

/-!
# The order of alternatives

How far the alternatives of a rule get that do not match, whether one of those that got furthest
took a rule and what could have gone on there is the same in any order. Whether the match is called
partial is not: if none of the alternatives took a token, the first of them decides, by whether its
walk came to the end of its elements.

    v.matched = false → (v.isPartial ↔ 0 < v.consumed ∨ the first alternative finishes)
                                                                  (isPartial_iff_of_unmatched)
    the alternatives of r' are those of r in another order, v.matched = false →
      v' agrees with v, on partial iff v.consumed > 0 or the first of both finish or both do not
                                                                  (unmatched_of_perm)
-/

namespace GrammarLab.Matcher

open Body

/-! ## What is partial -/

/-- The walk of the first alternative comes to the end of its elements. -/
def FirstFinishes (ls : Literals) (bs : List Branch) (tokens : List String) : Prop :=
  ∃ b ∈ bs.head?, ∃ d, (walkElements ls b.elements tokens []).result = .ok d

theorem firstFinishes_iff {ls : Literals} {bs : List Branch} {tokens : List String} :
    FirstFinishes ls bs tokens ↔ ∃ es ∈ (bs.map (·.elements)).head?,
      ∃ d, (walkElements ls es tokens []).result = .ok d := by
  simp [FirstFinishes]

/-- An attempt is partial as soon as it took a token. -/
def Attempt.PartialIfTaken (a : Attempt) : Prop := 0 < a.consumed → a.isPartial = true

namespace Attempt

variable {best a : Attempt} {attempts : List Attempt}

/-- The attempt that is kept tells what the first one does, unless it took tokens. -/
theorem PartialIfTaken.furthest (hbest : best.PartialIfTaken) (ha : a.PartialIfTaken) :
    (best.furthest a).PartialIfTaken ∧
      ((best.furthest a).isPartial = best.isPartial ∨ 0 < (best.furthest a).consumed) := by
  unfold Attempt.furthest
  split
  · exact ⟨ha, .inr (by omega)⟩
  split
  · exact ⟨hbest, .inl rfl⟩
  · exact ⟨hbest, .inl rfl⟩

theorem isPartial_foldl_furthest (hbest : best.PartialIfTaken)
    (h : ∀ a ∈ attempts, a.PartialIfTaken) :
    (attempts.foldl Attempt.furthest best).isPartial = true ↔
      0 < (attempts.foldl Attempt.furthest best).consumed ∨ best.isPartial = true := by
  induction attempts generalizing best with
  | nil => exact ⟨.inr, fun h => h.elim hbest id⟩
  | cons a attempts ih =>
    obtain ⟨ha, hmore⟩ := List.forall_mem_cons.1 h
    obtain ⟨hkept, hpartial⟩ := hbest.furthest ha
    have hle : (best.furthest a).consumed ≤
        (attempts.foldl Attempt.furthest (best.furthest a)).consumed :=
      ((sums_singleton _).foldl attempts).le _ (by simp)
    rw [List.foldl_cons, ih hkept hmore]
    obtain heq | htaken := hpartial
    · rw [heq]
    · simp [Nat.lt_of_lt_of_le htaken hle]

/-- If no attempt took a token, the first one decides. -/
theorem isPartial_sum_iff (h : ∀ a ∈ attempts, a.PartialIfTaken) :
    (sum attempts).isPartial = true ↔
      0 < (sum attempts).consumed ∨ ∃ a ∈ attempts.head?, a.isPartial = true := by
  cases attempts with
  | nil => simp [sum]
  | cons best attempts =>
    obtain ⟨hbest, hmore⟩ := List.forall_mem_cons.1 h
    simpa [sum] using isPartial_foldl_furthest hbest hmore

/-- An attempt is partial iff it took tokens, or the walk came to its end in front of some. -/
theorem isPartial_ofWalk?_iff {total : Nat} {w : Walk Done} (h : ofWalk? total w = some a) :
    a.isPartial = true ↔ 0 < a.consumed ∨ ∃ d, w.result = .ok d := by
  unfold ofWalk? at h
  cases hwalk : w.result with
  | ok d =>
    simp only [hwalk] at h
    split at h
    · simp at h
    · obtain rfl := Option.some.inj h
      simp
  | error f =>
    simp only [hwalk] at h
    obtain rfl := Option.some.inj h
    simp only [decide_eq_true_eq, reduceCtorEq, exists_false, or_false, Nat.sub_pos_iff_lt]

end Attempt

section

variable {ls : Literals} {tokens : List String} {bs bs' : List Branch}

theorem isPartial_iff_of_unmatched (h : (decideFrom ls tokens 0 none bs).matched = false) :
    (decideFrom ls tokens 0 none bs).isPartial = true ↔
      0 < (decideFrom ls tokens 0 none bs).consumed ∨ FirstFinishes ls bs tokens := by
  obtain ⟨attempts, hattempts, hv⟩ := exists_attempts_of_unmatched h
  have htaken : ∀ a ∈ attempts, a.PartialIfTaken := by
    intro a ha hpos
    obtain ⟨b, -, hb⟩ := List.mem_map.1 (hattempts.symm ▸ List.mem_map_of_mem (f := some) ha)
    exact (Attempt.isPartial_ofWalk?_iff hb).2 (.inl hpos)
  rw [hv]
  refine (Attempt.isPartial_sum_iff htaken).trans ?_
  cases bs with
  | nil =>
    obtain rfl : attempts = [] := by simpa using hattempts.symm
    simp [FirstFinishes, Verdict.ofAttempt]
  | cons b bs =>
    obtain ⟨a, attempts, rfl⟩ : ∃ a as, attempts = a :: as := by
      cases attempts with
      | nil => simp at hattempts
      | cons a as => exact ⟨a, as, rfl⟩
    simp only [List.map_cons, List.cons.injEq] at hattempts
    have hle : a.consumed ≤ (Attempt.sum (a :: attempts)).consumed :=
      (Attempt.sums_sum _).le a (by simp)
    simp only [List.head?_cons, Option.mem_some_iff, exists_eq_left',
      Attempt.isPartial_ofWalk?_iff hattempts.1, FirstFinishes, Verdict.ofAttempt]
    constructor
    · rintro (hpos | hpos | hfinishes)
      · exact .inl hpos
      · exact .inl (Nat.lt_of_lt_of_le hpos hle)
      · exact .inr hfinishes
    · rintro (hpos | hfinishes)
      · exact .inl hpos
      · exact .inr (.inr hfinishes)

/-- The attempts of the alternatives come in the order of the alternatives. -/
theorem exists_sums_of_perm (hperm : (bs'.map (·.elements)).Perm (bs.map (·.elements)))
    (h : (decideFrom ls tokens 0 none bs).matched = false) :
    ∃ attempts attempts' : List Attempt, attempts'.Perm attempts ∧
      decideFrom ls tokens 0 none bs = .ofAttempt (.sum attempts) ∧
      decideFrom ls tokens 0 none bs' = .ofAttempt (.sum attempts') := by
  obtain ⟨attempts, hattempts, hv⟩ := exists_attempts_of_unmatched h
  have hmapped := hperm.map fun es => Attempt.ofWalk? tokens.length (walkElements ls es tokens [])
  simp only [List.map_map, Function.comp_def, hattempts] at hmapped
  have hunmatched : (decideFrom ls tokens 0 none bs').matched = false := by
    refine Bool.eq_false_iff.2 fun hmatched => ?_
    obtain ⟨b, hb, hnone⟩ := matched_decideFrom_iff.1 hmatched
    obtain ⟨a, -, ha⟩ := List.mem_map.1 (hmapped.subset (List.mem_map_of_mem hb))
    simp [hnone] at ha
  obtain ⟨attempts', hattempts', hv'⟩ := exists_attempts_of_unmatched hunmatched
  rw [hattempts'] at hmapped
  have hattempts : attempts'.Perm attempts :=
    (List.map_perm_map_iff fun _ _ => Option.some.inj).1 hmapped
  exact ⟨attempts, attempts', hattempts, hv, hv'⟩

end

end GrammarLab.Matcher

namespace GrammarLab

open Matcher

/-- If the alternatives of a rule do not match, they do not in another order. How far they got, the
confidence and the names that were expected are the same. Whether the match is partial is so iff a
token was taken, or the walks of the first alternatives both come to their end or neither does. -/
theorem unmatched_of_perm {g g' : Grammar} {name name' : String} {r r' : Rule}
    {tokens : List String} {v : Verdict} (htokens : g'.tokenRules = g.tokenRules)
    (hr : g.rule? name = some r) (hr' : g'.rule? name' = some r') (hparser : r'.isParser = true)
    (hperm : (r'.structure.alternatives.map (·.elements)).Perm
      (r.structure.alternatives.map (·.elements)))
    (hv : g.testRule name tokens = .ok v) (hunmatched : v.matched = false) :
    ∃ v', g'.testRule name' tokens = .ok v' ∧ v'.matched = false ∧ v'.consumed = v.consumed ∧
      v'.confidence = v.confidence ∧ (∀ n, n ∈ v'.expected ↔ n ∈ v.expected) ∧
      (v'.isPartial = v.isPartial ↔ 0 < v.consumed ∨
        (FirstFinishes (.ofGrammar g) r'.structure.alternatives tokens ↔
          FirstFinishes (.ofGrammar g) r.structure.alternatives tokens)) := by
  have hliterals : Literals.ofGrammar g' = .ofGrammar g := by
    rw [Literals.ofGrammar, htokens, Literals.ofGrammar]
  have hok : v = decideFrom (.ofGrammar g) tokens 0 none r.structure.alternatives := by
    unfold Grammar.testRule at hv
    simp only [hr] at hv
    split at hv
    · exact (Except.ok.inj hv).symm
    · simp at hv
  subst hok
  have hok' : g'.testRule name' tokens =
      .ok (decideFrom (.ofGrammar g) tokens 0 none r'.structure.alternatives) := by
    simp [Grammar.testRule, hr', hparser, hliterals]
  obtain ⟨attempts, attempts', hattempts, hsum, hsum'⟩ := exists_sums_of_perm hperm hunmatched
  have hunmatched' : (decideFrom (.ofGrammar g) tokens 0 none
      r'.structure.alternatives).matched = false := hsum' ▸ rfl
  obtain ⟨hconsumed, hassumed, hexpected⟩ :=
    (Attempt.sums_sum attempts).agrees_of_perm (Attempt.sums_sum attempts') hattempts
  refine ⟨_, hok', hunmatched', ?_, ?_, fun n => ?_, ?_⟩
  · rw [hsum, hsum']
    exact hconsumed
  · rw [hsum, hsum']
    exact congrArg Confidence.ofAssumed hassumed
  · rw [hsum, hsum']
    exact hexpected n
  · rw [Bool.eq_iff_iff, isPartial_iff_of_unmatched hunmatched,
      isPartial_iff_of_unmatched hunmatched', hsum, hsum']
    simp only [Verdict.ofAttempt, hconsumed]
    by_cases hpos : 0 < (Attempt.sum attempts).consumed <;> simp [hpos]

/-- An identifier or nothing, in both orders. -/
def optionGrammar : Grammar where
  rules := [
    { name := "r", isFragment := false, definition := "ID |".toList, lineNumber := 1, bodyLine := 1
      endLine := 1, referencedRules := ["ID"], mode := none },
    { name := "s", isFragment := false, definition := "| ID".toList, lineNumber := 2, bodyLine := 2
      endLine := 2, referencedRules := ["ID"], mode := none }]

/-- In front of a number neither alternative takes a token. The empty one comes to its end, and only
where it is the first the match is partial. -/
theorem unmatched_optionGrammar : ∃ v v' : Verdict,
    optionGrammar.testRule "r" ["INT"] = .ok v ∧ v.matched = false ∧
      optionGrammar.testRule "s" ["INT"] = .ok v' ∧ v'.matched = false ∧
      v'.consumed = v.consumed ∧ v'.confidence = v.confidence ∧
      (∀ n, n ∈ v'.expected ↔ n ∈ v.expected) ∧ v'.isPartial ≠ v.isPartial := by
  have hparse : (optionGrammar.rule? "r").map (fun r =>
      r.structure.alternatives.map (·.elements)) = some [[⟨.token "ID", .once, true⟩], []] := by
    decide +kernel
  have hparse' : (optionGrammar.rule? "s").map (fun r =>
      r.structure.alternatives.map (·.elements)) = some [[], [⟨.token "ID", .once, true⟩]] := by
    decide +kernel
  have hverdict : (optionGrammar.testRule "r" ["INT"]).toOption.map
      (fun v => (v.matched, v.consumed)) = some (false, 0) := by decide +kernel
  obtain ⟨r, hr, helements⟩ := Option.map_eq_some_iff.1 hparse
  obtain ⟨r', hr', helements'⟩ := Option.map_eq_some_iff.1 hparse'
  have hparser : r'.isParser = true := by
    rw [Rule.isParser, Rule.isLexer, Grammar.name_of_rule? hr']
    decide +kernel
  have hperm : (r'.structure.alternatives.map (·.elements)).Perm
      (r.structure.alternatives.map (·.elements)) := by
    rw [helements, helements']
    exact .swap _ _ _
  cases hv : optionGrammar.testRule "r" ["INT"] with
  | error e => simp [hv, Except.toOption] at hverdict
  | ok v =>
    obtain ⟨hm, hconsumed⟩ : v.matched = false ∧ v.consumed = 0 := by
      simpa [hv, Except.toOption] using hverdict
    obtain ⟨v', hv', hm', hconsumed', hconfidence, hexpected, hpartial⟩ :=
      unmatched_of_perm rfl hr hr' hparser hperm hv hm
    refine ⟨v, v', rfl, hm, hv', hm', hconsumed', hconfidence, hexpected, fun heq => ?_⟩
    obtain hpos | hfirst := hpartial.1 heq
    · omega
    · simp [firstFinishes_iff, helements, helements', walkElements, walkContent, simpleOnce,
        applyModifier, terminalAccepts, Walk.ok, Walk.error] at hfirst

end GrammarLab
