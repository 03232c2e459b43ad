import GrammarLab.Matcher.Verdict
import GrammarLab.Proofs.Matcher.Language

/-!
# Soundness of a match

What a walk takes, the part that it walks stands for. An alternative that takes all tokens
therefore has them in its language.

    (walkElements ls es left names).result = .ok d →
      ∃ word, left = word ++ d.left ∧ Fits ls (.elements es) word d.left
-/

namespace GrammarLab.Matcher

open Body Pattern

variable {ls : Literals}

/-! ## One occurrence -/

/-- Each success of `once` takes a word that the part stands for. -/
def Takes (ls : Literals) (part : Part) (once : List String → Walk (List String)) : Prop :=
  ∀ left next, (once left).result = .ok next →
    ∃ word, left = word ++ next ∧ Fits ls part word next

theorem fits_of_terminalAccepts {content : Content} {type : String} (rest : List String)
    (hgroup : ∀ bs, content ≠ .group bs) (h : terminalAccepts ls type content = true) :
    Fits ls (.content content) [type] rest := by
  cases content with
  | token name =>
    obtain rfl : type = name := by simpa [terminalAccepts] using h
    exact .token
  | literal quoted => exact .literal h
  | endOfInput =>
    obtain rfl : type = GrammarLab.endOfInput := by simpa [terminalAccepts] using h
    exact .endOfInput
  | group bs => exact absurd rfl (hgroup bs)
  | _ => simp [terminalAccepts] at h

/-- What takes a token takes just that one. -/
theorem fits_of_simpleOnce_cons {content : Content} {type : String} {rest next : List String}
    (hgroup : ∀ bs, content ≠ .group bs)
    (h : (simpleOnce ls content (type :: rest)).result = .ok next) :
    rest = next ∧ Fits ls (.content content) [type] rest := by
  have hterminal : (if terminalAccepts ls type content then .ok rest else
      .error ⟨(type :: rest).length, expectedNames content⟩ : Walk (List String)).result =
        .ok next → rest = next ∧ Fits ls (.content content) [type] rest := by
    intro h
    split at h
    · rename_i hacc
      exact ⟨by simpa [Walk.ok] using h, fits_of_terminalAccepts rest hgroup hacc⟩
    · simp [Walk.error] at h
  cases content with
  | rule name => exact ⟨by simpa [simpleOnce] using h, .rule⟩
  | wildcard => exact ⟨by simpa [simpleOnce, Walk.ok] using h, .wildcard⟩
  | negated inner =>
    simp only [simpleOnce] at h
    split at h
    · simp [Walk.error] at h
    · rename_i hacc
      exact ⟨by simpa [Walk.ok] using h, .negated (by simpa using hacc)⟩
  | _ => exact hterminal h

theorem takes_simpleOnce {content : Content} (hgroup : ∀ bs, content ≠ .group bs) :
    Takes ls (.content content) (simpleOnce ls content) := by
  intro left next h
  cases left with
  | nil =>
    -- without tokens only the end of the input is there
    cases content with
    | endOfInput =>
      obtain rfl : [] = next := by simpa [simpleOnce, Walk.ok] using h
      exact ⟨[], rfl, .atEnd⟩
    | _ => simp [simpleOnce, Walk.error] at h
  | cons type rest =>
    obtain ⟨rfl, hfits⟩ := fits_of_simpleOnce_cons hgroup h
    exact ⟨[type], rfl, hfits⟩

/-! ## Modifiers -/

section

variable {content : Content} {once : List String → Walk (List String)} {reserve : Nat}
  {halts : List String → Bool} {left next : List String}

/-- A loop stops where it stands, or goes on behind an occurrence. -/
theorem loop_cases (rounds : Nat)
    (h : (loop once reserve halts (rounds + 1) left).result = .ok next) :
    left = next ∨ ∃ behind, (once left).result = .ok behind ∧
      (loop once reserve halts rounds behind).result = .ok next := by
  rw [loop] at h
  split at h
  · exact .inl (by simpa [Walk.ok] using h)
  · cases honce : (once left).result with
    | error f => exact .inl (by simpa [honce] using h)
    | ok behind =>
      simp only [honce] at h
      split at h
      · exact .inr ⟨behind, rfl, h⟩
      · exact .inl (by simpa using h)

theorem fits_loop (honce : Takes ls (.content content) once) (greedy : Bool) (rounds : Nat)
    (h : (loop once reserve halts rounds left).result = .ok next) :
    ∃ word, left = word ++ next ∧
      Fits ls (.element ⟨content, .zeroOrMore, greedy⟩) word next := by
  induction rounds generalizing left with
  | zero =>
    obtain rfl : left = next := by simpa [loop, Walk.ok] using h
    exact ⟨[], rfl, .stop⟩
  | succ rounds ih =>
    obtain rfl | ⟨behind, hfirst, hloop⟩ := loop_cases rounds h
    · exact ⟨[], rfl, .stop⟩
    · obtain ⟨s, rfl, hs⟩ := honce left behind hfirst
      obtain ⟨t, rfl, ht⟩ := ih hloop
      exact ⟨s ++ t, by simp, .next hs ht⟩

theorem takes_applyModifier (honce : Takes ls (.content content) once) (modifier : Modifier)
    (greedy : Bool) :
    Takes ls (.element ⟨content, modifier, greedy⟩) (applyModifier modifier once reserve halts) := by
  intro left next h
  cases modifier with
  | once =>
    obtain ⟨word, hleft, hfits⟩ := honce left next h
    exact ⟨word, hleft, .once hfits⟩
  | optional =>
    obtain rfl | ⟨behind, hfirst, hloop⟩ := loop_cases 0 h
    · exact ⟨[], rfl, .absent⟩
    · obtain rfl : behind = next := by simpa [loop, Walk.ok] using hloop
      obtain ⟨word, hleft, hfits⟩ := honce left behind hfirst
      exact ⟨word, hleft, .present hfits⟩
  | zeroOrMore => exact fits_loop honce greedy left.length h
  | oneOrMore =>
    simp only [applyModifier, Walk.andThen] at h
    cases hfirst : (once left).result with
    | error f => simp [hfirst] at h
    | ok behind =>
      simp only [hfirst] at h
      obtain ⟨s, rfl, hs⟩ := honce left behind hfirst
      obtain ⟨t, rfl, ht⟩ := fits_loop honce greedy behind.length h
      exact ⟨s ++ t, by simp, .plus hs ht⟩

end

/-! ## Walks -/

mutual

theorem fits_walkElements : ∀ (es : List (ElementOf Content)) {left openNames : List String}
    {d : Done}, (walkElements ls es left openNames).result = .ok d →
      ∃ word, left = word ++ d.left ∧ Fits ls (.elements es) word d.left
  | [], left, openNames, d, h => by
    obtain rfl : ⟨left, openNames⟩ = d := by simpa [walkElements, Walk.ok] using h
    exact ⟨[], rfl, .nil⟩
  | ⟨content, modifier, greedy⟩ :: rest, left, openNames, d, h => by
    have htakes : Takes ls (.element ⟨content, modifier, greedy⟩)
        (applyModifier modifier (walkContent ls content) (minTokens rest)
          (haltsBefore ls content (nextTerminal? rest))) :=
      takes_applyModifier (takes_walkContent content) modifier greedy
    rw [walkElements] at h
    cases hfirst : (applyModifier modifier (walkContent ls content) (minTokens rest)
      (haltsBefore ls content (nextTerminal? rest)) left).result with
    | error f => simp [hfirst] at h
    | ok next =>
      simp only [hfirst] at h
      obtain ⟨s, rfl, hs⟩ := htakes left next hfirst
      obtain ⟨t, rfl, ht⟩ := fits_walkElements rest h
      exact ⟨s ++ t, by simp, .cons hs ht⟩

theorem takes_walkContent : ∀ c : Content, Takes ls (.content c) (walkContent ls c)
  | .group branches => fun left next h => by
    rw [walkContent] at h
    obtain ⟨b, word, hb, hleft, hfits⟩ := fits_walkBranches branches h
    exact ⟨word, hleft, .group (.branch hb hfits)⟩
  | .token name => takes_simpleOnce (by simp)
  | .rule name => takes_simpleOnce (by simp)
  | .literal quoted => takes_simpleOnce (by simp)
  | .charSet text => takes_simpleOnce (by simp)
  | .range first last => takes_simpleOnce (by simp)
  | .wildcard => takes_simpleOnce (by simp)
  | .negated inner => takes_simpleOnce (by simp)
  | .endOfInput => takes_simpleOnce (by simp)

theorem fits_walkBranches : ∀ (bs : List (AlternativeOf Content)) {left next : List String}
    {best : Option Failure}, (walkBranches ls bs left best).result = .ok next →
      ∃ b word, b ∈ bs ∧ left = word ++ next ∧ Fits ls (.elements b.elements) word next
  | [], left, next, best, h => by simp [walkBranches, Walk.error] at h
  | ⟨elements, label, commands, offset⟩ :: rest, left, next, best, h => by
    rw [walkBranches] at h
    cases hfirst : (walkElements ls elements left []).result with
    | ok d =>
      obtain rfl : d.left = next := by simpa [hfirst] using h
      obtain ⟨word, hleft, hfits⟩ := fits_walkElements elements hfirst
      exact ⟨_, word, List.mem_cons_self, hleft, hfits⟩
    | error f =>
      simp only [hfirst] at h
      obtain ⟨b, word, hb, hleft, hfits⟩ := fits_walkBranches rest h
      exact ⟨b, word, List.mem_cons_of_mem _ hb, hleft, hfits⟩

end

/-! ## Verdicts -/

/-- The walk of an alternative that needs no attempt takes all tokens. -/
theorem exists_of_ofWalk?_eq_none {b : Branch} {tokens : List String}
    (h : Attempt.ofWalk? tokens.length (walkElements ls b.elements tokens []) = none) :
    ∃ openNames, (walkElements ls b.elements tokens []).result = .ok ⟨[], openNames⟩ := by
  unfold Attempt.ofWalk? at h
  cases hwalk : (walkElements ls b.elements tokens []).result with
  | error f => simp [hwalk] at h
  | ok d =>
    have hend : d.left = [] := by simpa [hwalk] using h
    exact ⟨d.openNames, by rw [← hend]⟩

/-- The alternative that decides is counted from `index` on, and its walk alone makes the verdict. -/
theorem decideFrom_of_matched {tokens : List String} {index : Nat} {best : Option Attempt}
    {bs : List Branch} (h : (decideFrom ls tokens index best bs).matched = true) :
    ∃ i b, bs[i]? = some b ∧
      Attempt.ofWalk? tokens.length (walkElements ls b.elements tokens []) = none ∧
      decideFrom ls tokens index best bs =
        .ofMatch (index + i) tokens.length (walkElements ls b.elements tokens []).assumed := by
  induction bs generalizing index best with
  | nil => simp [decideFrom, Verdict.ofAttempt] at h
  | cons b bs ih =>
    rw [decideFrom] at h ⊢
    cases hwalk : Attempt.ofWalk? tokens.length (walkElements ls b.elements tokens []) with
    | none => exact ⟨0, b, rfl, hwalk, rfl⟩
    | some a =>
      simp only [hwalk] at h ⊢
      obtain ⟨i, b', hb', hnone, hverdict⟩ := ih h
      exact ⟨i + 1, b', hb', hnone, by rw [hverdict, Nat.add_right_comm, Nat.add_assoc]⟩

end GrammarLab.Matcher

namespace GrammarLab

open Matcher

end GrammarLab
