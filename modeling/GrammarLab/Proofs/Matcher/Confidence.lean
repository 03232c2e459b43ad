import GrammarLab.Proofs.Matcher.Attempts
import GrammarLab.Proofs.Matcher.Language

/-!
# Confidence of a verdict

A walk that comes to another parser rule with tokens left takes the rule to be one token, and keeps
that it did so. Of the alternatives that do not match a verdict tells what those know that got
furthest. So high confidence says of these that they took no rule, and nothing of the others.

    (walkElements ls es left names).assumed = true ↔ TakesRule ls (.elements es) left
    v.confidence = .high ↔ no alternative that got as far as v.consumed takes a rule
                                                                  (confidence_eq_high_iff)
-/

namespace GrammarLab.Matcher

open Body Pattern

/-! ## Where a walk takes a rule -/

section

variable (once : List String → Walk (List String)) (reserve : Nat) (halts : List String → Bool)

/-- With `left` tokens in front of it, a loop comes to try an occurrence in front of `tried`. -/
inductive LoopTries : List String → List String → Prop
  | here {left} : reserve < left.length → halts left = false → LoopTries left left
  | behind {left next tried} : reserve < left.length → halts left = false →
      (once left).result = .ok next → next.length < left.length → LoopTries next tried →
      LoopTries left tried

/-- With `left` tokens in front of it, an element comes to try its content in front of `tried`. -/
def Tries (modifier : Modifier) (left tried : List String) : Prop :=
  match modifier with
  | .once => tried = left
  | .optional => tried = left ∧ reserve < left.length ∧ halts left = false
  | .zeroOrMore => LoopTries once reserve halts left tried
  | .oneOrMore =>
    tried = left ∨ ∃ next, (once left).result = .ok next ∧ LoopTries once reserve halts next tried

end

/-- The walk of an element in front of the elements `rest`. -/
def walkElement (ls : Literals) (e : Element) (rest : List Element) :
    List String → Walk (List String) :=
  applyModifier e.modifier (walkContent ls e.content) (minTokens rest)
    (haltsBefore ls e.content (nextTerminal? rest))

/-- `TakesRule ls part left`: on its way through the part with the tokens `left` in front, the walk
takes a parser rule to be a token. -/
inductive TakesRule (ls : Literals) : Part → List String → Prop
  | rule {name type rest} : TakesRule ls (.content (.rule name)) (type :: rest)
  | group {bs left} : TakesRule ls (.branches bs) left → TakesRule ls (.content (.group bs)) left
  | branch {b bs left} : TakesRule ls (.elements b.elements) left →
      TakesRule ls (.branches (b :: bs)) left
  | otherBranch {b bs left f} : (walkElements ls b.elements left []).result = .error f →
      TakesRule ls (.branches bs) left → TakesRule ls (.branches (b :: bs)) left
  | element {e es left tried} :
      Tries (walkContent ls e.content) (minTokens es) (haltsBefore ls e.content (nextTerminal? es))
        e.modifier left tried →
      TakesRule ls (.content e.content) tried → TakesRule ls (.elements (e :: es)) left
  | behind {e es left next} : (walkElement ls e es left).result = .ok next →
      TakesRule ls (.elements es) next → TakesRule ls (.elements (e :: es)) left

/-! ## Modifiers -/

section

variable {once : List String → Walk (List String)} {reserve : Nat} {halts : List String → Bool}

theorem assumed_loop_succ_iff (rounds : Nat) (left : List String) :
    (loop once reserve halts (rounds + 1) left).assumed = true ↔
      reserve < left.length ∧ halts left = false ∧ ((once left).assumed = true ∨
        ∃ next, (once left).result = .ok next ∧ next.length < left.length ∧
          (loop once reserve halts rounds next).assumed = true) := by
  rw [loop]
  split
  · rename_i hstop
    refine ⟨fun h => by simp [Walk.ok] at h, fun ⟨hreserve, hhalts, _⟩ => ?_⟩
    simp [hhalts] at hstop
    omega
  · rename_i hgo
    obtain ⟨hreserve, hhalts⟩ : reserve < left.length ∧ halts left = false := by simpa using hgo
    cases honce : (once left).result with
    | error f => simp [honce, hreserve, hhalts]
    | ok next =>
      by_cases hnext : next.length < left.length <;> simp [honce, hreserve, hhalts, hnext]

/-- Every round takes a token, so there are no more rounds than tokens. -/
theorem assumed_loop_iff {rounds : Nat} {left : List String} (hrounds : left.length ≤ rounds) :
    (loop once reserve halts rounds left).assumed = true ↔
      ∃ tried, LoopTries once reserve halts left tried ∧ (once tried).assumed = true := by
  induction rounds generalizing left with
  | zero =>
    obtain rfl : left = [] := List.eq_nil_of_length_eq_zero (by omega)
    refine ⟨fun h => by simp [loop, Walk.ok] at h, fun ⟨tried, htries, _⟩ => ?_⟩
    cases htries with
    | here hreserve => simp at hreserve
    | behind hreserve => simp at hreserve
  | succ rounds ih =>
    rw [assumed_loop_succ_iff]
    constructor
    · rintro ⟨hreserve, hhalts, h | ⟨next, hnext, hlt, h⟩⟩
      · exact ⟨left, .here hreserve hhalts, h⟩
      · obtain ⟨tried, htries, h⟩ := (ih (by omega)).1 h
        exact ⟨tried, .behind hreserve hhalts hnext hlt htries, h⟩
    · rintro ⟨tried, htries, h⟩
      cases htries with
      | here hreserve hhalts => exact ⟨hreserve, hhalts, .inl h⟩
      | behind hreserve hhalts hnext hlt htries =>
        exact ⟨hreserve, hhalts, .inr ⟨_, hnext, hlt, (ih (by omega)).2 ⟨tried, htries, h⟩⟩⟩

theorem assumed_applyModifier_iff (modifier : Modifier) (left : List String) :
    (applyModifier modifier once reserve halts left).assumed = true ↔
      ∃ tried, Tries once reserve halts modifier left tried ∧ (once tried).assumed = true := by
  cases modifier with
  | once => simp [applyModifier, Tries]
  | optional =>
    have hnone : ∀ next, (loop once reserve halts 0 next).assumed = false := fun _ => rfl
    simp only [applyModifier, Tries, assumed_loop_succ_iff, hnone]
    simp [and_assoc]
  | zeroOrMore => exact assumed_loop_iff (Nat.le_refl _)
  | oneOrMore =>
    rw [applyModifier, Walk.andThen]
    cases hfirst : (once left).result with
    | error f => simp [Tries, hfirst]
    | ok next =>
      simp only [Bool.or_eq_true, assumed_loop_iff (Nat.le_refl next.length)]
      constructor
      · rintro (h | ⟨tried, htries, h⟩)
        · exact ⟨left, .inl rfl, h⟩
        · exact ⟨tried, .inr ⟨next, hfirst, htries⟩, h⟩
      · rintro ⟨tried, rfl | ⟨next', hnext, htries⟩, h⟩
        · exact .inl h
        · obtain rfl := Except.ok.inj (hfirst.symm.trans hnext)
          exact .inr ⟨tried, htries, h⟩

end

/-! ## Walks -/

section

variable {ls : Literals}

theorem takesRule_group_iff {bs : List Branch} {left : List String} :
    TakesRule ls (.content (.group bs)) left ↔ TakesRule ls (.branches bs) left :=
  ⟨fun h => by cases h; assumption, .group⟩

theorem takesRule_branches_cons_iff {b : Branch} {bs : List Branch} {left : List String} :
    TakesRule ls (.branches (b :: bs)) left ↔ TakesRule ls (.elements b.elements) left ∨
      ∃ f, (walkElements ls b.elements left []).result = .error f ∧
        TakesRule ls (.branches bs) left := by
  constructor
  · intro h
    cases h with
    | branch h => exact .inl h
    | otherBranch hf h => exact .inr ⟨_, hf, h⟩
  · rintro (h | ⟨f, hf, h⟩)
    · exact .branch h
    · exact .otherBranch hf h

theorem takesRule_elements_cons_iff {e : Element} {es : List Element} {left : List String} :
    TakesRule ls (.elements (e :: es)) left ↔
      (∃ tried, Tries (walkContent ls e.content) (minTokens es)
        (haltsBefore ls e.content (nextTerminal? es)) e.modifier left tried ∧
          TakesRule ls (.content e.content) tried) ∨
      ∃ next, (walkElement ls e es left).result = .ok next ∧ TakesRule ls (.elements es) next := by
  constructor
  · intro h
    cases h with
    | element htries h => exact .inl ⟨_, htries, h⟩
    | behind hnext h => exact .inr ⟨_, hnext, h⟩
  · rintro (⟨tried, htries, h⟩ | ⟨next, hnext, h⟩)
    · exact .element htries h
    · exact .behind hnext h

/-- Of the contents without parts only a parser rule is taken on assumption. -/
theorem assumed_simpleOnce_iff {content : Content} {left : List String}
    (hgroup : ∀ bs, content ≠ .group bs) :
    (simpleOnce ls content left).assumed = true ↔ TakesRule ls (.content content) left := by
  have hrule : TakesRule ls (.content content) left ↔
      (∃ name, content = .rule name) ∧ left ≠ [] := by
    constructor
    · intro h
      cases h with
      | rule => simp
      | group => exact absurd rfl (hgroup _)
    · rintro ⟨⟨name, rfl⟩, hleft⟩
      obtain ⟨type, rest, rfl⟩ := List.exists_cons_of_ne_nil hleft
      exact .rule
  rw [hrule]
  cases left <;> cases content <;>
    simp [simpleOnce, Walk.ok, Walk.error, apply_ite Walk.assumed]

mutual

theorem assumed_walkElements_iff : ∀ (es : List (ElementOf Content)) (left openNames : List String),
    (walkElements ls es left openNames).assumed = true ↔ TakesRule ls (.elements es) left
  | [], left, openNames => ⟨fun h => by simp [walkElements, Walk.ok] at h, nofun⟩
  | ⟨content, modifier, greedy⟩ :: rest, left, openNames => by
    have hfirst : (walkElement ls ⟨content, modifier, greedy⟩ rest left).assumed = true ↔ _ :=
      assumed_applyModifier_iff modifier left
    simp only [assumed_walkContent_iff content] at hfirst
    rw [takesRule_elements_cons_iff, ← hfirst, walkElements]
    unfold walkElement
    cases hnext : (applyModifier modifier (walkContent ls content) (minTokens rest)
      (haltsBefore ls content (nextTerminal? rest)) left).result with
    | error f => simp
    | ok next => simp [assumed_walkElements_iff rest next]

theorem assumed_walkContent_iff : ∀ (c : Content) (left : List String),
    (walkContent ls c left).assumed = true ↔ TakesRule ls (.content c) left
  | .group branches, left => by
    rw [walkContent, takesRule_group_iff]
    exact assumed_walkBranches_iff branches left none
  | .token name, left => assumed_simpleOnce_iff (by simp)
  | .rule name, left => assumed_simpleOnce_iff (by simp)
  | .literal quoted, left => assumed_simpleOnce_iff (by simp)
  | .charSet text, left => assumed_simpleOnce_iff (by simp)
  | .range first last, left => assumed_simpleOnce_iff (by simp)
  | .wildcard, left => assumed_simpleOnce_iff (by simp)
  | .negated inner, left => assumed_simpleOnce_iff (by simp)
  | .endOfInput, left => assumed_simpleOnce_iff (by simp)

theorem assumed_walkBranches_iff : ∀ (bs : List (AlternativeOf Content)) (left : List String)
    (best : Option Failure),
    (walkBranches ls bs left best).assumed = true ↔ TakesRule ls (.branches bs) left
  | [], left, best => ⟨fun h => by simp [walkBranches, Walk.error] at h, nofun⟩
  | ⟨elements, label, commands, offset⟩ :: rest, left, best => by
    rw [takesRule_branches_cons_iff, ← assumed_walkElements_iff elements left [],
      walkBranches]
    cases hfirst : (walkElements ls elements left []).result with
    | ok d => simp
    | error f => simp [assumed_walkBranches_iff rest left]

end

end

/-! ## Verdicts -/

/-- The number of tokens in front of the place where the walk of the alternative stops. -/
def progress (ls : Literals) (b : Branch) (tokens : List String) : Nat :=
  match (walkElements ls b.elements tokens []).result with
  | .ok d => tokens.length - d.left.length
  | .error f => tokens.length - f.left

/-- An alternative that does not match makes an attempt as far as its walk gets. -/
theorem ofWalk?_eq_some {ls : Literals} {b : Branch} {tokens : List String} {a : Attempt}
    (h : Attempt.ofWalk? tokens.length (walkElements ls b.elements tokens []) = some a) :
    a.consumed = progress ls b tokens ∧
      (a.assumed = true ↔ TakesRule ls (.elements b.elements) tokens) := by
  rw [← assumed_walkElements_iff b.elements tokens [], progress]
  unfold Attempt.ofWalk? at h
  cases hwalk : (walkElements ls b.elements tokens []).result with
  | ok d =>
    simp only [hwalk] at h
    split at h
    · simp at h
    · obtain rfl := Option.some.inj h
      simp
  | error f =>
    simp only [hwalk] at h
    obtain rfl := Option.some.inj h
    simp

end GrammarLab.Matcher

namespace GrammarLab

open Matcher

/-- A negative verdict is of high confidence iff no alternative that got as far as it tells takes
a parser rule to be a token. What it tells is how far the furthest got. -/
theorem confidence_eq_high_iff {g : Grammar} {name : String} {tokens : List String} {v : Verdict}
    (hv : g.testRule name tokens = .ok v) (hunmatched : v.matched = false) :
    ∃ r, g.rule? name = some r ∧ r.isParser = true ∧
      (∀ b ∈ r.structure.alternatives, progress (.ofGrammar g) b tokens ≤ v.consumed) ∧
      (v.confidence = .high ↔ ∀ b ∈ r.structure.alternatives,
        progress (.ofGrammar g) b tokens = v.consumed →
          ¬TakesRule (.ofGrammar g) (.elements b.elements) tokens) := by
  unfold Grammar.testRule at hv
  cases hr : g.rule? name with
  | none => simp [hr] at hv
  | some r =>
    simp only [hr] at hv
    split at hv
    · rename_i hparser
      obtain rfl := Except.ok.inj hv
      obtain ⟨attempts, best, heq, hsums, hattempts⟩ :=
        exists_sums_of_unmatched [] rfl hunmatched
      rw [List.nil_append] at hsums
      have hattempt : ∀ b ∈ r.structure.alternatives, ∃ a ∈ attempts,
          a.consumed = progress (.ofGrammar g) b tokens ∧
            (a.assumed = true ↔ TakesRule (.ofGrammar g) (.elements b.elements) tokens) := by
        intro b hb
        obtain ⟨a, ha, hwalk⟩ := List.mem_map.1 (hattempts ▸ List.mem_map_of_mem hb)
        exact ⟨a, ha, ofWalk?_eq_some hwalk.symm⟩
      have hbranch : ∀ a ∈ attempts, ∃ b ∈ r.structure.alternatives,
          a.consumed = progress (.ofGrammar g) b tokens ∧
            (a.assumed = true ↔ TakesRule (.ofGrammar g) (.elements b.elements) tokens) := by
        intro a ha
        obtain ⟨b, hb, hwalk⟩ := List.mem_map.1 (hattempts.symm ▸ List.mem_map_of_mem (f := some) ha)
        exact ⟨b, hb, ofWalk?_eq_some hwalk⟩
      refine ⟨r, rfl, hparser, fun b hb => ?_, ?_⟩
      · obtain ⟨a, ha, hconsumed, -⟩ := hattempt b hb
        rw [heq, ← hconsumed]
        exact hsums.le a ha
      · have hhigh : (Verdict.ofAttempt best).confidence = .high ↔ ¬best.assumed = true := by
          cases hassumed : best.assumed <;> simp [Verdict.ofAttempt, Confidence.ofAssumed, hassumed]
        rw [heq, hhigh, hsums.assumed_iff]
        constructor
        · intro h b hb hfar htakes
          obtain ⟨a, ha, hconsumed, hassumed⟩ := hattempt b hb
          exact h ⟨a, ha, hconsumed.trans hfar, hassumed.2 htakes⟩
        · rintro h ⟨a, ha, hfar, hassumed⟩
          obtain ⟨b, hb, hconsumed, htakes⟩ := hbranch a ha
          exact h b hb (hconsumed.symm.trans hfar) (htakes.1 hassumed)
    · simp at hv

/-- Three numbers are an `x`, but an `x` is taken to be one token only. -/
def blackBoxGrammar : Grammar where
  rules := [
    { name := "r", isFragment := false, definition := "x SEMI | INT INT ID".toList
      lineNumber := 1, bodyLine := 1, endLine := 1, referencedRules := ["x", "SEMI", "INT", "ID"]
      mode := none },
    { name := "x", isFragment := false, definition := "INT INT INT".toList
      lineNumber := 2, bodyLine := 2, endLine := 2, referencedRules := ["INT"], mode := none }]

/-- The first alternative takes a rule and is given up early, the other one gets further: the tokens
are refused with high confidence. -/
theorem confidence_blackBoxGrammar : ∃ (v : Verdict) (r : Rule) (b : Body.Branch),
    blackBoxGrammar.testRule "r" ["INT", "INT", "INT", "SEMI"] = .ok v ∧ v.matched = false ∧
      v.confidence = .high ∧ blackBoxGrammar.rule? "r" = some r ∧
      r.structure.alternatives[0]? = some b ∧
      TakesRule (.ofGrammar blackBoxGrammar) (.elements b.elements) ["INT", "INT", "INT", "SEMI"] ∧
      progress (.ofGrammar blackBoxGrammar) b ["INT", "INT", "INT", "SEMI"] < v.consumed := by
  have hverdict : (blackBoxGrammar.testRule "r" ["INT", "INT", "INT", "SEMI"]).toOption.map
      (fun v => (v.matched, v.confidence)) = some (false, .high) := by decide +kernel
  have hassumed : (blackBoxGrammar.rule? "r").bind (fun r => r.structure.alternatives[0]?.map
      fun b => (walkElements (.ofGrammar blackBoxGrammar) b.elements
        ["INT", "INT", "INT", "SEMI"] []).assumed) = some true := by decide +kernel
  cases hv : blackBoxGrammar.testRule "r" ["INT", "INT", "INT", "SEMI"] with
  | error e => simp [hv, Except.toOption] at hverdict
  | ok v =>
    obtain ⟨hm, hconfidence⟩ : v.matched = false ∧ v.confidence = .high := by
      simpa [hv, Except.toOption] using hverdict
    obtain ⟨r, hr, -, hle, hhigh⟩ := confidence_eq_high_iff hv hm
    rw [hr, Option.bind_some] at hassumed
    obtain ⟨b, hb, hassumed⟩ := Option.map_eq_some_iff.1 hassumed
    have htakes := (assumed_walkElements_iff b.elements _ []).1 hassumed
    have hmem := List.mem_of_getElem? hb
    refine ⟨v, r, b, rfl, hm, hconfidence, hr, hb, htakes, Nat.lt_of_le_of_ne (hle b hmem) ?_⟩
    exact fun hfar => hhigh.1 hconfidence b hmem hfar htakes

end GrammarLab
