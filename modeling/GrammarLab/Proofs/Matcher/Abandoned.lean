import GrammarLab.Proofs.Matcher.Confidence
import GrammarLab.Proofs.Matcher.Soundness

/-!
# Attempts that are given up

A group gives up an alternative that fails and goes back to where it began, and so does a loop with
its last round. Of the rules that a walk takes some stand on the way that it ends up on, and others
in what it has given up. Only the first have to do with a match, but the walk keeps both alike. So
a match is of medium confidence also where its way takes no rule.

    TakesRule ls part left ↔ PassesRule ls part left ∨ AbandonsRule ls part left
    v.confidence = .medium ↔ the alternative that matched passes or abandons a rule
                                                                (confidence_eq_medium_iff)
-/

namespace GrammarLab.Matcher

open Body Pattern

/-! ## What is passed and what is abandoned -/

/-- `PassesRule ls part left`: with the tokens `left` in front, the walk of the part takes a token
through a parser rule, and keeps it. -/
inductive PassesRule (ls : Literals) : Part → List String → Prop
  | rule {name type rest} : PassesRule ls (.content (.rule name)) (type :: rest)
  | group {bs left} : PassesRule ls (.branches bs) left → PassesRule ls (.content (.group bs)) left
  | branch {b bs left d} : (walkElements ls b.elements left []).result = .ok d →
      PassesRule ls (.elements b.elements) left → PassesRule ls (.branches (b :: bs)) left
  | otherBranch {b bs left f} : (walkElements ls b.elements left []).result = .error f →
      PassesRule ls (.branches bs) left → PassesRule ls (.branches (b :: bs)) left
  | element {e es left tried next} :
      Tries (walkContent ls e.content) (minTokens es) (haltsBefore ls e.content (nextTerminal? es))
        e.modifier left tried →
      (walkContent ls e.content tried).result = .ok next →
      PassesRule ls (.content e.content) tried → PassesRule ls (.elements (e :: es)) left
  | behind {e es left next} : (walkElement ls e es left).result = .ok next →
      PassesRule ls (.elements es) next → PassesRule ls (.elements (e :: es)) left

/-- `AbandonsRule ls part left`: with the tokens `left` in front, the walk of the part takes a
parser rule in an alternative of a group, or in a round of a loop, that then fails. -/
inductive AbandonsRule (ls : Literals) : Part → List String → Prop
  | group {bs left} : AbandonsRule ls (.branches bs) left →
      AbandonsRule ls (.content (.group bs)) left
  | failedBranch {b bs left f} : (walkElements ls b.elements left []).result = .error f →
      TakesRule ls (.elements b.elements) left → AbandonsRule ls (.branches (b :: bs)) left
  | branch {b bs left d} : (walkElements ls b.elements left []).result = .ok d →
      AbandonsRule ls (.elements b.elements) left → AbandonsRule ls (.branches (b :: bs)) left
  | otherBranch {b bs left f} : (walkElements ls b.elements left []).result = .error f →
      AbandonsRule ls (.branches bs) left → AbandonsRule ls (.branches (b :: bs)) left
  | failedRound {e es left tried f} :
      Tries (walkContent ls e.content) (minTokens es) (haltsBefore ls e.content (nextTerminal? es))
        e.modifier left tried →
      (walkContent ls e.content tried).result = .error f → TakesRule ls (.content e.content) tried →
      AbandonsRule ls (.elements (e :: es)) left
  | element {e es left tried next} :
      Tries (walkContent ls e.content) (minTokens es) (haltsBefore ls e.content (nextTerminal? es))
        e.modifier left tried →
      (walkContent ls e.content tried).result = .ok next →
      AbandonsRule ls (.content e.content) tried → AbandonsRule ls (.elements (e :: es)) left
  | behind {e es left next} : (walkElement ls e es left).result = .ok next →
      AbandonsRule ls (.elements es) next → AbandonsRule ls (.elements (e :: es)) left

section

variable {ls : Literals} {part : Part} {left : List String}

theorem PassesRule.takesRule (h : PassesRule ls part left) : TakesRule ls part left := by
  induction h with
  | rule => exact .rule
  | group _ ih => exact .group ih
  | branch _ _ ih => exact .branch ih
  | otherBranch hf _ ih => exact .otherBranch hf ih
  | element htries _ _ ih => exact .element htries ih
  | behind hnext _ ih => exact .behind hnext ih

theorem AbandonsRule.takesRule (h : AbandonsRule ls part left) : TakesRule ls part left := by
  induction h with
  | group _ ih => exact .group ih
  | failedBranch _ h => exact .branch h
  | branch _ _ ih => exact .branch ih
  | otherBranch hf _ ih => exact .otherBranch hf ih
  | failedRound htries _ h => exact .element htries h
  | element htries _ _ ih => exact .element htries ih
  | behind hnext _ ih => exact .behind hnext ih

/-- Each rule that is taken stands on the way of the walk or in an attempt that it gives up. -/
theorem takesRule_iff :
    TakesRule ls part left ↔ PassesRule ls part left ∨ AbandonsRule ls part left := by
  refine ⟨fun h => ?_, fun h => h.elim PassesRule.takesRule AbandonsRule.takesRule⟩
  induction h with
  | rule => exact .inl .rule
  | group _ ih => exact ih.imp .group .group
  | @branch b bs left h ih =>
    cases hwalk : (walkElements ls b.elements left []).result with
    | ok d => exact ih.imp (.branch hwalk) (.branch hwalk)
    | error f => exact .inr (.failedBranch hwalk h)
  | otherBranch hf _ ih => exact ih.imp (.otherBranch hf) (.otherBranch hf)
  | @element e es left tried htries h ih =>
    cases hwalk : (walkContent ls e.content tried).result with
    | ok next => exact ih.imp (.element htries hwalk) (.element htries hwalk)
    | error f => exact .inr (.failedRound htries hwalk h)
  | behind hnext _ ih => exact ih.imp (.behind hnext) (.behind hnext)

/-- A sequence passes a rule in one of its elements. -/
theorem PassesRule.exists_element {es : List Element} (h : PassesRule ls (.elements es) left) :
    ∃ e ∈ es, ∃ tried, PassesRule ls (.content e.content) tried := by
  induction es generalizing left with
  | nil => cases h
  | cons e es ih =>
    cases h with
    | element _ _ h => exact ⟨e, List.mem_cons_self, _, h⟩
    | behind _ h =>
      obtain ⟨e', he', h⟩ := ih h
      exact ⟨e', List.mem_cons_of_mem e he', h⟩

end

end GrammarLab.Matcher

namespace GrammarLab

open Matcher

/-- A positive verdict names the alternative whose walk takes all tokens. It is of medium confidence
iff that walk takes a rule on its way or in an attempt that it gives up. -/
theorem confidence_eq_medium_iff {g : Grammar} {name : String} {tokens : List String} {v : Verdict}
    (hv : g.testRule name tokens = .ok v) (hmatched : v.matched = true) :
    ∃ r k b openNames, g.rule? name = some r ∧ r.isParser = true ∧ v.alternative = some k ∧
      r.structure.alternatives[k]? = some b ∧
      (walkElements (.ofGrammar g) b.elements tokens []).result = .ok ⟨[], openNames⟩ ∧
      (v.confidence = .medium ↔ PassesRule (.ofGrammar g) (.elements b.elements) tokens ∨
        AbandonsRule (.ofGrammar g) (.elements b.elements) tokens) := by
  unfold Grammar.testRule at hv
  cases hr : g.rule? name with
  | none => simp [hr] at hv
  | some r =>
    simp only [hr] at hv
    split at hv
    · rename_i hparser
      obtain rfl := Except.ok.inj hv
      obtain ⟨k, b, hb, hnone, hverdict⟩ := decideFrom_of_matched hmatched
      rw [Nat.zero_add] at hverdict
      obtain ⟨openNames, hwalk⟩ := exists_of_ofWalk?_eq_none hnone
      refine ⟨r, k, b, openNames, rfl, hparser, by rw [hverdict]; rfl, hb, hwalk, ?_⟩
      rw [← takesRule_iff, ← assumed_walkElements_iff b.elements tokens [], hverdict]
      cases hassumed : (walkElements (.ofGrammar g) b.elements tokens []).assumed <;>
        simp [Verdict.ofMatch, Confidence.ofAssumed]
    · simp at hv

/-- A rule in front of an identifier, or a number and a semicolon. -/
def choiceGrammar : Grammar where
  rules := [
    { name := "r", isFragment := false, definition := "( x ID | INT SEMI )".toList, lineNumber := 1
      bodyLine := 1, endLine := 1, referencedRules := ["x", "ID", "INT", "SEMI"], mode := none },
    { name := "x", isFragment := false, definition := "INT".toList, lineNumber := 2, bodyLine := 2
      endLine := 2, referencedRules := ["INT"], mode := none }]

/-- The content of the rule of the choice. -/
def choiceGroup : Body.Content :=
  .group [{ elements := [⟨.rule "x", .once, true⟩, ⟨.token "ID", .once, true⟩], offset := 2 },
    { elements := [⟨.token "INT", .once, true⟩, ⟨.token "SEMI", .once, true⟩], offset := 9 }]

theorem not_passesRule_choiceGroup (ls : Literals) :
    ¬PassesRule ls (.elements [⟨choiceGroup, .once, true⟩]) ["INT", "SEMI"] := by
  intro h
  cases h with
  | behind _ h => cases h
  | element htries _ h =>
    obtain rfl := htries
    cases h with
    | group h =>
      cases h with
      | branch hwalk =>
        -- no identifier stands behind the number
        simp [walkElements, walkContent, simpleOnce, applyModifier, terminalAccepts, Walk.error]
          at hwalk
      | otherBranch _ h =>
        cases h with
        | otherBranch _ h => cases h
        | branch _ h =>
          obtain ⟨e, he, tried, h⟩ := h.exists_element
          simp only [List.mem_cons, List.not_mem_nil, or_false] at he
          obtain rfl | rfl := he <;> cases h

/-- The first alternative of the group takes a rule and is given up, the second one takes both
tokens by their types: they match with medium confidence, and no rule is on the way. -/
theorem confidence_choiceGrammar : ∃ (v : Verdict) (r : Rule) (b : Body.Branch),
    choiceGrammar.testRule "r" ["INT", "SEMI"] = .ok v ∧ v.matched = true ∧
      v.confidence = .medium ∧ choiceGrammar.rule? "r" = some r ∧
      r.structure.alternatives[0]? = some b ∧
      ¬PassesRule (.ofGrammar choiceGrammar) (.elements b.elements) ["INT", "SEMI"] ∧
      AbandonsRule (.ofGrammar choiceGrammar) (.elements b.elements) ["INT", "SEMI"] := by
  have hparse : (choiceGrammar.rule? "r").map (fun r =>
      r.structure.alternatives.map (·.elements)) = some [[⟨choiceGroup, .once, true⟩]] := by
    decide +kernel
  have hverdict : (choiceGrammar.testRule "r" ["INT", "SEMI"]).toOption.map
      (fun v => (v.matched, v.confidence, v.alternative)) = some (true, .medium, some 0) := by
    decide +kernel
  cases hv : choiceGrammar.testRule "r" ["INT", "SEMI"] with
  | error e => simp [hv, Except.toOption] at hverdict
  | ok v =>
    obtain ⟨hm, hconfidence, halternative⟩ :
        v.matched = true ∧ v.confidence = .medium ∧ v.alternative = some 0 := by
      simpa [hv, Except.toOption] using hverdict
    obtain ⟨r, k, b, _, hr, -, hk, hb, -, hmedium⟩ := confidence_eq_medium_iff hv hm
    obtain rfl : 0 = k := Option.some.inj (halternative.symm.trans hk)
    have helements : b.elements = [⟨choiceGroup, .once, true⟩] := by
      have hget := congrArg (fun parsed => parsed.bind (·[0]?)) hparse
      simpa [hr, hb] using hget
    have hpasses :
        ¬PassesRule (.ofGrammar choiceGrammar) (.elements b.elements) ["INT", "SEMI"] := by
      rw [helements]
      exact not_passesRule_choiceGroup _
    exact ⟨v, r, b, rfl, hm, hconfidence, hr, hb, hpasses,
      (hmedium.1 hconfidence).resolve_left hpasses⟩

end GrammarLab
