import GrammarLab.LeftRecursion
import GrammarLab.Pattern.Compiler
import GrammarLab.Proofs.Regex.Stack

/-!
# Meaning of structures

The texts that a structure stands for, given by its own words and those of the rules that it
refers to. What stands for single characters means those that it matches when it is compiled
alone.

    Means g (.elements (e :: es)) s ↔ ∃ t u, s = t ++ u ∧ Means g (.element e) t ∧ …
-/

namespace GrammarLab.Body

/-- Classes, ranges and negations stand for single characters. -/
def Content.isSet : Content → Bool
  | .charSet _ => true
  | .range _ _ => true
  | .negated _ => true
  | _ => false

end GrammarLab.Body

namespace GrammarLab.Pattern

open Body Regex

/-- A part of a structure. -/
inductive Part
  | content (c : Content)
  | element (e : Element)
  | elements (es : List Element)
  | branches (bs : List Branch)

/-- `Means g part s`: the text `s` is one of those that the part stands for. Parser rules and the
end of the input stand for none. -/
inductive Means (g : Grammar) : Part → List Char → Prop
  | literal {quoted} : Means g (.content (.literal quoted)) (Literal.unescape quoted)
  | wildcard {c} : Means g (.content .wildcard) [c]
  | token {name r s} : g.rule? name = some r → Means g (.branches r.structure.alternatives) s →
      Means g (.content (.token name)) s
  | group {bs s} : Means g (.branches bs) s → Means g (.content (.group bs)) s
  | oneOf {content p c} : content.isSet = true → Pattern.compile content.render = .ok p →
      p.matchesWhole [c] = true → Means g (.content content) [c]
  | once {content greedy s} : Means g (.content content) s →
      Means g (.element ⟨content, .once, greedy⟩) s
  | absent {content greedy} : Means g (.element ⟨content, .optional, greedy⟩) []
  | present {content greedy s} : Means g (.content content) s →
      Means g (.element ⟨content, .optional, greedy⟩) s
  | stop {content greedy} : Means g (.element ⟨content, .zeroOrMore, greedy⟩) []
  | next {content greedy s t} : Means g (.content content) s →
      Means g (.element ⟨content, .zeroOrMore, greedy⟩) t →
      Means g (.element ⟨content, .zeroOrMore, greedy⟩) (s ++ t)
  | plus {content greedy s t} : Means g (.content content) s →
      Means g (.element ⟨content, .zeroOrMore, greedy⟩) t →
      Means g (.element ⟨content, .oneOrMore, greedy⟩) (s ++ t)
  | nil : Means g (.elements []) []
  | cons {e es s t} : Means g (.element e) s → Means g (.elements es) t →
      Means g (.elements (e :: es)) (s ++ t)
  | branch {b bs s} : b ∈ bs → Means g (.elements b.elements) s → Means g (.branches bs) s

/-! ## One constructor at a time -/

section

variable {g : Grammar} {s : List Char}

theorem means_literal_iff {quoted : List Char} :
    Means g (.content (.literal quoted)) s ↔ s = Literal.unescape quoted := by
  constructor
  · intro h
    cases h with
    | literal => rfl
    | oneOf h => simp [Content.isSet] at h
  · rintro rfl
    exact .literal

theorem means_wildcard_iff : Means g (.content .wildcard) s ↔ ∃ c, s = [c] := by
  constructor
  · intro h
    cases h with
    | wildcard => exact ⟨_, rfl⟩
    | oneOf h => simp [Content.isSet] at h
  · rintro ⟨c, rfl⟩
    exact .wildcard

theorem means_token_iff {name : String} {r : Rule} (hr : g.rule? name = some r) :
    Means g (.content (.token name)) s ↔ Means g (.branches r.structure.alternatives) s := by
  constructor
  · intro h
    cases h with
    | token hr' h =>
      rw [hr] at hr'
      obtain rfl := Option.some.inj hr'
      exact h
    | oneOf h => simp [Content.isSet] at h
  · exact .token hr

theorem means_group_iff {bs : List Branch} :
    Means g (.content (.group bs)) s ↔ Means g (.branches bs) s := by
  constructor
  · intro h
    cases h with
    | group h => exact h
    | oneOf h => simp [Content.isSet] at h
  · exact .group

theorem means_oneOf_iff {content : Content} {p : Pattern} (hc : content.isSet = true)
    (hp : Pattern.compile content.render = .ok p) :
    Means g (.content content) s ↔ ∃ c, s = [c] ∧ p.matchesWhole [c] = true := by
  constructor
  · intro h
    cases h with
    | oneOf _ hp' hm =>
      rw [hp] at hp'
      obtain rfl := Except.ok.inj hp'
      exact ⟨_, rfl, hm⟩
    | literal => simp [Content.isSet] at hc
    | wildcard => simp [Content.isSet] at hc
    | token => simp [Content.isSet] at hc
    | group => simp [Content.isSet] at hc
  · rintro ⟨c, rfl, hm⟩
    exact .oneOf hc hp hm

variable {content : Content} {greedy : Bool}

theorem means_once_iff :
    Means g (.element ⟨content, .once, greedy⟩) s ↔ Means g (.content content) s := by
  constructor
  · intro h
    cases h with
    | once h => exact h
  · exact .once

theorem means_optional_iff : Means g (.element ⟨content, .optional, greedy⟩) s ↔
    Quantified (Means g (.content content)) .optional s := by
  constructor
  · intro h
    cases h with
    | absent => exact .inl rfl
    | present h => exact .inr h
  · rintro (rfl | h)
    · exact .absent
    · exact .present h

theorem means_zeroOrMore_iff : Means g (.element ⟨content, .zeroOrMore, greedy⟩) s ↔
    Quantified (Means g (.content content)) .star s := by
  constructor
  · generalize hp : Part.element ⟨content, .zeroOrMore, greedy⟩ = part
    intro h
    induction h with
    | stop => exact .nil
    | next h _ _ ih =>
      cases hp
      exact .cons h (ih rfl)
    | _ => simp at hp
  · intro h
    change Iterated (Means g (.content content)) s at h
    induction h with
    | nil => exact .stop
    | cons h _ ih => exact .next h ih

theorem means_oneOrMore_iff : Means g (.element ⟨content, .oneOrMore, greedy⟩) s ↔
    Quantified (Means g (.content content)) .plus s := by
  constructor
  · intro h
    cases h with
    | plus hs ht => exact ⟨_, _, rfl, hs, means_zeroOrMore_iff.1 ht⟩
  · rintro ⟨t, u, rfl, ht, hu⟩
    have hu' : Means g (.element ⟨content, .zeroOrMore, greedy⟩) u := means_zeroOrMore_iff.2 hu
    exact .plus ht hu'

theorem means_nil_iff : Means g (.elements []) s ↔ s = [] := by
  constructor
  · intro h
    cases h with
    | nil => rfl
  · rintro rfl
    exact .nil

theorem means_cons_iff {e : Element} {es : List Element} :
    Means g (.elements (e :: es)) s ↔
      Chained (Means g (.element e)) (Means g (.elements es)) s := by
  constructor
  · intro h
    cases h with
    | cons h₁ h₂ => exact ⟨_, _, rfl, h₁, h₂⟩
  · rintro ⟨t, u, rfl, h₁, h₂⟩
    exact .cons h₁ h₂

theorem means_branches_iff {bs : List Branch} :
    Means g (.branches bs) s ↔ ∃ b ∈ bs, Means g (.elements b.elements) s := by
  constructor
  · intro h
    cases h with
    | branch hb h => exact ⟨_, hb, h⟩
  · rintro ⟨b, hb, h⟩
    exact .branch hb h

end

end GrammarLab.Pattern
