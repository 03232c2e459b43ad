import GrammarLab.Matcher.Walk
import GrammarLab.Proofs.Pattern.Meaning

/-!
# Languages of alternatives

The lists of token types that the parts of a parser rule stand for. The end of the input is also
there where no token is left, so a part stands for its tokens in front of the others.

    Fits ls (.elements (e :: es)) word rest ↔
      ∃ s t, word = s ++ t ∧ Fits ls (.element e) s (t ++ rest) ∧ Fits ls (.elements es) t rest
-/

namespace GrammarLab.Matcher

open Body Pattern

/-- `Fits ls part word rest`: in front of the token types `rest`, the part stands for `word`. Another
parser rule stands for any one token. -/
inductive Fits (ls : Literals) : Part → List String → List String → Prop
  | token {name rest} : Fits ls (.content (.token name)) [name] rest
  | literal {quoted type rest} : ls.accepts quoted type = true →
      Fits ls (.content (.literal quoted)) [type] rest
  | wildcard {type rest} : Fits ls (.content .wildcard) [type] rest
  | rule {name type rest} : Fits ls (.content (.rule name)) [type] rest
  | negated {inner type rest} : terminalAccepts ls type inner = false →
      Fits ls (.content (.negated inner)) [type] rest
  | endOfInput {rest} : Fits ls (.content .endOfInput) [GrammarLab.endOfInput] rest
  /-- Behind the last token the input ends without one. -/
  | atEnd : Fits ls (.content .endOfInput) [] []
  | group {bs word rest} : Fits ls (.branches bs) word rest →
      Fits ls (.content (.group bs)) word rest
  | once {content greedy word rest} : Fits ls (.content content) word rest →
      Fits ls (.element ⟨content, .once, greedy⟩) word rest
  | absent {content greedy rest} : Fits ls (.element ⟨content, .optional, greedy⟩) [] rest
  | present {content greedy word rest} : Fits ls (.content content) word rest →
      Fits ls (.element ⟨content, .optional, greedy⟩) word rest
  | stop {content greedy rest} : Fits ls (.element ⟨content, .zeroOrMore, greedy⟩) [] rest
  | next {content greedy s t rest} : Fits ls (.content content) s (t ++ rest) →
      Fits ls (.element ⟨content, .zeroOrMore, greedy⟩) t rest →
      Fits ls (.element ⟨content, .zeroOrMore, greedy⟩) (s ++ t) rest
  | plus {content greedy s t rest} : Fits ls (.content content) s (t ++ rest) →
      Fits ls (.element ⟨content, .zeroOrMore, greedy⟩) t rest →
      Fits ls (.element ⟨content, .oneOrMore, greedy⟩) (s ++ t) rest
  | nil {rest} : Fits ls (.elements []) [] rest
  | cons {e es s t rest} : Fits ls (.element e) s (t ++ rest) → Fits ls (.elements es) t rest →
      Fits ls (.elements (e :: es)) (s ++ t) rest
  | branch {b bs word rest} : b ∈ bs → Fits ls (.elements b.elements) word rest →
      Fits ls (.branches bs) word rest

/-- The token types that an alternative stands for, as a whole list. -/
def Language (ls : Literals) (b : Branch) (types : List String) : Prop :=
  Fits ls (.elements b.elements) types []

section

variable {ls : Literals} {word rest : List String} {type : String}

/-! ## One constructor at a time -/

theorem fits_group_iff {bs : List Branch} :
    Fits ls (.content (.group bs)) word rest ↔
      ∃ b ∈ bs, Fits ls (.elements b.elements) word rest := by
  constructor
  · intro h
    cases h with
    | group h =>
      cases h with
      | branch hb h => exact ⟨_, hb, h⟩
  · rintro ⟨b, hb, h⟩
    exact .group (.branch hb h)

theorem fits_cons_iff {e : Element} {es : List Element} :
    Fits ls (.elements (e :: es)) word rest ↔
      ∃ s t, word = s ++ t ∧ Fits ls (.element e) s (t ++ rest) ∧
        Fits ls (.elements es) t rest := by
  constructor
  · intro h
    cases h with
    | cons he hes => exact ⟨_, _, rfl, he, hes⟩
  · rintro ⟨s, t, rfl, he, hes⟩
    exact .cons he hes

/-- A sequence of one element without a modifier stands for what its content does. -/
theorem fits_sole_iff {content : Content} {greedy : Bool} :
    Fits ls (.elements [⟨content, .once, greedy⟩]) word rest ↔
      Fits ls (.content content) word rest := by
  rw [fits_cons_iff]
  constructor
  · rintro ⟨s, t, rfl, he, ht⟩
    cases ht with
    | nil =>
      cases he with
      | once h => simpa using h
  · intro h
    exact ⟨word, [], by simp, .once (by simpa using h), .nil⟩

end

/-! ## Sets of terminals -/

mutual

/-- A token, a literal, the end of the input, or a choice between such. -/
def isTerminalSet : Content → Bool
  | .token _ => true
  | .literal _ => true
  | .endOfInput => true
  | .group branches => areTerminalSets branches
  | _ => false

def areTerminalSets : List (AlternativeOf Content) → Bool
  | [] => true
  | ⟨elements, _, _, _⟩ :: rest => isSoleTerminalSet elements && areTerminalSets rest

def isSoleTerminalSet : List (ElementOf Content) → Bool
  | [⟨content, .once, _⟩] => isTerminalSet content
  | _ => false

end

section

variable (ls : Literals) (type : String) (rest : List String)

mutual

/-- A set of terminals accepts by itself the tokens that it stands for. -/
theorem terminalAccepts_iff_fits : ∀ c : Content, isTerminalSet c = true →
    (terminalAccepts ls type c = true ↔ Fits ls (.content c) [type] rest)
  | .token name, _ => by
    simp only [terminalAccepts, decide_eq_true_eq]
    exact ⟨fun h => h ▸ .token, fun h => by cases h; rfl⟩
  | .literal quoted, _ => ⟨.literal, fun h => by cases h; assumption⟩
  | .endOfInput, _ => by
    simp only [terminalAccepts, decide_eq_true_eq]
    exact ⟨fun h => h ▸ .endOfInput, fun h => by cases h; rfl⟩
  | .group branches, h => by
    rw [terminalAccepts, fits_group_iff]
    exact anyBranchAccepts_iff_fits branches h

theorem anyBranchAccepts_iff_fits : ∀ bs : List (AlternativeOf Content),
    areTerminalSets bs = true → (anyBranchAccepts ls type bs = true ↔
      ∃ b ∈ bs, Fits ls (.elements b.elements) [type] rest)
  | [], _ => by simp [anyBranchAccepts]
  | ⟨elements, label, commands, offset⟩ :: bs, h => by
    rw [areTerminalSets, Bool.and_eq_true] at h
    have hhead := soleElementAccepts_iff_fits elements h.1
    have htail := anyBranchAccepts_iff_fits bs h.2
    rw [anyBranchAccepts, Bool.or_eq_true, hhead, htail]
    simp

theorem soleElementAccepts_iff_fits : ∀ es : List (ElementOf Content),
    isSoleTerminalSet es = true →
      (soleElementAccepts ls type es = true ↔ Fits ls (.elements es) [type] rest)
  | [⟨content, .once, greedy⟩], h => by
    rw [soleElementAccepts, fits_sole_iff]
    exact terminalAccepts_iff_fits content h

end

/-- What is negated being a set of terminals, the negation stands for the tokens that the set does
not stand for. -/
theorem fits_negated_iff {inner : Content} (h : isTerminalSet inner = true) :
    Fits ls (.content (.negated inner)) [type] rest ↔
      ¬Fits ls (.content inner) [type] rest := by
  rw [← terminalAccepts_iff_fits ls type rest inner h, Bool.not_eq_true]
  exact ⟨fun h => by cases h; assumption, .negated⟩

end

end GrammarLab.Matcher
