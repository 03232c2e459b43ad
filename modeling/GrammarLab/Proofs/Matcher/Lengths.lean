import GrammarLab.Proofs.Matcher.Language

/-!
# Lengths of words

How many tokens the words of a part have at least, whatever its terminals accept and however long
the words of other parser rules are. The end of the input needs none.

    Derives v part word → partMinTokens part ≤ word.length             (partMinTokens_le)
-/

namespace GrammarLab.Matcher

open Body Pattern

/-! ## Words -/

/-- What the smallest parts of parser rules stand for: a terminal for single token types, another
parser rule for lists of one token type at least. -/
structure Vocabulary where
  accepts : Content → String → Prop
  expands : String → List String → Prop
  expands_ne_nil : ∀ name, ¬expands name []

/-- Neither a rule nor a group, nor the end of the input. -/
def isTerminal : Content → Bool
  | .rule _ => false
  | .group _ => false
  | .endOfInput => false
  | _ => true

/-- `Derives v part word`: by the vocabulary, the part stands for `word`. The end of the input may
be there with its token and without. -/
inductive Derives (v : Vocabulary) : Part → List String → Prop
  | terminal {content type} : isTerminal content = true → v.accepts content type →
      Derives v (.content content) [type]
  | rule {name word} : v.expands name word → Derives v (.content (.rule name)) word
  | endOfInput : Derives v (.content .endOfInput) [GrammarLab.endOfInput]
  | atEnd : Derives v (.content .endOfInput) []
  | group {bs word} : Derives v (.branches bs) word → Derives v (.content (.group bs)) word
  | once {content greedy word} : Derives v (.content content) word →
      Derives v (.element ⟨content, .once, greedy⟩) word
  | absent {content greedy} : Derives v (.element ⟨content, .optional, greedy⟩) []
  | present {content greedy word} : Derives v (.content content) word →
      Derives v (.element ⟨content, .optional, greedy⟩) word
  | stop {content greedy} : Derives v (.element ⟨content, .zeroOrMore, greedy⟩) []
  | next {content greedy s t} : Derives v (.content content) s →
      Derives v (.element ⟨content, .zeroOrMore, greedy⟩) t →
      Derives v (.element ⟨content, .zeroOrMore, greedy⟩) (s ++ t)
  | plus {content greedy s t} : Derives v (.content content) s →
      Derives v (.element ⟨content, .zeroOrMore, greedy⟩) t →
      Derives v (.element ⟨content, .oneOrMore, greedy⟩) (s ++ t)
  | nil : Derives v (.elements []) []
  | cons {e es s t} : Derives v (.element e) s → Derives v (.elements es) t →
      Derives v (.elements (e :: es)) (s ++ t)
  | branch {b bs word} : b ∈ bs → Derives v (.elements b.elements) word →
      Derives v (.branches bs) word

/-- The vocabulary of a walk: another parser rule stands for any one token. -/
def Vocabulary.ofLiterals (ls : Literals) : Vocabulary where
  accepts content type := ∃ rest, Fits ls (.content content) [type] rest
  expands _ word := word.length = 1
  expands_ne_nil := by simp

section

variable {v : Vocabulary} {ls : Literals} {part : Part} {word rest : List String}

/-- What a part stands for in front of other tokens, it stands for. -/
theorem derives_of_fits (h : Fits ls part word rest) : Derives (.ofLiterals ls) part word := by
  induction h with
  | token => exact .terminal rfl ⟨[], .token⟩
  | literal hacc => exact .terminal rfl ⟨[], .literal hacc⟩
  | wildcard => exact .terminal rfl ⟨[], .wildcard⟩
  | negated hacc => exact .terminal rfl ⟨[], .negated hacc⟩
  | rule => exact .rule rfl
  | endOfInput => exact .endOfInput
  | atEnd => exact .atEnd
  | group _ ih => exact .group ih
  | once _ ih => exact .once ih
  | absent => exact .absent
  | present _ ih => exact .present ih
  | stop => exact .stop
  | next _ _ ihs iht => exact .next ihs iht
  | plus _ _ ihs iht => exact .plus ihs iht
  | nil => exact .nil
  | cons _ _ ihe ihes => exact .cons ihe ihes
  | branch hb _ ih => exact .branch hb ih

/-! ## The least length -/

theorem branchesMinTokens_le {bs : List Branch} {b : Branch} (hb : b ∈ bs) :
    (branchesMinTokens bs).getD 0 ≤ minTokens b.elements := by
  have hsome : ∃ n, branchesMinTokens bs = some n ∧ n ≤ minTokens b.elements := by
    induction bs with
    | nil => simp at hb
    | cons b' bs ih =>
      obtain ⟨elements, label, commands, offset⟩ := b'
      rw [branchesMinTokens]
      rcases List.mem_cons.1 hb with rfl | hb
      · cases branchesMinTokens bs with
        | none => exact ⟨_, rfl, Nat.le_refl _⟩
        | some n => exact ⟨_, rfl, Nat.min_le_left _ _⟩
      · obtain ⟨n, hn, hle⟩ := ih hb
        rw [hn]
        exact ⟨_, rfl, Nat.le_trans (Nat.min_le_right _ _) hle⟩
  obtain ⟨n, hn, hle⟩ := hsome
  rwa [hn]

/-- The least number of tokens that the part needs. -/
def partMinTokens : Part → Nat
  | .content content => contentMinTokens content
  | .element e => if e.isOptional then 0 else contentMinTokens e.content
  | .elements es => minTokens es
  | .branches bs => (branchesMinTokens bs).getD 0

theorem contentMinTokens_of_isTerminal {content : Content} (h : isTerminal content = true) :
    contentMinTokens content = 1 := by
  cases content <;> simp [isTerminal] at h <;> simp [contentMinTokens]

/-- No word of a part is shorter than what the part needs at least. -/
theorem partMinTokens_le (h : Derives v part word) : partMinTokens part ≤ word.length := by
  induction h with
  | terminal hterminal _ => exact Nat.le_of_eq (contentMinTokens_of_isTerminal hterminal)
  | @rule name word hword =>
    have hne : word ≠ [] := by
      rintro rfl
      exact v.expands_ne_nil name hword
    exact List.length_pos_iff.2 hne
  | branch hb _ ih => exact Nat.le_trans (branchesMinTokens_le hb) ih
  | @cons e es s t _ _ ihe ihes =>
    rw [List.length_append]
    exact Nat.add_le_add ihe ihes
  | plus _ _ ih _ =>
    rw [List.length_append]
    exact Nat.le_add_right_of_le ih
  | _ =>
    simp_all [partMinTokens, contentMinTokens, ElementOf.isOptional, Modifier.isOptional, minTokens]

/-- No word of a part in front of other tokens is. -/
theorem partMinTokens_le_length (h : Fits ls part word rest) : partMinTokens part ≤ word.length :=
  partMinTokens_le (derives_of_fits h)

end

end GrammarLab.Matcher
