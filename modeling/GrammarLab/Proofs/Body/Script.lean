import GrammarLab.Body.Structure
import GrammarLab.Proofs.Body.Lexer

/-!
# Lexemes of written structures

The written form of a structure as lexemes with single blanks between them.

    textOf c.script = c.render
    wordsIn (elementsScript (e :: es)) = wordsIn e.script ++ wordsIn (elementsScript es)
-/

namespace GrammarLab.Body

/-- The lexemes of a modifier. -/
def modifierScript : Modifier → Bool → List Lexeme
  | .once, true => []
  | .once, false => [⟨.question, ['?']⟩]
  | .optional, true => [⟨.question, ['?']⟩]
  | .optional, false => [⟨.questionQuestion, ['?', '?']⟩]
  | .zeroOrMore, true => [⟨.star, ['*']⟩]
  | .zeroOrMore, false => [⟨.starQuestion, ['*', '?']⟩]
  | .oneOrMore, true => [⟨.plus, ['+']⟩]
  | .oneOrMore, false => [⟨.plusQuestion, ['+', '?']⟩]

def pipeLexeme : Lexeme := ⟨.pipe, ['|']⟩

def openLexeme : Lexeme := ⟨.parenOpen, ['(']⟩

def closeLexeme : Lexeme := ⟨.parenClose, [')']⟩

mutual

def Content.script : Content → List Lexeme
  | .token name => [⟨.ident, name.toList⟩]
  | .rule name => [⟨.ident, name.toList⟩]
  | .literal quoted => [⟨.literal, quoted⟩]
  | .charSet text => [⟨.charClass, text⟩]
  | .range first last => [⟨.literal, first⟩, ⟨.range, ['.', '.']⟩, ⟨.literal, last⟩]
  | .group branches => openLexeme :: branchesScript true branches ++ [space, closeLexeme]
  | .wildcard => [⟨.dot, ['.']⟩]
  | .negated inner => ⟨.tilde, ['~']⟩ :: inner.script
  | .endOfInput => [⟨.ident, GrammarLab.endOfInput.toList⟩]

/-- The alternatives of a group, with a pipe before each but the first. -/
def branchesScript (first : Bool) : List (AlternativeOf Content) → List Lexeme
  | [] => []
  | ⟨elements, _, _, _⟩ :: rest =>
    (if first then [] else [space, pipeLexeme]) ++
      (if elements.isEmpty then [] else space :: elementsScript elements) ++
      branchesScript false rest

def elementsScript : List (ElementOf Content) → List Lexeme
  | [] => []
  | ⟨content, modifier, greedy⟩ :: rest =>
    content.script ++ modifierScript modifier greedy ++
      (if rest.isEmpty then [] else space :: elementsScript rest)

end

def ElementOf.script (e : Element) : List Lexeme :=
  e.content.script ++ modifierScript e.modifier e.greedy

/-- The alternatives of a body. -/
def alternativesScript : List Branch → List Lexeme
  | [] => []
  | [b] => elementsScript b.elements
  | b :: bs => elementsScript b.elements ++ [space, pipeLexeme, space] ++ alternativesScript bs

/-! ## Texts -/

theorem textOf_modifierScript (m : Modifier) (greedy : Bool) :
    textOf (modifierScript m greedy) = m.symbol ++ (if greedy then [] else ['?']) := by
  cases m <;> cases greedy <;> rfl

mutual

theorem textOf_script : ∀ c : Content, textOf c.script = c.render
  | .token name => by simp [Content.script, Content.render, textOf]
  | .rule name => by simp [Content.script, Content.render, textOf]
  | .literal quoted => by simp [Content.script, Content.render, textOf]
  | .charSet text => by simp [Content.script, Content.render, textOf]
  | .range first last => by simp [Content.script, Content.render, textOf]
  | .group branches => by
    rw [Content.script, Content.render, textOf_append, textOf_cons,
      textOf_branchesScript true branches]
    rfl
  | .wildcard => rfl
  | .negated inner => by
    rw [Content.script, Content.render, textOf_cons, textOf_script inner]
    rfl
  | .endOfInput => by simp [Content.script, Content.render, textOf]

theorem textOf_branchesScript (first : Bool) : ∀ bs : List (AlternativeOf Content),
    textOf (branchesScript first bs) = renderBranches first bs
  | [] => rfl
  | ⟨elements, _, _, _⟩ :: rest => by
    rw [branchesScript, renderBranches, textOf_append, textOf_append,
      textOf_branchesScript false rest]
    congr 2
    · cases first <;> rfl
    · cases h : elements.isEmpty with
      | true => rfl
      | false =>
        simp only [Bool.false_eq_true, if_false]
        rw [textOf_cons, textOf_elementsScript elements]
        rfl

theorem textOf_elementsScript : ∀ es : List (ElementOf Content),
    textOf (elementsScript es) = renderElements es
  | [] => rfl
  | ⟨content, modifier, greedy⟩ :: rest => by
    have hrest : textOf (if rest.isEmpty then [] else space :: elementsScript rest) =
        if rest.isEmpty then [] else ' ' :: renderElements rest := by
      cases rest.isEmpty with
      | true => rfl
      | false =>
        simp only [Bool.false_eq_true, if_false]
        rw [textOf_cons, textOf_elementsScript rest]
        rfl
    rw [elementsScript, renderElements, textOf_append, textOf_append, textOf_modifierScript,
      textOf_script content, hrest]
    simp only [List.append_assoc]

end

theorem textOf_alternativesScript (s : Structure) :
    textOf (alternativesScript s.alternatives) = s.render := by
  rw [Structure.render]
  induction s.alternatives with
  | nil => rfl
  | cons b bs ih =>
    cases bs with
    | nil => simp [alternativesScript, textOf_elementsScript, AlternativeOf.render]
    | cons b' bs =>
      rw [alternativesScript, textOf_append, textOf_append, textOf_elementsScript, ih]
      · simp [List.intercalate, AlternativeOf.render, textOf, space, pipeLexeme]
      · simp

/-! ## Words -/

theorem modifierScript_kinds (m : Modifier) (greedy : Bool) :
    ∀ l ∈ modifierScript m greedy, l.kind.isTrivia = false ∧ l.kind ≠ .garbage := by
  cases m <;> cases greedy <;> decide

/-- What may stand in a script: single blanks, and words that are no garbage. -/
def Lexeme.IsWritten (l : Lexeme) : Prop := l = space ∨ l.kind.isTrivia = false ∧ l.kind ≠ .garbage

mutual

theorem isWritten_script : ∀ c : Content, ∀ l ∈ c.script, l.IsWritten
  | .token _ => by simp [Content.script, Lexeme.IsWritten, TokenKind.isTrivia]
  | .rule _ => by simp [Content.script, Lexeme.IsWritten, TokenKind.isTrivia]
  | .literal _ => by simp [Content.script, Lexeme.IsWritten, TokenKind.isTrivia]
  | .charSet _ => by simp [Content.script, Lexeme.IsWritten, TokenKind.isTrivia]
  | .range _ _ => by simp [Content.script, Lexeme.IsWritten, TokenKind.isTrivia]
  | .group branches => by
    intro l hl
    rw [Content.script] at hl
    simp only [List.cons_append, List.mem_cons, List.mem_append, List.not_mem_nil, or_false] at hl
    rcases hl with rfl | hl | rfl | rfl
    · exact .inr ⟨rfl, by decide⟩
    · exact isWritten_branchesScript true branches l hl
    · exact .inl rfl
    · exact .inr ⟨rfl, by decide⟩
  | .wildcard => by simp [Content.script, Lexeme.IsWritten, TokenKind.isTrivia]
  | .negated inner => by
    rw [Content.script]
    exact List.forall_mem_cons.2 ⟨.inr ⟨rfl, nofun⟩, isWritten_script inner⟩
  | .endOfInput => by simp [Content.script, Lexeme.IsWritten, TokenKind.isTrivia]

theorem isWritten_branchesScript (first : Bool) : ∀ bs : List (AlternativeOf Content),
    ∀ l ∈ branchesScript first bs, l.IsWritten
  | [] => by simp [branchesScript]
  | ⟨elements, _, _, _⟩ :: rest => by
    intro l hl
    rw [branchesScript, List.mem_append, List.mem_append] at hl
    rcases hl with (hl | hl) | hl
    · cases first with
      | true => simp at hl
      | false =>
        simp only [Bool.false_eq_true, if_false, List.mem_cons, List.not_mem_nil, or_false] at hl
        rcases hl with rfl | rfl
        · exact .inl rfl
        · exact .inr ⟨rfl, by decide⟩
    · split at hl
      · simp at hl
      · rcases List.mem_cons.1 hl with rfl | hl
        · exact .inl rfl
        · exact isWritten_elementsScript elements l hl
    · exact isWritten_branchesScript false rest l hl

theorem isWritten_elementsScript : ∀ es : List (ElementOf Content),
    ∀ l ∈ elementsScript es, l.IsWritten
  | [] => by simp [elementsScript]
  | ⟨content, modifier, greedy⟩ :: rest => by
    intro l hl
    rw [elementsScript, List.mem_append, List.mem_append] at hl
    rcases hl with (hl | hl) | hl
    · exact isWritten_script content l hl
    · exact .inr (modifierScript_kinds modifier greedy l hl)
    · split at hl
      · simp at hl
      · rcases List.mem_cons.1 hl with rfl | hl
        · exact .inl rfl
        · exact isWritten_elementsScript rest l hl

end

theorem isWritten_alternativesScript : ∀ bs : List Branch, ∀ l ∈ alternativesScript bs, l.IsWritten
  | [] => by simp [alternativesScript]
  | [b] => isWritten_elementsScript b.elements
  | b :: b' :: bs => by
    intro l hl
    rw [alternativesScript, List.mem_append, List.mem_append] at hl
    · rcases hl with (hl | hl) | hl
      · exact isWritten_elementsScript b.elements l hl
      · simp only [List.mem_cons, List.not_mem_nil, or_false] at hl
        rcases hl with rfl | rfl | rfl
        · exact .inl rfl
        · exact .inr ⟨rfl, by decide⟩
        · exact .inl rfl
      · exact isWritten_alternativesScript (b' :: bs) l hl
    · simp

theorem wordsIn_modifierScript (m : Modifier) (greedy : Bool) :
    wordsIn (modifierScript m greedy) = modifierScript m greedy := by
  cases m <;> cases greedy <;> rfl

theorem wordsIn_elementsScript_cons (e : Element) (es : List Element) :
    wordsIn (elementsScript (e :: es)) = wordsIn e.script ++ wordsIn (elementsScript es) := by
  rw [elementsScript, wordsIn_append, ElementOf.script]
  cases es with
  | nil => rfl
  | cons e es => rfl

theorem wordsIn_elementsScript_append (es fs : List Element) :
    wordsIn (elementsScript (es ++ fs)) =
      wordsIn (elementsScript es) ++ wordsIn (elementsScript fs) := by
  induction es with
  | nil => rfl
  | cons e es ih =>
    rw [List.cons_append, wordsIn_elementsScript_cons, ih, wordsIn_elementsScript_cons,
      List.append_assoc]

theorem wordsIn_branchesScript_cons (b : Branch) (bs : List Branch) :
    wordsIn (branchesScript true (b :: bs)) =
      wordsIn (elementsScript b.elements) ++ wordsIn (branchesScript false bs) := by
  obtain ⟨elements, _, _, _⟩ := b
  rw [branchesScript, wordsIn_append, if_pos rfl, List.nil_append]
  cases elements with
  | nil => rfl
  | cons e es => rfl

theorem wordsIn_branchesScript_false (b : Branch) (bs : List Branch) :
    wordsIn (branchesScript false (b :: bs)) =
      pipeLexeme :: wordsIn (branchesScript true (b :: bs)) := by
  obtain ⟨elements, _, _, _⟩ := b
  rw [branchesScript, branchesScript, wordsIn_append, wordsIn_append, wordsIn_append,
    wordsIn_append, List.append_assoc, List.append_assoc]
  rfl

theorem wordsIn_branchesScript_append {bs cs : List Branch} (hb : bs ≠ []) (hc : cs ≠ []) :
    wordsIn (branchesScript true (bs ++ cs)) =
      wordsIn (branchesScript true bs) ++ pipeLexeme :: wordsIn (branchesScript true cs) := by
  induction bs with
  | nil => exact absurd rfl hb
  | cons b bs ih =>
    rw [List.cons_append, wordsIn_branchesScript_cons, wordsIn_branchesScript_cons]
    cases bs with
    | nil =>
      obtain ⟨c, cs, rfl⟩ := List.exists_cons_of_ne_nil hc
      rw [List.nil_append, wordsIn_branchesScript_false]
      simp [branchesScript, wordsIn]
    | cons b' bs =>
      rw [List.cons_append, wordsIn_branchesScript_false, ← List.cons_append, ih (by simp),
        wordsIn_branchesScript_false]
      simp

theorem wordsIn_group (bs : List Branch) :
    wordsIn (Content.group bs).script =
      openLexeme :: wordsIn (branchesScript true bs) ++ [closeLexeme] := by
  rw [Content.script, wordsIn_append]
  rfl

theorem wordsIn_alternativesScript (bs : List Branch) :
    wordsIn (alternativesScript bs) = wordsIn (branchesScript true bs) := by
  induction bs with
  | nil => rfl
  | cons b bs ih =>
    cases bs with
    | nil => rw [wordsIn_branchesScript_cons]; simp [alternativesScript, branchesScript, wordsIn]
    | cons b' bs =>
      rw [wordsIn_branchesScript_cons, wordsIn_branchesScript_false, ← ih, alternativesScript,
        wordsIn_append, wordsIn_append, List.append_assoc]
      · rfl
      · simp

end GrammarLab.Body
