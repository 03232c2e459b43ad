import GrammarLab.Proofs.Body.Coverage

/-!
# Legible structures

What is read from tokens is made of texts that the lexer would cut off again wherever they are
written with a blank, a modifier or nothing behind them. So the words of a written form are those
that were written.

    LegibleBranches bs → words (s.render) = wordsIn (alternativesScript s.alternatives)
-/

namespace GrammarLab.Body

open Text

/-- Names are made of word characters; literals and classes are closed at their last character and
not before. -/
def Lexeme.IsWhole (l : Lexeme) : Prop :=
  match l.kind with
  | .ident => ∃ c cs, l.text = c :: cs ∧ isWordStart c = true ∧ ∀ d ∈ cs, isWordChar d = true
  | .literal => ∃ cs, l.text = '\'' :: cs ∧ quotedReach '\'' cs = ⟨true, cs.length⟩
  | .charClass => ∃ cs, l.text = '[' :: cs ∧ quotedReach ']' cs = ⟨true, cs.length⟩
  | _ => True

mutual

/-- Names are what their contents are read from, and all texts are whole. -/
def Content.IsLegible : Content → Prop
  | .token name => Content.ofName name = .token name ∧ Lexeme.IsWhole ⟨.ident, name.toList⟩
  | .rule name => Content.ofName name = .rule name ∧ Lexeme.IsWhole ⟨.ident, name.toList⟩
  | .literal quoted => Lexeme.IsWhole ⟨.literal, quoted⟩
  | .charSet text => Lexeme.IsWhole ⟨.charClass, text⟩
  | .range first last => Lexeme.IsWhole ⟨.literal, first⟩ ∧ Lexeme.IsWhole ⟨.literal, last⟩
  | .group branches => LegibleBranches branches
  | .negated inner => inner.IsLegible
  | .wildcard => True
  | .endOfInput => True

def LegibleBranches : List (AlternativeOf Content) → Prop
  | [] => True
  | ⟨elements, _, _, _⟩ :: rest => LegibleElements elements ∧ LegibleBranches rest

def LegibleElements : List (ElementOf Content) → Prop
  | [] => True
  | ⟨content, _, _⟩ :: rest => content.IsLegible ∧ LegibleElements rest

end

/-! ## Whole texts -/

theorem kind_operatorAt (c : Char) (cs : List Char) :
    (operatorAt c cs).1 = .garbage ∨ ∃ s, (operatorAt c cs).1.spelled? = some s := by
  have hsingle : (single c).1 = .garbage ∨ ∃ s, (single c).1.spelled? = some s := by
    cases h : operator? c with
    | none => simp [single, h]
    | some k => exact .inr ⟨_, by simpa [single, h] using (spelled?_of_operator? h).1⟩
  cases cs with
  | nil => exact hsingle
  | cons d ds =>
    cases h : operatorPair? c d with
    | none => simpa [operatorAt, h] using hsingle
    | some k => exact .inr ⟨_, by simpa [operatorAt, h] using (spelled?_of_operatorPair? h).1⟩

theorem isWhole_of_garbage {l : Lexeme} (h : l.kind = .garbage) : l.IsWhole := by
  simp [Lexeme.IsWhole, h]

theorem isWhole_of_spelled {l : Lexeme} {s : List Char} (h : l.kind.spelled? = some s) :
    l.IsWhole := by
  obtain ⟨kind, text⟩ := l
  cases kind <;> simp_all [TokenKind.spelled?, Lexeme.IsWhole]

/-- What is closed where it ends was closed where it was cut off. -/
theorem quotedReach_closed_take {close : Char} {s : List Char}
    (h : (quotedReach close s).closed = true) :
    quotedReach close (s.take (quotedReach close s).length) =
      ⟨true, (s.take (quotedReach close s).length).length⟩ := by
  rw [quotedReach_take (Nat.le_refl _), List.length_take_of_le (length_quotedReach_le _ _), ← h]

theorem isWhole_leading (c : Char) (cs : List Char) :
    Lexeme.IsWhole ⟨(leading c cs).1, c :: cs.take (leading c cs).2⟩ := by
  unfold leading
  split
  · rename_i hc
    subst hc
    unfold delimited
    split
    · rename_i h
      exact ⟨_, rfl, quotedReach_closed_take h⟩
    · exact isWhole_of_garbage rfl
  split
  · rename_i hc
    subst hc
    unfold delimited
    split
    · rename_i h
      exact ⟨_, rfl, quotedReach_closed_take h⟩
    · exact isWhole_of_garbage rfl
  split
  · trivial
  split
  · split
    · trivial
    · unfold delimited
      split
      · trivial
      · exact isWhole_of_garbage rfl
    · exact isWhole_of_garbage rfl
  split
  · trivial
  split
  · rename_i hc
    refine ⟨c, _, rfl, hc, fun d hd => ?_⟩
    rw [take_length_takeWhile] at hd
    exact List.all_eq_true.1 List.all_takeWhile d hd
  · rcases kind_operatorAt c cs with hk | ⟨s, hk⟩
    · exact isWhole_of_garbage hk
    · exact isWhole_of_spelled hk

theorem Quotable.append {close : Char} {s t : List Char} (hs : Quotable close s)
    (ht : Quotable close t) : Quotable close (s ++ t) := by
  induction hs with
  | nil => exact ht
  | escaped hc _ ih => exact .escaped hc ih
  | plain h₁ h₂ _ ih => exact .plain h₁ h₂ ih

theorem quotedReach_of_quotable {close : Char} {s : List Char} (hclose : close ≠ '\\')
    (h : Quotable close s) : quotedReach close (s ++ [close]) = ⟨true, (s ++ [close]).length⟩ := by
  induction h with
  | nil => simp [quotedReach]
  | @escaped c s hc _ ih =>
    rw [List.cons_append, List.cons_append, quotedReach.eq_def]
    simp [hclose.symm, hc, ih, Reach.beyond]
    omega
  | @plain c s h₁ h₂ _ ih =>
    rw [List.cons_append, quotedReach.eq_def]
    simp [h₁, h₂, ih, Reach.beyond]
    omega

theorem isWhole_literal {s : List Char} (h : Quotable '\'' s) :
    Lexeme.IsWhole ⟨.literal, '\'' :: (s ++ ['\''])⟩ :=
  ⟨_, rfl, quotedReach_of_quotable (by decide) h⟩

theorem isWhole_charClass {s : List Char} (h : Quotable ']' s) :
    Lexeme.IsWhole ⟨.charClass, '[' :: (s ++ [']'])⟩ :=
  ⟨_, rfl, quotedReach_of_quotable (by decide) h⟩

/-- Joining makes no lexeme but garbage. -/
theorem mem_of_mem_joinGarbage {ls : List Lexeme} {l : Lexeme} (h : l ∈ joinGarbage ls)
    (hk : l.kind ≠ .garbage) : l ∈ ls := by
  induction ls with
  | nil => exact h
  | cons m ls ih =>
    rw [joinGarbage] at h
    cases hj : joinGarbage ls with
    | nil =>
      rw [hj] at h
      have hl : l = m := by simpa [Lexeme.joinTo] using h
      exact hl ▸ List.mem_cons_self
    | cons m' ms =>
      rw [hj] at h ih
      simp only [Lexeme.joinTo] at h
      split at h
      · rcases List.mem_cons.1 h with rfl | h
        · exact absurd rfl hk
        · exact List.mem_cons_of_mem m (ih (List.mem_cons_of_mem m' h))
      · rcases List.mem_cons.1 h with rfl | h
        · exact List.mem_cons_self
        · exact List.mem_cons_of_mem m (ih h)

/-- Tokens with whole texts. -/
def AllWhole (ts : List Token) : Prop := ∀ t ∈ ts, t.lexeme.IsWhole

theorem allWhole_significant (body : List Char) : AllWhole (significant body) := by
  intro t ht
  have hmem : t.lexeme ∈ wordsIn (joinGarbage (lexemes body)) := by
    rw [← map_lexeme_significant]
    exact List.mem_map_of_mem ht
  by_cases hk : t.lexeme.kind = .garbage
  · exact isWhole_of_garbage hk
  · exact forall_mem_lexemes isWhole_leading body _
      (mem_of_mem_joinGarbage (List.mem_filter.1 hmem).1 hk)

theorem AllWhole.of_suffix {ts us : List Token} (h : AllWhole us) (hs : ts <:+ us) : AllWhole ts :=
  fun t ht => h t (hs.subset ht)

/-! ## Words in front of a text -/

theorem quotedReach_append {close : Char} {s : List Char}
    (h : (quotedReach close s).closed = true) (t : List Char) :
    quotedReach close (s ++ t) = quotedReach close s := by
  fun_induction quotedReach close s with
  | case1 => simp at h
  | case2 cs =>
    rw [List.cons_append, quotedReach.eq_def]
    simp
  | case3 => simp at h
  | case4 => simp at h
  | case5 d ds hc hd ih =>
    rw [List.cons_append, List.cons_append, quotedReach.eq_def]
    simp only [hc, hd, if_false, if_true, ih h]
  | case6 c cs hc hb ih =>
    rw [List.cons_append, quotedReach.eq_def]
    simp only [hc, hb, if_false, ih h]

theorem words_closed {kind : TokenKind} {c close : Char} {cs s : List Char}
    (hlead : ∀ ds, leading c ds = delimited kind (quotedReach close ds))
    (hk : kind.isTrivia = false) (h : quotedReach close cs = ⟨true, cs.length⟩) :
    words (c :: (cs ++ s)) = ⟨kind, c :: cs⟩ :: words s := by
  refine words_append hk ?_
  rw [hlead, quotedReach_append (by rw [h]), h]
  rfl

theorem words_literal {quoted : List Char} (h : Lexeme.IsWhole ⟨.literal, quoted⟩) (s : List Char) :
    words (quoted ++ s) = ⟨.literal, quoted⟩ :: words s := by
  obtain ⟨cs, rfl, hcs⟩ := h
  exact words_closed (fun ds => by simp [leading]) rfl hcs

theorem words_charClass {text : List Char} (h : Lexeme.IsWhole ⟨.charClass, text⟩)
    (s : List Char) : words (text ++ s) = ⟨.charClass, text⟩ :: words s := by
  obtain ⟨cs, rfl, hcs⟩ := h
  exact words_closed (fun ds => by simp [leading]) rfl hcs

/-- A word character is none of those with which something else begins. -/
theorem leading_of_isWordStart {c : Char} (h : isWordStart c = true) (cs : List Char) :
    leading c cs = (.ident, (cs.takeWhile isWordChar).length) := by
  have hne : ∀ d, isWordStart d = false → c ≠ d := by
    rintro d hd rfl
    simp [h] at hd
  have hblank : isBlank c = false := by
    simp [isBlank, hne ' ' rfl, hne '\t' rfl, hne '\r' rfl, hne '\n' rfl, hne '\x0c' rfl]
  simp only [leading, if_neg (hne '\'' rfl), if_neg (hne '[' rfl), if_neg (hne '\x7b' rfl),
    if_neg (hne '/' rfl), hblank, Bool.false_eq_true, if_false, if_pos h]

theorem words_name {text s : List Char} (h : Lexeme.IsWhole ⟨.ident, text⟩)
    (hs : ∀ d ∈ s.head?, isWordChar d = false) :
    words (text ++ s) = ⟨.ident, text⟩ :: words s := by
  obtain ⟨c, cs, htext, hc, hcs⟩ := h
  obtain rfl : text = c :: cs := htext
  refine words_append rfl ?_
  have hstop : s.takeWhile isWordChar = [] := by
    cases s with
    | nil => rfl
    | cons d ds => simp [hs d rfl]
  rw [leading_of_isWordStart hc, List.takeWhile_append_of_pos hcs, hstop, List.append_nil]

theorem leading_of_operator? {c : Char} {k : TokenKind} (h : operator? c = some k)
    (cs : List Char) : leading c cs = operatorAt c cs := by
  by_cases hc : c ∈ ['(', ')', '|', '?', '*', '+', '~', '.', '#', '=', ',', ':', ';', '<', '>']
  · simp only [List.mem_cons, List.not_mem_nil, or_false] at hc
    repeat' rcases hc with hc | hc
    all_goals rfl
  · simp only [List.mem_cons, List.not_mem_nil, or_false, not_or] at hc
    simp [operator?, hc] at h

/-- An operator that the next character does not make longer. -/
theorem words_operator {c : Char} {k : TokenKind} {s : List Char} (h : operator? c = some k)
    (hs : ∀ d ∈ s.head?, operatorPair? c d = none) : words (c :: s) = ⟨k, [c]⟩ :: words s := by
  have hlead : leading c ([] ++ s) = (k, ([] : List Char).length) := by
    rw [leading_of_operator? h]
    cases s with
    | nil => simp [operatorAt, single, h]
    | cons d ds => simp [operatorAt, hs d rfl, single, h]
  exact words_append (spelled?_of_operator? h).2.1 hlead

theorem words_operatorPair {c d : Char} {j k : TokenKind} (s : List Char) (hc : operator? c = some j)
    (h : operatorPair? c d = some k) : words (c :: d :: s) = ⟨k, [c, d]⟩ :: words s := by
  have hlead : leading c ([d] ++ s) = (k, [d].length) := by
    rw [leading_of_operator? hc]
    simp [operatorAt, h]
  exact words_append (spelled?_of_operatorPair? h).2.1 hlead

/-! ## Words of written forms -/

/-- What may stand behind a content: a blank or a modifier, or nothing. -/
def FollowsContent (s : List Char) : Prop := ∀ c ∈ s.head?, c = ' ' ∨ c = '?' ∨ c = '*' ∨ c = '+'

/-- What may stand behind an element: a blank or nothing. -/
def FollowsElement (s : List Char) : Prop := ∀ c ∈ s.head?, c = ' '

theorem FollowsElement.followsContent {s : List Char} (h : FollowsElement s) : FollowsContent s :=
  fun c hc => .inl (h c hc)

theorem followsElement_cons (s : List Char) : FollowsElement (' ' :: s) := by
  simp [FollowsElement]

theorem words_modifier (m : Modifier) (greedy : Bool) {s : List Char} (hs : FollowsElement s) :
    words (textOf (modifierScript m greedy) ++ s) = modifierScript m greedy ++ words s := by
  have hone {c : Char} {k : TokenKind} (h : operator? c = some k)
      (hblank : operatorPair? c ' ' = none) : words (c :: s) = ⟨k, [c]⟩ :: words s :=
    words_operator h fun d hd => by rw [hs d hd]; exact hblank
  cases m <;> cases greedy
  · exact hone rfl rfl
  · rfl
  · exact words_operatorPair s rfl rfl
  · exact hone rfl rfl
  · exact words_operatorPair s rfl rfl
  · exact hone rfl rfl
  · exact words_operatorPair s rfl rfl
  · exact hone rfl rfl

theorem followsContent_modifier (m : Modifier) (greedy : Bool) {s : List Char}
    (hs : FollowsElement s) : FollowsContent (textOf (modifierScript m greedy) ++ s) := by
  cases m <;> cases greedy
  case once.true => exact hs.followsContent
  all_goals simp [FollowsContent, modifierScript, textOf]

theorem FollowsContent.not_isWordChar {s : List Char} (hs : FollowsContent s) :
    ∀ d ∈ s.head?, isWordChar d = false := by
  intro d hd
  rcases hs d hd with rfl | rfl | rfl | rfl <;> rfl

mutual

theorem words_content : ∀ c : Content, c.IsLegible → ∀ s, FollowsContent s →
    words (textOf c.script ++ s) = wordsIn c.script ++ words s
  | .token name, h, s, hs => by
    rw [Content.script, textOf_cons, textOf, List.flatMap_nil, List.append_nil]
    exact words_name h.2 hs.not_isWordChar
  | .rule name, h, s, hs => by
    rw [Content.script, textOf_cons, textOf, List.flatMap_nil, List.append_nil]
    exact words_name h.2 hs.not_isWordChar
  | .literal quoted, h, s, _ => by
    rw [Content.script, textOf_cons, textOf, List.flatMap_nil, List.append_nil]
    exact words_literal h s
  | .charSet text, h, s, _ => by
    rw [Content.script, textOf_cons, textOf, List.flatMap_nil, List.append_nil]
    exact words_charClass h s
  | .range first last, h, s, _ => by
    have htext : textOf (Content.range first last).script ++ s =
        first ++ ('.' :: '.' :: (last ++ s)) := by
      simp [Content.script, textOf]
    rw [htext, words_literal h.1, words_operatorPair _ rfl rfl, words_literal h.2]
    rfl
  | .group branches, h, s, _ => by
    have htext : textOf (Content.group branches).script ++ s =
        '(' :: (textOf (branchesScript true branches) ++ ' ' :: ')' :: s) := by
      simp [Content.script, textOf, openLexeme, closeLexeme, space]
    rw [htext, words_operator (k := .parenOpen) rfl (by simp [operatorPair?]),
      words_branches true branches h _ (followsElement_cons _), words_blank rfl,
      words_operator (k := .parenClose) rfl (by simp [operatorPair?]), wordsIn_group]
    simp [openLexeme, closeLexeme]
  | .wildcard, _, s, hs => by
    refine words_operator rfl fun d hd => ?_
    rcases hs d hd with rfl | rfl | rfl | rfl <;> rfl
  | .negated inner, h, s, hs => by
    rw [Content.script, textOf_cons, List.append_assoc, List.singleton_append]
    rw [words_operator (k := .tilde) rfl (by simp [operatorPair?]), words_content inner h s hs]
    rfl
  | .endOfInput, _, s, hs =>
    words_name ⟨'E', ['O', 'F'], rfl, rfl, List.all_eq_true.1 rfl⟩ hs.not_isWordChar

theorem words_branches (first : Bool) : ∀ bs : List (AlternativeOf Content), LegibleBranches bs →
    ∀ s, FollowsElement s →
      words (textOf (branchesScript first bs) ++ s) = wordsIn (branchesScript first bs) ++ words s
  | [], _, s, _ => rfl
  | ⟨elements, label, commands, offset⟩ :: rest, h, s, hs => by
    -- a branch begins with a blank, and so does what stands behind it
    have hrest : FollowsElement (textOf (branchesScript false rest) ++ s) := by
      cases rest with
      | nil => exact hs
      | cons b bs => exact followsElement_cons _
    have helements : words (textOf (if elements.isEmpty then [] else
        space :: elementsScript elements) ++ (textOf (branchesScript false rest) ++ s)) =
          wordsIn (elementsScript elements) ++
            (wordsIn (branchesScript false rest) ++ words s) := by
      rw [← words_branches false rest h.2 s hs]
      cases helem : elements.isEmpty with
      | true =>
        obtain rfl := List.isEmpty_iff.1 helem
        rfl
      | false =>
        rw [if_neg (by simp), textOf_cons]
        exact (words_blank rfl _).trans (words_elements elements h.1 _ hrest)
    have htrue : words (textOf (branchesScript true (⟨elements, label, commands, offset⟩ :: rest)) ++
        s) = wordsIn (branchesScript true (⟨elements, label, commands, offset⟩ :: rest)) ++
          words s := by
      rw [wordsIn_branchesScript_cons, List.append_assoc, ← helements, branchesScript, if_pos rfl,
        List.nil_append, textOf_append, List.append_assoc]
    cases first with
    | true => exact htrue
    | false =>
      have htext : textOf (branchesScript false (⟨elements, label, commands, offset⟩ :: rest)) ++ s =
          ' ' :: '|' ::
            (textOf (branchesScript true (⟨elements, label, commands, offset⟩ :: rest)) ++ s) := by
        simp [branchesScript, textOf, space, pipeLexeme]
      rw [htext, words_blank rfl, words_operator (k := .pipe) rfl (by simp [operatorPair?]), htrue,
        wordsIn_branchesScript_false]
      rfl

theorem words_elements : ∀ es : List (ElementOf Content), LegibleElements es →
    ∀ s, FollowsElement s →
      words (textOf (elementsScript es) ++ s) = wordsIn (elementsScript es) ++ words s
  | [], _, s, _ => rfl
  | ⟨content, modifier, greedy⟩ :: rest, h, s, hs => by
    have hrest : FollowsElement
        (textOf (if rest.isEmpty then [] else space :: elementsScript rest) ++ s) := by
      cases rest with
      | nil => exact hs
      | cons e es => exact followsElement_cons _
    have hwords : words (textOf (if rest.isEmpty then [] else space :: elementsScript rest) ++ s) =
        wordsIn (elementsScript rest) ++ words s := by
      cases hempty : rest.isEmpty with
      | true =>
        obtain rfl := List.isEmpty_iff.1 hempty
        rfl
      | false =>
        rw [if_neg (by simp), textOf_cons]
        exact (words_blank rfl _).trans (words_elements rest h.2 s hs)
    rw [wordsIn_elementsScript_cons, ElementOf.script, wordsIn_append, wordsIn_modifierScript,
      elementsScript, textOf_append, textOf_append, List.append_assoc, List.append_assoc,
      words_content content h.1 _ (followsContent_modifier modifier greedy hrest),
      words_modifier modifier greedy hrest, hwords]
    simp only [List.append_assoc]

end

theorem words_alternatives : ∀ bs : List Branch, LegibleBranches bs →
    words (textOf (alternativesScript bs)) = wordsIn (alternativesScript bs)
  | [], _ => words_nil
  | [b], h => by
    have hone := words_elements b.elements h.1 [] (by simp [FollowsElement])
    rwa [List.append_nil, words_nil, List.append_nil] at hone
  | b :: b' :: bs, h => by
    have htext : textOf (alternativesScript (b :: b' :: bs)) =
        textOf (elementsScript b.elements) ++
          ' ' :: '|' :: ' ' :: textOf (alternativesScript (b' :: bs)) := by
      rw [alternativesScript, textOf_append, textOf_append, List.append_assoc]
      · rfl
      · simp
    rw [htext, words_elements b.elements h.1 _ (followsElement_cons _), words_blank rfl,
      words_operator (k := .pipe) rfl (by simp [operatorPair?]), words_blank rfl,
      words_alternatives (b' :: bs) h.2, wordsIn_alternativesScript, wordsIn_alternativesScript,
      wordsIn_branchesScript_cons b, wordsIn_branchesScript_false]
    rfl

/-- The tokens of a legible written form are its words. -/
theorem map_lexeme_significant_render_of_legible {s : Structure} (h : LegibleBranches s.alternatives) :
    (significant s.render).map Token.lexeme = wordsIn (branchesScript true s.alternatives) := by
  have hwords : words s.render = wordsIn (alternativesScript s.alternatives) := by
    rw [← textOf_alternativesScript]
    exact words_alternatives s.alternatives h
  rw [map_lexeme_significant_of_words, hwords, wordsIn_alternativesScript]
  intro l hl
  rw [hwords] at hl
  obtain ⟨hmem, ht⟩ := List.mem_filter.1 hl
  rcases isWritten_alternativesScript _ l hmem with rfl | ⟨-, hg⟩
  · simp [space, TokenKind.isTrivia] at ht
  · exact hg

end GrammarLab.Body
