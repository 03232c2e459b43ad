import GrammarLab.Pattern.Spelling
import GrammarLab.Proofs.Body.Script
import GrammarLab.Proofs.Pattern.ClassText
import GrammarLab.Proofs.Pattern.Meaning

/-!
# The text of sets

A class, a range of literals or a negation becomes the text of a class. It depends on the texts of
its own tokens alone, and the tokens behind it are left.

    setMembers (used ++ c :: rest) = .ok (s, rest)         when `c` is the first `)`
-/

namespace GrammarLab.Pattern

open Body Regex

/-- What may stand behind the opening of a class. -/
def ClassInside (s : List Char) : Prop := Inside s ∧ s.head? ≠ some '^'

/-- The text of a class that has a closing bracket, or of the complement of nothing. -/
def ClassWhole (s : List Char) : Prop :=
  (∃ body, s = '[' :: body ++ [']'] ∧ Inside body ∧ body ≠ [] ∧ body ≠ ['^']) ∨
    s = ['[', '^', ']']

/-! ## Lemmas -/

theorem bind_eq_ok {ε α β : Type} {x : Except ε α} {f : α → Except ε β} {b : β} :
    (x >>= f) = .ok b ↔ ∃ a, x = .ok a ∧ f a = .ok b := by
  cases x with
  | error e => simp [bind, Except.bind]
  | ok a => simp [bind, Except.bind]

theorem ClassInside.append {s t : List Char} (hs : ClassInside s) (ht : ClassInside t) :
    ClassInside (s ++ t) := by
  refine ⟨hs.1.append ht.1, ?_⟩
  cases s with
  | nil => exact ht.2
  | cons c s => exact hs.2

theorem classInside_charText (c : Char) : ClassInside (charText c) := by
  have h := head?_charText c []
  rw [List.append_nil] at h
  exact ⟨inside_charText c, h⟩

theorem emptyClass_eq : emptyClass =
    '[' :: ('^' :: '\\' :: 'x' :: ['0', '0', '-'] ++
      '\\' :: 'x' :: ['\x7b', '1', '0', 'F', 'F', 'F', 'F', '\x7d']) ++ [']'] := by
  decide +kernel

theorem classWhole_emptyClass : ClassWhole emptyClass := by
  rw [emptyClass_eq]
  refine .inl ⟨_, rfl, ?_, List.cons_ne_nil _ _, ?_⟩
  · have hzero : Inside ['0', '0', '-'] := .of_plain (by decide)
    have hpoint : Inside ['\x7b', '1', '0', 'F', 'F', 'F', 'F', '\x7d'] :=
      .of_plain (by decide)
    exact .plain (by decide) (by decide) (.append (.escaped hzero) (.escaped hpoint))
  · intro h
    exact absurd (List.cons.inj h).2 (List.cons_ne_nil _ _)

theorem classWhole_classOf {s : List Char} (h : ClassInside s) : ClassWhole (classOf s) := by
  unfold classOf
  split
  · exact classWhole_emptyClass
  · rename_i hne
    left
    refine ⟨s, rfl, h.1, by simpa using hne, ?_⟩
    rintro rfl
    exact h.2 rfl

theorem classWhole_negatedClassOf {s : List Char} (h : Inside s) :
    ClassWhole (negatedClassOf s) := by
  cases s with
  | nil => exact .inr rfl
  | cons c s =>
    left
    exact ⟨'^' :: c :: s, rfl, .plain (by decide) (by decide) h, by simp, by simp⟩

/-! ## Tokens -/

theorem classInside_of_classBody {t : Token} {s : List Char} (hr : t.lexeme.Regular)
    (hk : t.kind = .charClass) (h : classBody t = .ok s) : ClassInside s := by
  obtain ⟨body, hbody, hin⟩ := hr.bracketed hk
  have htext : (t.text.drop 1).dropLast = body := by
    have : t.text = '[' :: body ++ [']'] := hbody
    rw [this]
    simp
  rw [classBody, htext] at h
  split at h
  · rename_i s' hs
    obtain rfl := Except.ok.inj h
    exact inside_of_classText? hs (.inl hin)
  · simp at h

theorem classBody_congr {t u : Token} (h : t.lexeme = u.lexeme) : classBody t = classBody u := by
  have htext : t.text = u.text := congrArg Lexeme.text h
  simp only [classBody, Token.name, htext]

theorem singleChar_congr {t u : Token} (h : t.lexeme = u.lexeme) : singleChar t = singleChar u := by
  have htext : t.text = u.text := congrArg Lexeme.text h
  simp only [singleChar, Token.name, htext]

theorem rangeText_congr {t u t' u' : Token} (h : t.lexeme = t'.lexeme) (h' : u.lexeme = u'.lexeme) :
    rangeText t u = rangeText t' u' := by
  rw [rangeText, rangeText, singleChar_congr h, singleChar_congr h']

theorem classInside_of_rangeText {t u : Token} {s : List Char} (h : rangeText t u = .ok s) :
    ClassInside s := by
  obtain ⟨lo, -, h⟩ := bind_eq_ok.1 h
  obtain ⟨hi, -, h⟩ := bind_eq_ok.1 h
  obtain rfl := Except.ok.inj h
  refine ((classInside_charText lo).append ⟨?_, by simp⟩).append (classInside_charText hi)
  exact .plain (by decide) (by decide) .nil

/-- No range begins with a token that stands in front of the others. -/
def NoRange (ts : List Token) : Prop := ∀ t ∈ ts.head?, t.kind ≠ .range

theorem rangeEnd?_of_noRange {ts : List Token} (h : NoRange ts) : rangeEnd? ts = none := by
  match ts with
  | [] => rfl
  | [_] => rfl
  | op :: last :: rest =>
    have hop : op.kind ≠ .range := h op (by simp)
    simp [rangeEnd?, hop]

theorem rangeEnd?_range {op last : Token} (h₁ : op.kind = .range) (h₂ : last.kind = .literal)
    (rest : List Token) : rangeEnd? (op :: last :: rest) = some (last, rest) := by
  simp [rangeEnd?, h₁, h₂]

theorem rangeEnd?_eq_some {ts rest : List Token} {last : Token}
    (h : rangeEnd? ts = some (last, rest)) :
    ∃ op, ts = op :: last :: rest ∧ op.kind = .range ∧ last.kind = .literal := by
  cases ts with
  | nil => simp [rangeEnd?] at h
  | cons op ts =>
    cases ts with
    | nil => simp [rangeEnd?] at h
    | cons l ts =>
      simp only [rangeEnd?] at h
      split at h
      · rename_i hk
        simp only [Bool.and_eq_true, decide_eq_true_eq] at hk
        obtain ⟨rfl, rfl⟩ := Prod.mk.inj (Option.some.inj h)
        exact ⟨op, rfl, hk⟩
      · simp at h

/-- Behind a list of tokens, a closing parenthesis begins no range with the token in front. -/
theorem rangeEnd?_close {used used' : List Token} {c c' : Token} {rest : List Token}
    (rest' : List Token) (hu : used'.map Token.lexeme = used.map Token.lexeme)
    (hc' : c'.kind = .parenClose) (h : rangeEnd? (used ++ c :: rest) = none) :
    rangeEnd? (used' ++ c' :: rest') = none := by
  cases used with
  | nil =>
    obtain rfl := List.map_eq_nil_iff.1 hu
    exact rangeEnd?_of_noRange (by simp [NoRange, hc'])
  | cons t us =>
    rw [List.map_cons, List.map_eq_cons_iff] at hu
    obtain ⟨t', us', rfl, ht, hus⟩ := hu
    have h₁ : t'.kind = t.kind := congrArg Lexeme.kind ht
    cases us with
    | nil =>
      obtain rfl := List.map_eq_nil_iff.1 hus
      simp [rangeEnd?, hc']
    | cons u vs =>
      rw [List.map_cons, List.map_eq_cons_iff] at hus
      obtain ⟨u', vs', rfl, hu, -⟩ := hus
      have h₂ : u'.kind = u.kind := congrArg Lexeme.kind hu
      simp only [List.cons_append, rangeEnd?, h₁, h₂] at h ⊢
      split at h
      · simp at h
      · rename_i hk
        rw [if_neg hk]

/-- A literal inside a set is read the same up to the closing parenthesis. -/
theorem exists_of_literalMember {t : Token} {ts rest : List Token} {s : List Char}
    (h : literalMember t ts = .ok (s, rest)) :
    ClassInside s ∧ ∃ used, ts = used ++ rest ∧
      (∀ u ∈ used, u.kind ≠ .parenOpen ∧ u.kind ≠ .parenClose) ∧
      ∀ t' used' mid rest', t'.lexeme = t.lexeme →
        used'.map Token.lexeme = used.map Token.lexeme →
        (rangeEnd? rest = none → rangeEnd? (mid ++ rest') = none) →
        literalMember t' (used' ++ (mid ++ rest')) = .ok (s, mid ++ rest') := by
  unfold literalMember at h
  split at h
  · rename_i last behind hr
    obtain ⟨x, hx, h⟩ := bind_eq_ok.1 h
    simp only [pure, Except.pure, Except.ok.injEq, Prod.mk.injEq] at h
    obtain ⟨rfl, rfl⟩ := h
    obtain ⟨op, rfl, hop, hlast⟩ := rangeEnd?_eq_some hr
    refine ⟨classInside_of_rangeText hx, [op, last], rfl, by simp [hop, hlast], ?_⟩
    intro t' used' mid rest' ht hu _
    simp only [List.map_cons, List.map_nil, List.map_eq_cons_iff, List.map_eq_nil_iff] at hu
    obtain ⟨op', _, rfl, ho, last', _, rfl, hl, rfl⟩ := hu
    have h₁ : op'.kind = .range := (congrArg Lexeme.kind ho).trans hop
    have h₂ : last'.kind = .literal := (congrArg Lexeme.kind hl).trans hlast
    show literalMember t' (op' :: last' :: (mid ++ rest')) = _
    simp only [literalMember, rangeEnd?_range h₁ h₂, rangeText_congr ht hl, hx]
    rfl
  · rename_i hr
    obtain ⟨x, hx, h⟩ := bind_eq_ok.1 h
    simp only [pure, Except.pure, Except.ok.injEq, Prod.mk.injEq] at h
    obtain ⟨rfl, rfl⟩ := h
    refine ⟨classInside_charText x, [], rfl, by simp, ?_⟩
    intro t' used' mid rest' ht hu hmid
    obtain rfl := List.map_eq_nil_iff.1 hu
    simp only [List.nil_append, literalMember, hmid hr, singleChar_congr ht, hx]
    rfl

/-- The members of a set end at the first closing parenthesis. -/
theorem exists_of_setMembers {ts rest : List Token} {s : List Char}
    (hts : ∀ t ∈ ts, t.lexeme.Regular) (h : setMembers ts = .ok (s, rest)) :
    ClassInside s ∧ ∃ used c, ts = used ++ c :: rest ∧ c.kind = .parenClose ∧
      (∀ t ∈ used, t.kind ≠ .parenOpen ∧ t.kind ≠ .parenClose) ∧
      ∀ used' c' rest', used'.map Token.lexeme = used.map Token.lexeme →
        c'.kind = .parenClose → setMembers (used' ++ c' :: rest') = .ok (s, rest') := by
  fun_induction setMembers ts generalizing s rest with
  | case1 => simp at h
  | case2 t ts hk =>
    simp only [Except.ok.injEq, Prod.mk.injEq] at h
    obtain ⟨rfl, rfl⟩ := h
    refine ⟨⟨.nil, by simp⟩, [], t, rfl, hk, by simp, ?_⟩
    intro used' c' rest' hu hc'
    obtain rfl := List.map_eq_nil_iff.1 hu
    rw [List.nil_append, setMembers, if_pos hc']
  | case3 t ts hclose hk ih =>
    obtain ⟨hs, used, c, rfl, hc, hused, hmore⟩ := ih (List.forall_mem_cons.1 hts).2 h
    refine ⟨hs, t :: used, c, rfl, hc, List.forall_mem_cons.2 ⟨by simp [hk], hused⟩, ?_⟩
    intro used' c' rest' hu hc'
    rw [List.map_cons, List.map_eq_cons_iff] at hu
    obtain ⟨t', us', rfl, ht, hus⟩ := hu
    have hk' : t'.kind = .pipe := (congrArg Lexeme.kind ht).trans hk
    rw [List.cons_append, setMembers, if_neg (by simp [hk']), if_pos hk', hmore us' c' rest' hus hc']
  | case4 t ts hclose hpipe hk ih =>
    obtain ⟨x, hx, h⟩ := bind_eq_ok.1 h
    obtain ⟨⟨more, rest'⟩, hm, h⟩ := bind_eq_ok.1 h
    simp only [pure, Except.pure, Except.ok.injEq, Prod.mk.injEq] at h
    obtain ⟨rfl, rfl⟩ := h
    obtain ⟨ht, hts⟩ := List.forall_mem_cons.1 hts
    obtain ⟨hs, used, c, rfl, hc, hused, hmore⟩ := ih hts hm
    refine ⟨(classInside_of_classBody ht hk hx).append hs, t :: used, c, rfl, hc,
      List.forall_mem_cons.2 ⟨by simp [hk], hused⟩, ?_⟩
    intro used' c' rest' hu hc'
    rw [List.map_cons, List.map_eq_cons_iff] at hu
    obtain ⟨t', us', rfl, ht, hus⟩ := hu
    have hk' : t'.kind = .charClass := (congrArg Lexeme.kind ht).trans hk
    rw [List.cons_append, setMembers, if_neg (by simp [hk']), if_neg (by simp [hk']), if_pos hk',
      classBody_congr ht, hx, hmore us' c' rest' hus hc']
    rfl
  | case5 => simp at h
  | case6 t ts hclose hpipe hclass hk x behind hx ih =>
    obtain ⟨⟨more, rest'⟩, hm, h⟩ := bind_eq_ok.1 h
    simp only [pure, Except.pure, Except.ok.injEq, Prod.mk.injEq] at h
    obtain ⟨rfl, rfl⟩ := h
    obtain ⟨ht, hts⟩ := List.forall_mem_cons.1 hts
    obtain ⟨hxin, first, rfl, hfirst, hlit⟩ := exists_of_literalMember hx
    obtain ⟨hs, used, c, rfl, hc, hused, hmore⟩ := ih (List.forall_mem_append.1 hts).2 hm
    refine ⟨hxin.append hs, t :: first ++ used, c, by simp, hc, ?_, ?_⟩
    · rw [List.cons_append]
      exact List.forall_mem_cons.2 ⟨by simp [hk], List.forall_mem_append.2 ⟨hfirst, hused⟩⟩
    intro used' c' rest' hu hc'
    rw [List.cons_append, List.map_cons, List.map_append, List.map_eq_cons_iff] at hu
    obtain ⟨t', us', rfl, ht, hus⟩ := hu
    obtain ⟨first', used', rfl, hf, hus⟩ := List.map_eq_append_iff.1 hus
    have hk' : t'.kind = .literal := (congrArg Lexeme.kind ht).trans hk
    have hlit' := hlit t' first' used' (c' :: rest') ht hf fun hr =>
      rangeEnd?_close rest' hus hc' hr
    rw [List.cons_append, List.append_assoc, setMembers, if_neg (by simp [hk']),
      if_neg (by simp [hk']), if_neg (by simp [hk']), if_pos hk']
    split
    · rename_i e he
      rw [hlit'] at he
      simp at he
    · rename_i x' behind' he
      rw [hlit'] at he
      obtain ⟨rfl, rfl⟩ := Prod.mk.inj (Except.ok.inj he)
      rw [hmore used' c' rest' hus hc']
      rfl
  | case7 => simp at h

/-! ## Contents -/

/-- Every closing parenthesis has an opening one in front of it. -/
def Guarded (W : List Lexeme) : Prop :=
  ∀ A B, W = A ++ closeLexeme :: B → openLexeme ∈ A

theorem guarded_of_not_mem {W : List Lexeme} (h : closeLexeme ∉ W) : Guarded W := by
  rintro A B rfl
  simp at h

theorem Guarded.append {V W : List Lexeme} (hV : Guarded V) (hW : Guarded W) :
    Guarded (V ++ W) := by
  intro A B h
  rcases List.append_eq_append_iff.1 h with ⟨C, rfl, hC⟩ | ⟨C, rfl, hC⟩
  · exact List.mem_append_right _ (hW C B hC)
  · cases C with
    | nil =>
      have := hW [] B (by simpa using hC.symm)
      simp at this
    | cons l C =>
      obtain ⟨rfl, -⟩ := List.cons.inj hC
      exact hV A C rfl

theorem guarded_open (W : List Lexeme) : Guarded (openLexeme :: W) := by
  intro A B h
  cases A with
  | nil => exact absurd (List.cons.inj h).1 (by decide)
  | cons a A =>
    obtain ⟨rfl, -⟩ := List.cons.inj h
    exact List.mem_cons_self

theorem guarded_modifierScript (m : Modifier) (greedy : Bool) :
    Guarded (modifierScript m greedy) := by
  apply guarded_of_not_mem
  cases m <;> cases greedy <;> decide

mutual

theorem guarded_script : ∀ c : Content, Guarded (wordsIn c.script)
  | .token _ => guarded_of_not_mem (by simp [Content.script, wordsIn, closeLexeme])
  | .rule _ => guarded_of_not_mem (by simp [Content.script, wordsIn, closeLexeme])
  | .literal _ => guarded_of_not_mem (by simp [Content.script, wordsIn, closeLexeme])
  | .charSet _ => guarded_of_not_mem (by simp [Content.script, wordsIn, closeLexeme])
  | .range _ _ => guarded_of_not_mem (by simp [Content.script, wordsIn, closeLexeme])
  | .group bs => by
    rw [wordsIn_group]
    exact guarded_open _
  | .wildcard => guarded_of_not_mem (by simp [Content.script, wordsIn, closeLexeme])
  | .negated inner => by
    rw [Content.script, ← List.singleton_append, wordsIn_append]
    exact (guarded_of_not_mem (by decide)).append (guarded_script inner)
  | .endOfInput => guarded_of_not_mem (by simp [Content.script, wordsIn, closeLexeme])

theorem guarded_branchesScript : ∀ bs : List (AlternativeOf Content),
    Guarded (wordsIn (branchesScript true bs))
  | [] => guarded_of_not_mem (by simp [branchesScript, wordsIn])
  | ⟨elements, label, commands, offset⟩ :: rest => by
    rw [wordsIn_branchesScript_cons]
    refine (guarded_elementsScript elements).append ?_
    cases rest with
    | nil => exact guarded_of_not_mem (by simp [branchesScript, wordsIn])
    | cons b rest =>
      rw [wordsIn_branchesScript_false, ← List.singleton_append]
      exact (guarded_of_not_mem (by decide)).append (guarded_branchesScript (b :: rest))

theorem guarded_elementsScript : ∀ es : List (ElementOf Content),
    Guarded (wordsIn (elementsScript es))
  | [] => guarded_of_not_mem (by simp [elementsScript, wordsIn])
  | ⟨content, modifier, greedy⟩ :: rest => by
    rw [wordsIn_elementsScript_cons, ElementOf.script, wordsIn_append, wordsIn_modifierScript]
    exact ((guarded_script content).append (guarded_modifierScript modifier greedy)).append
      (guarded_elementsScript rest)

end

theorem kind_of_lexeme {t : Token} {l : Lexeme} (h : t.lexeme = l) : t.kind = l.kind :=
  congrArg Lexeme.kind h

/-- The set of a group goes up to the parenthesis that closes the group. -/
theorem setMembers_group {bs : List Branch} {ts rest rest' : List Token} {s : List Char}
    (hlex : ts.map Token.lexeme = wordsIn (branchesScript true bs) ++ [closeLexeme])
    (hreg : ∀ t ∈ ts ++ rest, t.lexeme.Regular) (h : setMembers (ts ++ rest) = .ok (s, rest')) :
    rest' = rest ∧ ClassInside s ∧
      ∀ us, us.map Token.lexeme = ts.map Token.lexeme → setMembers us = .ok (s, []) := by
  obtain ⟨hs, used, c, hused, hc, hnone, hmore⟩ := exists_of_setMembers hreg h
  obtain ⟨ws, _, rfl, hws, hclose⟩ := List.map_eq_append_iff.1 hlex
  obtain ⟨d, rfl, hd⟩ := List.map_eq_singleton_iff.1 hclose
  have hd' : d.kind = .parenClose := kind_of_lexeme hd
  have hopen : openLexeme ∉ used.map Token.lexeme := by
    intro hm
    obtain ⟨u, hu, hul⟩ := List.mem_map.1 hm
    exact (hnone u hu).1 (kind_of_lexeme hul)
  -- the two closing parentheses are one: none stands in front of the other
  obtain ⟨rfl, rfl, rfl⟩ : ws = used ∧ d = c ∧ rest = rest' := by
    rw [List.append_assoc, List.singleton_append] at hused
    rcases List.append_eq_append_iff.1 hused with ⟨C, hC, hCr⟩ | ⟨C, hC, hCr⟩
    · cases C with
      | nil =>
        obtain ⟨rfl, rfl⟩ := List.cons.inj hCr
        exact ⟨by simpa using hC.symm, rfl, rfl⟩
      | cons e C =>
        obtain ⟨rfl, -⟩ := List.cons.inj hCr
        exact absurd hd' (hnone d (by simp [hC])).2
    · cases C with
      | nil =>
        obtain ⟨rfl, rfl⟩ := List.cons.inj hCr
        exact ⟨by simpa using hC, rfl, rfl⟩
      | cons e C =>
        obtain ⟨rfl, -⟩ := List.cons.inj hCr
        have hg := guarded_branchesScript bs (used.map Token.lexeme) (C.map Token.lexeme) (by
          rw [← hws, hC, List.map_append, List.map_cons]
          congr 2
          have hreg' := hreg c (by simp [hC])
          have htext : c.text = [')'] := hreg'.spelled _ (by
            show c.kind.spelled? = _
            rw [hc]
            rfl)
          rw [Token.lexeme, hc, htext]
          rfl)
        exact absurd hg hopen
  refine ⟨rfl, hs, fun us hus => ?_⟩
  rw [List.map_append] at hus
  obtain ⟨used', _, rfl, hu, hl⟩ := List.map_eq_append_iff.1 hus
  obtain ⟨c', rfl, hc'⟩ := List.map_eq_singleton_iff.1 hl
  exact hmore used' c' [] hu ((kind_of_lexeme hc').trans hd')

theorem ok_of_map {α β : Type} {x : Except PatternError α} {f : α → β} {b : β}
    (h : (do return f (← x)) = Except.ok b) : ∃ a, x = .ok a ∧ f a = b := by
  obtain ⟨a, ha, hb⟩ := bind_eq_ok.1 h
  exact ⟨a, ha, Except.ok.inj hb⟩

/-- The tokens of a range: two literals and the mark between them. -/
theorem exists_of_range_words {ts : List Token} {first last : List Char}
    (h : ts.map Token.lexeme = wordsIn (Content.range first last).script) :
    ∃ t op l, ts = [t, op, l] ∧ t.lexeme = ⟨.literal, first⟩ ∧ l.lexeme = ⟨.literal, last⟩ ∧
      t.kind = .literal ∧ op.kind = .range ∧ l.kind = .literal := by
  have hwords : wordsIn (Content.range first last).script =
    [⟨.literal, first⟩, ⟨.range, ['.', '.']⟩, ⟨.literal, last⟩] := rfl
  rw [hwords] at h
  simp only [List.map_eq_cons_iff, List.map_eq_nil_iff] at h
  obtain ⟨t, _, rfl, ht, op, _, rfl, hop, l, _, rfl, hl, rfl⟩ := h
  exact ⟨t, op, l, rfl, ht, hl, kind_of_lexeme ht, kind_of_lexeme hop, kind_of_lexeme hl⟩

/-! ## Negations -/

/-- What a negation takes the complement of is read up to the end of the lexemes, and it is the
same wherever they stand. -/
def Negatable (W : List Lexeme) : Prop :=
  ∀ ts rest rest' s, ts.map Token.lexeme = W → (∀ t ∈ ts ++ rest, t.lexeme.Regular) →
    NoRange rest → negatedSet (ts ++ rest) = .ok (s, rest') →
    rest' = rest ∧ Inside s ∧ ∀ us, us.map Token.lexeme = W → negatedSet us = .ok (s, [])

/-- In front of other tokens a negation fails. -/
theorem negatable_of_refused {l : Lexeme} {W : List Lexeme}
    (hl : l.kind ≠ .charClass ∧ l.kind ≠ .literal ∧ l.kind ≠ .parenOpen) : Negatable (l :: W) := by
  intro ts rest rest' s hlex _ _ h
  obtain ⟨t, ts, rfl, ht, -⟩ := List.map_eq_cons_iff.1 hlex
  rw [← kind_of_lexeme ht] at hl
  simp [negatedSet, hl] at h

theorem negatable_literal (quoted : List Char) :
    Negatable (wordsIn (Content.literal quoted).script) := by
  intro ts rest rest' s hlex _ hrange h
  obtain ⟨t, rfl, ht⟩ := List.map_eq_singleton_iff.1 hlex
  have hk : t.kind = .literal := kind_of_lexeme ht
  simp only [List.singleton_append, negatedSet, hk, reduceCtorEq, if_false, if_true,
    literalMember, rangeEnd?_of_noRange hrange] at h
  obtain ⟨x, hx, he⟩ := ok_of_map h
  obtain ⟨rfl, rfl⟩ := Prod.mk.inj he
  refine ⟨rfl, inside_charText x, fun us hus => ?_⟩
  obtain ⟨u, rfl, hu⟩ := List.map_eq_singleton_iff.1 hus
  have hk' : u.kind = .literal := kind_of_lexeme hu
  simp only [negatedSet, hk', reduceCtorEq, if_false, if_true, literalMember, rangeEnd?,
    singleChar_congr (hu.trans ht.symm), hx]
  rfl

theorem negatable_charSet (text : List Char) :
    Negatable (wordsIn (Content.charSet text).script) := by
  intro ts rest rest' s hlex hreg _ h
  obtain ⟨t, rfl, ht⟩ := List.map_eq_singleton_iff.1 hlex
  have hk : t.kind = .charClass := kind_of_lexeme ht
  simp only [List.singleton_append, negatedSet, hk, if_true] at h
  obtain ⟨x, hx, he⟩ := ok_of_map h
  obtain ⟨rfl, rfl⟩ := Prod.mk.inj he
  refine ⟨rfl, (classInside_of_classBody (hreg t (by simp)) hk hx).1, fun us hus => ?_⟩
  obtain ⟨u, rfl, hu⟩ := List.map_eq_singleton_iff.1 hus
  have hk' : u.kind = .charClass := kind_of_lexeme hu
  simp only [negatedSet, hk', if_true, classBody_congr (hu.trans ht.symm), hx]
  rfl

theorem negatable_range (first last : List Char) :
    Negatable (wordsIn (Content.range first last).script) := by
  intro ts rest rest' s hlex _ _ h
  obtain ⟨t, op, l, rfl, ht, hl, hk, hkop, hkl⟩ := exists_of_range_words hlex
  simp only [List.cons_append, List.nil_append, negatedSet, hk, reduceCtorEq, if_false, if_true,
    literalMember, rangeEnd?_range hkop hkl] at h
  obtain ⟨x, hx, he⟩ := ok_of_map h
  obtain ⟨rfl, rfl⟩ := Prod.mk.inj he
  refine ⟨rfl, (classInside_of_rangeText hx).1, fun us hus => ?_⟩
  obtain ⟨t', op', l', rfl, ht', hl', hk', hkop', hkl'⟩ := exists_of_range_words hus
  simp only [negatedSet, hk', reduceCtorEq, if_false, if_true, literalMember,
    rangeEnd?_range hkop' hkl', rangeText_congr (ht'.trans ht.symm) (hl'.trans hl.symm), hx]
  rfl

theorem negatable_group (bs : List Branch) : Negatable (wordsIn (Content.group bs).script) := by
  intro ts rest rest' s hlex hreg _ h
  rw [wordsIn_group, List.cons_append] at hlex
  obtain ⟨t, ts, rfl, ht, hts⟩ := List.map_eq_cons_iff.1 hlex
  have hk : t.kind = .parenOpen := kind_of_lexeme ht
  simp only [List.cons_append, negatedSet, hk, reduceCtorEq, if_false, if_true] at h
  obtain ⟨rfl, hs, hmore⟩ :=
    setMembers_group hts (fun u hu => hreg u (List.mem_cons_of_mem _ hu)) h
  refine ⟨rfl, hs.1, fun us hus => ?_⟩
  rw [wordsIn_group, List.cons_append] at hus
  obtain ⟨u, us, rfl, hu, hus⟩ := List.map_eq_cons_iff.1 hus
  have hk' : u.kind = .parenOpen := kind_of_lexeme hu
  simp only [negatedSet, hk', reduceCtorEq, if_false, if_true]
  exact hmore us (hus.trans hts.symm)

theorem negatable_content (c : Content) : Negatable (wordsIn c.script) := by
  cases c with
  | token name => exact negatable_of_refused (by simp)
  | rule name => exact negatable_of_refused (by simp)
  | endOfInput => exact negatable_of_refused (by decide)
  | wildcard => exact negatable_of_refused (by decide)
  | negated inner => exact negatable_of_refused (by decide)
  | literal quoted => exact negatable_literal quoted
  | charSet text => exact negatable_charSet text
  | range first last => exact negatable_range first last
  | group bs => exact negatable_group bs

/-! ## Sets -/

/-- The piece in front of the lexemes is the text of a class, the same wherever they stand. -/
def ClassPiece (W : List Lexeme) : Prop :=
  ∀ t ts rest rest' p, (t :: ts).map Token.lexeme = W →
    (∀ u ∈ t :: ts ++ rest, u.lexeme.Regular) → NoRange rest →
    leadingPiece t (ts ++ rest) = .ok (p, rest') →
    ∃ s, p = .text s ∧ rest' = rest ∧ ClassWhole s ∧
      ∀ u us, (u :: us).map Token.lexeme = W → leadingPiece u us = .ok (.text s, [])

theorem classPiece_charSet (text : List Char) :
    ClassPiece (wordsIn (Content.charSet text).script) := by
  intro t ts rest rest' p hlex hreg _ h
  obtain ⟨t', ht', ht⟩ := List.map_eq_singleton_iff.1 hlex
  obtain ⟨rfl, rfl⟩ := List.cons.inj ht'
  have hk : t.kind = .charClass := kind_of_lexeme ht
  simp only [List.nil_append, leadingPiece, hk, reduceCtorEq, if_false, if_true] at h
  obtain ⟨x, hx, he⟩ := ok_of_map h
  obtain ⟨rfl, rfl⟩ := Prod.mk.inj he
  refine ⟨_, rfl, rfl,
    classWhole_classOf (classInside_of_classBody (hreg t (by simp)) hk hx), fun u us hus => ?_⟩
  obtain ⟨u', hu', hu⟩ := List.map_eq_singleton_iff.1 hus
  obtain ⟨rfl, rfl⟩ := List.cons.inj hu'
  have hk' : u.kind = .charClass := kind_of_lexeme hu
  simp only [leadingPiece, hk', reduceCtorEq, if_false, if_true,
    classBody_congr (hu.trans ht.symm), hx]
  rfl

theorem classPiece_range (first last : List Char) :
    ClassPiece (wordsIn (Content.range first last).script) := by
  intro t ts rest rest' p hlex _ _ h
  obtain ⟨t', op, l, hts, ht, hl, hk, hkop, hkl⟩ := exists_of_range_words hlex
  obtain ⟨rfl, rfl⟩ := List.cons.inj hts
  simp only [List.cons_append, List.nil_append, leadingPiece, hk, if_true,
    rangeEnd?_range hkop hkl] at h
  obtain ⟨x, hx, he⟩ := ok_of_map h
  obtain ⟨rfl, rfl⟩ := Prod.mk.inj he
  refine ⟨_, rfl, rfl, classWhole_classOf (classInside_of_rangeText hx), fun u us hus => ?_⟩
  obtain ⟨u', op', l', hus', hu, hl', hk', hkop', hkl'⟩ := exists_of_range_words hus
  obtain ⟨rfl, rfl⟩ := List.cons.inj hus'
  simp only [leadingPiece, hk', if_true, rangeEnd?_range hkop' hkl',
    rangeText_congr (hu.trans ht.symm) (hl'.trans hl.symm), hx]
  rfl

theorem classPiece_negated (inner : Content) :
    ClassPiece (wordsIn (Content.negated inner).script) := by
  intro t ts rest rest' p hlex hreg hrange h
  have hwords : wordsIn (Content.negated inner).script =
    ⟨.tilde, ['~']⟩ :: wordsIn inner.script := rfl
  rw [hwords, List.map_cons, List.cons.injEq] at hlex
  obtain ⟨ht, hts⟩ := hlex
  have hk : t.kind = .tilde := kind_of_lexeme ht
  simp only [leadingPiece, hk, reduceCtorEq, if_false, if_true] at h
  obtain ⟨⟨x, behind⟩, hx, he⟩ := ok_of_map h
  obtain ⟨rfl, rfl⟩ := Prod.mk.inj he
  obtain ⟨rfl, hin, hmore⟩ := negatable_content inner ts rest _ _ hts
    (fun u hu => hreg u (List.mem_cons_of_mem _ hu)) hrange hx
  refine ⟨_, rfl, rfl, classWhole_negatedClassOf hin, fun u us hus => ?_⟩
  rw [hwords, List.map_cons, List.cons.injEq] at hus
  have hk' : u.kind = .tilde := kind_of_lexeme hus.1
  simp only [leadingPiece, hk', reduceCtorEq, if_false, if_true, hmore us hus.2]
  rfl

theorem classPiece_content {c : Content} (hc : c.isSet = true) :
    ClassPiece (wordsIn c.script) := by
  cases c with
  | token name => simp [Content.isSet] at hc
  | rule name => simp [Content.isSet] at hc
  | endOfInput => simp [Content.isSet] at hc
  | wildcard => simp [Content.isSet] at hc
  | literal quoted => simp [Content.isSet] at hc
  | group bs => simp [Content.isSet] at hc
  | charSet text => exact classPiece_charSet text
  | range first last => exact classPiece_range first last
  | negated inner => exact classPiece_negated inner

end GrammarLab.Pattern
