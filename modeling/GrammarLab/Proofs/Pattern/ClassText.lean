import GrammarLab.Pattern.ClassText
import GrammarLab.Proofs.Regex.Symbols

/-!
# Written characters

The text written for characters is read back as these characters, and the text written for the
inside of a class has no bare closing bracket and does not begin with `^`. A code point of four
characters can end in the middle of an escape, so that the reading of a class goes on with a
character that an escape was meant for.

    classText? s = some t → Inside s → Inside t                      (inside_of_classText?)
-/

namespace GrammarLab.Pattern

open Regex

/-! ## Characters -/

theorem charText_of_isMeta {c : Char} (h : isMeta c = true) : charText c = ['\\', c] := by
  simp [charText, h]

theorem charText_of_not_isMeta {c : Char} (h : isMeta c = false) : charText c = [c] := by
  simp [charText, h]

/-- Characters that are no operators are none of those that mean something to a reader. -/
theorem ne_of_not_isMeta {c : Char} (h : isMeta c = false) :
    c ∉ ['\\', '.', '+', '*', '?', '(', ')', '|', '[', ']', '\x7b', '^', '$', '&', '-', '~'] := by
  simp only [isMeta, Bool.or_eq_false_iff, decide_eq_false_iff_not] at h
  simp [h]

/-- A character is written as one symbol, whatever stands behind it. -/
theorem symbol?_charText (c : Char) : ∃ d cs, charText c = d :: cs ∧
    ∀ rest, symbol? d (cs ++ rest) = some (.atom (.single c) 0, rest) := by
  cases h : isMeta c with
  | true =>
    refine ⟨'\\', [c], charText_of_isMeta h, fun rest => ?_⟩
    have hunit : unit? '\\' (c :: rest) = some (.char c, rest) := by
      simp [unit?, escape?_of_isMeta h]
    show symbol? '\\' (c :: rest) = _
    simp [symbol?, quantifier?, hunit, TextUnit.toSet]
  | false =>
    refine ⟨c, [], charText_of_not_isMeta h, fun rest => ?_⟩
    have hne := ne_of_not_isMeta h
    simp only [List.mem_cons, List.not_mem_nil, or_false, not_or] at hne
    simp [symbol?, quantifier?, unit?, hne, TextUnit.toSet]

theorem reads_charText (c : Char) :
    Reads (fun _ => True) (charText c) (· = [.atom (.single c) 0]) := by
  obtain ⟨d, cs, heq, hsymbol⟩ := symbol?_charText c
  rw [heq]
  exact .of_symbol? fun rest _ => hsymbol rest

/-- The characters of a text that stands for itself, in front of any other text. -/
theorem symbols?_literalText_append (s rest : List Char) :
    symbols? (literalText s ++ rest) =
      (symbols? rest).map ((s.map fun c => .atom (.single c) 0) ++ ·) := by
  induction s with
  | nil => simp [literalText]
  | cons c s ih =>
    obtain ⟨d, cs, heq, hsymbol⟩ := symbol?_charText c
    rw [literalText] at ih
    rw [literalText, List.flatMap_cons, heq, List.cons_append, List.cons_append, List.append_assoc,
      symbols?_cons (hsymbol _), ih, Option.map_map]
    rfl

theorem symbols?_literalText (s : List Char) :
    symbols? (literalText s) = some (s.map fun c => .atom (.single c) 0) := by
  have h := symbols?_literalText_append s []
  rwa [List.append_nil, symbols?, Option.map_some, List.append_nil] at h

theorem outside_charText (c : Char) {rest : List Char} (hr : Outside rest) :
    Outside (charText c ++ rest) := by
  cases h : isMeta c with
  | true =>
    rw [charText_of_isMeta h]
    exact .escaped h hr
  | false =>
    rw [charText_of_not_isMeta h]
    have hne := ne_of_not_isMeta h
    simp only [List.mem_cons, List.not_mem_nil, or_false, not_or] at hne
    exact .plain (by simp [hne]) hr

theorem outside_literalText (s : List Char) {rest : List Char} (hr : Outside rest) :
    Outside (literalText s ++ rest) := by
  induction s with
  | nil => exact hr
  | cons c s ih =>
    rw [literalText, List.flatMap_cons, List.append_assoc]
    exact outside_charText c ih

/-- A text that stands for itself matches that text. -/
theorem reads_literalText (s : List Char) :
    Reads (fun _ => True) (literalText s) (IsSequence (· = s)) := by
  induction s with
  | nil => exact .nil isSequence_nil
  | cons c s ih =>
    rw [literalText, List.flatMap_cons]
    refine ((reads_charText c).append ih fun _ _ => trivial).mono (fun _ h => h) ?_
    rintro _ ⟨ys, zs, rfl, rfl, hz⟩
    have hc : IsItem (· = [c]) [.atom (.single c) 0] :=
      isItem_set fun _ t => by simp
    refine (isSequence_cons hc hz).congr fun t => ?_
    simp [Chained]

/-! ## The inside of a class -/

theorem inside_charText (c : Char) : Inside (charText c) := by
  cases h : isMeta c with
  | true =>
    rw [charText_of_isMeta h]
    exact .escaped .nil
  | false =>
    rw [charText_of_not_isMeta h]
    have hne := ne_of_not_isMeta h
    simp only [List.mem_cons, List.not_mem_nil, or_false, not_or] at hne
    exact .plain hne.1 (by simp [hne]) .nil

theorem head?_charText (c : Char) (s : List Char) : (charText c ++ s).head? ≠ some '^' := by
  cases h : isMeta c with
  | true => simp [charText_of_isMeta h]
  | false =>
    have hne := ne_of_not_isMeta h
    simp only [List.mem_cons, List.not_mem_nil, or_false, not_or] at hne
    simp [charText_of_not_isMeta h, hne]

theorem inside_throughBrace {s : List Char} (h : Inside s) :
    Inside (throughBrace s).1 ∧ Inside (throughBrace s).2 := by
  induction h with
  | nil => exact ⟨.nil, .nil⟩
  | @escaped c s hs ih =>
    by_cases hc : c = '\x7d'
    · simp only [throughBrace, hc, if_true, Char.reduceEq, if_false]
      exact ⟨.escaped .nil, hs⟩
    · simp only [throughBrace, hc, if_false, Char.reduceEq]
      exact ⟨.escaped ih.1, ih.2⟩
  | @plain c s h₁ h₂ hs ih =>
    by_cases hc : c = '\x7d'
    · simp only [throughBrace, hc, if_true]
      exact ⟨.plain (by decide) (by decide) .nil, hs⟩
    · simp only [throughBrace, hc, if_false]
      exact ⟨.plain h₁ h₂ ih.1, ih.2⟩

/-- Text whose first character may have been cut off from its backslash. -/
def InsideBehind (s : List Char) : Prop := Inside s ∨ ∃ c t, s = c :: t ∧ Inside t

/-- A cut leaves whole text on both sides or falls between a backslash and its character. -/
theorem inside_take_drop {s : List Char} (h : Inside s) (n : Nat) :
    (Inside (s.take n) ∨ ∃ a, s.take n = a ++ ['\\'] ∧ Inside a) ∧ InsideBehind (s.drop n) := by
  induction h generalizing n with
  | nil =>
    simp only [List.take_nil, List.drop_nil]
    exact ⟨.inl .nil, .inl .nil⟩
  | @escaped c s hs ih =>
    match n with
    | 0 => exact ⟨.inl .nil, .inl (.escaped hs)⟩
    | 1 => exact ⟨.inr ⟨[], rfl, .nil⟩, .inr ⟨c, s, rfl, hs⟩⟩
    | n + 2 =>
      obtain ⟨ht, hd⟩ := ih n
      refine ⟨?_, hd⟩
      rcases ht with ht | ⟨a, ha, hin⟩
      · exact .inl (.escaped ht)
      · exact .inr ⟨'\\' :: c :: a, by simp [ha], .escaped hin⟩
  | @plain c s h₁ h₂ hs ih =>
    match n with
    | 0 => exact ⟨.inl .nil, .inl (.plain h₁ h₂ hs)⟩
    | n + 1 =>
      obtain ⟨ht, hd⟩ := ih n
      refine ⟨?_, hd⟩
      rcases ht with ht | ⟨a, ha, hin⟩
      · exact .inl (.plain h₁ h₂ ht)
      · exact .inr ⟨c :: a, by simp [ha], .plain h₁ h₂ hin⟩

theorem inside_hexEscape {digits : List Char}
    (h : Inside digits ∨ ∃ a, digits = a ++ ['\\'] ∧ Inside a) : Inside (hexEscape digits) := by
  have hend : Inside (digits ++ ['\x7d']) := by
    rcases h with h | ⟨a, rfl, h⟩
    · exact h.append (.plain (by decide) (by decide) .nil)
    · rw [List.append_assoc]
      exact h.append (.escaped .nil)
  exact .escaped (.plain (by decide) (by decide) hend)

/-- What stands behind an escape; a cut through one leaves the second of two backslashes. -/
theorem insideBehind_escaped {e : Char} {s : List Char} (h : InsideBehind ('\\' :: e :: s)) :
    InsideBehind s ∧ (e ≠ '\\' → Inside s) := by
  rcases h with h | ⟨c, t, he, h⟩
  · cases h with
    | escaped h => exact ⟨.inl h, fun _ => h⟩
    | plain h₁ _ _ => exact absurd rfl h₁
  · obtain ⟨-, rfl⟩ := List.cons.inj he
    cases h with
    | escaped h => exact ⟨.inr ⟨_, _, rfl, h⟩, fun he => absurd rfl he⟩
    | plain _ _ h => exact ⟨.inl h, fun _ => h⟩

theorem insideBehind_cons {c : Char} {s : List Char} (hc : c ≠ '\\') (h : InsideBehind (c :: s)) :
    Inside s := by
  rcases h with h | ⟨d, t, he, h⟩
  · cases h with
    | escaped _ => exact absurd rfl hc
    | plain _ _ h => exact h
  · obtain ⟨-, rfl⟩ := List.cons.inj he
    exact h

theorem inside_of_classText? {s t : List Char} (h : classText? s = some t)
    (hs : InsideBehind s) : Inside t ∧ t.head? ≠ some '^' := by
  fun_induction classText? s generalizing t with
  | case1 =>
    simp only [Option.some.injEq] at h
    subst h
    exact ⟨.nil, by simp⟩
  | case2 => simp at h
  | case3 e rest he ih =>
    obtain ⟨u, hu, rfl⟩ := Option.map_eq_some_iff.1 h
    exact ⟨.escaped (ih hu (insideBehind_escaped hs).1).1, by simp⟩
  | case4 rest _ ih =>
    obtain ⟨u, hu, rfl⟩ := Option.map_eq_some_iff.1 h
    have hdigits : Inside ['0', '8'] := .of_plain (by decide)
    exact ⟨.escaped (hdigits.append (ih hu (insideBehind_escaped hs).1).1), by simp [backspaceText]⟩
  | case5 rest _ _ _ ih =>
    obtain ⟨u, hu, rfl⟩ := Option.map_eq_some_iff.1 h
    obtain ⟨h₁, h₂⟩ := inside_throughBrace ((insideBehind_escaped hs).2 (by decide))
    exact ⟨.escaped (h₁.append (ih hu (.inl h₂)).1), by simp⟩
  | case6 rest _ _ _ ih =>
    obtain ⟨u, hu, rfl⟩ := Option.map_eq_some_iff.1 h
    obtain ⟨h₁, h₂⟩ := inside_take_drop ((insideBehind_escaped hs).2 (by decide)) 4
    exact ⟨(inside_hexEscape h₁).append (ih hu h₂).1, by simp [hexEscape]⟩
  | case7 e rest _ _ _ hp ih =>
    obtain ⟨u, hu, rfl⟩ := Option.map_eq_some_iff.1 h
    have he : e ≠ '\\' := by
      rintro rfl
      simp at hp
    obtain ⟨h₁, h₂⟩ := inside_throughBrace ((insideBehind_escaped hs).2 he)
    exact ⟨.escaped (h₁.append (ih hu (.inl h₂)).1), by simp⟩
  | case8 e rest _ _ _ _ ih =>
    obtain ⟨u, hu, rfl⟩ := Option.map_eq_some_iff.1 h
    exact ⟨(inside_charText e).append (ih hu (insideBehind_escaped hs).1).1, head?_charText e u⟩
  | case9 c rest hc ih =>
    obtain ⟨u, hu, rfl⟩ := Option.map_eq_some_iff.1 h
    have hne : c ≠ '\\' := by
      rintro rfl
      exact hc rfl
    have hu := (ih hu (.inl (insideBehind_cons hne hs))).1
    by_cases hd : c = '-'
    · simp only [hd, if_true]
      exact ⟨.plain (by decide) (by decide) hu, by simp⟩
    · simp only [hd, if_false]
      exact ⟨(inside_charText c).append hu, head?_charText c u⟩

end GrammarLab.Pattern
