import Mathlib.Data.List.Chain
import GrammarLab.Proofs.Body.Patterns
import GrammarLab.Proofs.Body.References

/-!
# Tokens tile the body

The tokens of a body stand one behind the other from its start to its end. Each is the longest at its
place, or garbage up to where the next token begins, and each but garbage is the same token by
itself.

    (lex body).flatMap (·.text) = body
    t ∈ lex body → t.kind ≠ .garbage → lex t.text = [⟨t.kind, t.text, 0⟩]
-/

namespace GrammarLab.Body

open Text

/-- The tokens are the body cut at the ends of its longest tokens. -/
structure Cuts (ts : List Token) (body : List Char) : Prop where
  nonempty : ∀ t ∈ ts, t.text ≠ []
  starts : ∀ t ∈ ts.head?, t.offset = 0
  adjoining : ts.IsChain fun t u => t.stop = u.offset
  spells : ts.flatMap (·.text) = body
  /-- There is no garbage next to garbage. -/
  joined : ts.IsChain fun t u => ¬(t.kind = .garbage ∧ u.kind = .garbage)
  longest : ∀ before t after, ts = before ++ t :: after →
    t.lexeme.IsMunched (after.flatMap (·.text))

/-- Each lexeme is the longest token of its place, or garbage where there is none. -/
def AllMunched : List Lexeme → Prop
  | [] => True
  | l :: ls => l.IsMunched (textOf ls) ∧ AllMunched ls

variable {ls : List Lexeme} {l : Lexeme}

/-! ## Lexemes -/

theorem allMunched_lexemes (s : List Char) : AllMunched (lexemes s) := by
  fun_induction lexemes s with
  | case1 => trivial
  | case2 c cs kind n heq ih =>
    have hmunched := isMunched_leading c cs
    rw [heq] at hmunched
    refine ⟨?_, ih⟩
    rw [textOf, flatMap_text_lexemes]
    exact hmunched

theorem AllMunched.joinTo (hl : l.IsMunched (textOf ls)) (hls : AllMunched ls) :
    AllMunched (l.joinTo ls) := by
  cases ls with
  | nil => exact ⟨hl, trivial⟩
  | cons m ms =>
    rw [Lexeme.joinTo]
    split
    · rename_i hk
      rw [Bool.and_eq_true, decide_eq_true_eq] at hk
      rw [Lexeme.IsMunched, if_pos hk.1, textOf_cons, ← List.append_assoc] at hl
      exact ⟨hl, hls.2⟩
    · exact ⟨hl, hls⟩

theorem AllMunched.joinGarbage (h : AllMunched ls) : AllMunched (joinGarbage ls) := by
  induction ls with
  | nil => exact h
  | cons l ls ih =>
    obtain ⟨hl, hls⟩ := h
    have htext : textOf (Body.joinGarbage ls) = textOf ls := flatMap_text_joinGarbage ls
    rw [← htext] at hl
    exact .joinTo hl (ih hls)

theorem AllMunched.of_append {before after : List Lexeme} (h : AllMunched (before ++ l :: after)) :
    l.IsMunched (textOf after) := by
  induction before with
  | nil => exact h.1
  | cons m before ih => exact ih h.2

theorem isChain_joinTo
    (h : ls.IsChain fun l m => ¬(l.kind = .garbage ∧ m.kind = .garbage)) (l : Lexeme) :
    (l.joinTo ls).IsChain fun l m => ¬(l.kind = .garbage ∧ m.kind = .garbage) := by
  cases ls with
  | nil => exact .singleton l
  | cons m ms =>
    rw [Lexeme.joinTo]
    split
    · rename_i hk
      rw [Bool.and_eq_true, decide_eq_true_eq, decide_eq_true_eq] at hk
      rw [List.isChain_cons] at h ⊢
      rw [hk.2] at h
      exact h
    · rename_i hk
      rw [Bool.and_eq_true, decide_eq_true_eq, decide_eq_true_eq] at hk
      exact .cons_cons hk h

theorem isChain_joinGarbage (ls : List Lexeme) :
    (joinGarbage ls).IsChain fun l m => ¬(l.kind = .garbage ∧ m.kind = .garbage) := by
  induction ls with
  | nil => exact .nil
  | cons l ls ih => exact isChain_joinTo ih l

/-! ## Tokens -/

theorem isChain_locate (n : Nat) (ls : List Lexeme) :
    (locate n ls).IsChain fun t u => t.stop = u.offset := by
  induction ls generalizing n with
  | nil => exact .nil
  | cons l ls ih =>
    cases ls with
    | nil => exact .singleton _
    | cons m ms => exact .cons_cons rfl (ih _)

/-- A text that fits a pattern is one token by itself. -/
theorem lex_of_fits {k : TokenKind} {s : List Char} (h : k.Fits s) : lex s = [⟨k, s, 0⟩] := by
  rw [lex, lexemes_of_fits h]
  rfl

theorem text_ne_nil_of_mem_lex {t : Token} {body : List Char} (h : t ∈ lex body) : t.text ≠ [] := by
  obtain ⟨c, cs, htext, -⟩ := (regular_of_mem_lex h).head
  have htext : t.text = c :: cs := htext
  rw [htext]
  exact List.cons_ne_nil c cs

theorem offset_of_head_lex {t : Token} {body : List Char} (h : t ∈ (lex body).head?) :
    t.offset = 0 := by
  rw [lex] at h
  cases hls : joinGarbage (lexemes body) with
  | nil =>
    rw [hls] at h
    cases h
  | cons l ls =>
    rw [hls] at h
    cases h
    rfl

theorem isMunched_of_lex_eq {t : Token} {before after : List Token} {body : List Char}
    (h : lex body = before ++ t :: after) : t.lexeme.IsMunched (after.flatMap (·.text)) := by
  have hmunched := (allMunched_lexemes body).joinGarbage
  rw [← map_lexeme_lex, h, List.map_append, List.map_cons] at hmunched
  have hafter := hmunched.of_append
  rw [textOf, List.flatMap_map] at hafter
  exact hafter

/-- The tokens of a body cut it up without a gap, and each token but garbage is cut off alike from
its text alone. -/
theorem lex_cuts_body (body : List Char) :
    Cuts (lex body) body ∧
      ∀ t ∈ lex body, t.kind ≠ .garbage → lex t.text = [⟨t.kind, t.text, 0⟩] := by
  constructor
  · constructor
    case nonempty =>
      intro t ht
      exact text_ne_nil_of_mem_lex ht
    case starts =>
      intro t ht
      exact offset_of_head_lex ht
    case adjoining => exact isChain_locate 0 _
    case spells => exact flatMap_text_lex body
    case joined =>
      have hchain := isChain_joinGarbage (lexemes body)
      rw [← map_lexeme_lex, List.isChain_map] at hchain
      exact hchain
    case longest =>
      intro before t after h
      exact isMunched_of_lex_eq h
  · intro t ht hk
    obtain ⟨before, after, hsplit⟩ := List.append_of_mem ht
    have hmunched := isMunched_of_lex_eq hsplit
    rw [Lexeme.IsMunched, if_neg (show t.lexeme.kind ≠ .garbage from hk)] at hmunched
    exact lex_of_fits hmunched.fits

end GrammarLab.Body
