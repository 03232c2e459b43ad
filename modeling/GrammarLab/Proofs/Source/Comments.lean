import Mathlib.Data.List.Forall2
import GrammarLab.Source.Comment

/-!
# Blanked comments

What one character becomes when comments are blanked out. It stays or becomes a blank, and line
feeds stay.

    stripFrom .code (c :: s) = c :: stripFrom (.afterCode c) s          (stripFrom_code)
-/

namespace GrammarLab.Source

variable {s : List Char} {c : Char}

/-! ## One character -/

theorem stripFrom_nil (state : CommentState) : stripFrom state [] = [] := by rw [stripFrom]

theorem stripFrom_lineFeed (state : CommentState) (s : List Char) :
    stripFrom state ('\n' :: s) = '\n' :: stripFrom state.afterLineFeed s := by
  rw [stripFrom.eq_def]
  exact if_pos rfl

/-- A character that ends no block comment is one of it. -/
theorem stripFrom_blockComment (hc : c ≠ '\n') (hend : ¬(c = '*' ∧ s.head? = some '/')) :
    stripFrom .blockComment (c :: s) = ' ' :: stripFrom .blockComment s := by
  cases s with
  | nil => simp [stripFrom, hc]
  | cons d s =>
    have hend : ¬(c = '*' && d = '/') = true := by simpa using hend
    rw [stripFrom, if_neg hc]
    simp only [hend]
    rfl

/-- A character that begins no comment stays. -/
theorem stripFrom_code (hc : c ≠ '\n') (hline : ¬(c = '/' ∧ s.head? = some '/'))
    (hblock : ¬(c = '/' ∧ s.head? = some '*')) :
    stripFrom .code (c :: s) = c :: stripFrom (.afterCode c) s := by
  cases s with
  | nil => simp [stripFrom, hc]
  | cons d s =>
    have hline : ¬(c = '/' && d = '/') = true := by simpa using hline
    have hblock : ¬(c = '/' && d = '*') = true := by simpa using hblock
    rw [stripFrom, if_neg hc]
    simp only [hline, hblock]
    rfl

theorem stripFrom_code_cons (hslash : c ≠ '/') (hfeed : c ≠ '\n') (t : List Char) :
    stripFrom .code (c :: t) = c :: stripFrom (.afterCode c) t :=
  stripFrom_code hfeed (fun h => hslash h.1) fun h => hslash h.1

/-! ## All characters -/

/-- A character stays or becomes a blank. -/
theorem forall₂_stripFrom (state : CommentState) (s : List Char) :
    List.Forall₂ (fun c d => d = c ∨ d = ' ') s (stripFrom state s) := by
  fun_induction stripFrom state s <;> simp_all

theorem map_stripFrom (state : CommentState) (s : List Char) :
    (stripFrom state s).map (· == '\n') = s.map (· == '\n') := by
  fun_induction stripFrom state s <;> simp_all

end GrammarLab.Source
