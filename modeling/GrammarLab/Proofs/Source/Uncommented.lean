import GrammarLab.Proofs.Source.Comments
import GrammarLab.Source.Scan

/-!
# Text without comments

A text is without comments if none begins in its code. Blanking out comments gives such a text, since
what stands in front of a comment or behind it begins none together with the blanks in its place, and
leaves such a text as it is. So a source is scanned as its stripped text is.

    strip s = s ↔ Uncommented .code s                              (strip_eq_self_iff)
    strip (strip s) = strip s
-/

namespace GrammarLab.Source

/-- Two slashes, or a slash and a star. -/
def beginsComment : List Char → Bool
  | c :: d :: _ => c = '/' && (d = '/' || d = '*')
  | _ => false

/-- The text, read from the state on, is in no comment, and none begins in it. -/
inductive Uncommented : CommentState → List Char → Prop
  | nil {state} : Uncommented state []
  | lineFeed {state s} : Uncommented state.afterLineFeed s → Uncommented state ('\n' :: s)
  | code {c s} : c ≠ '\n' → beginsComment (c :: s) = false → Uncommented (.afterCode c) s →
      Uncommented .code (c :: s)
  | quoted {mark c s} : c ≠ '\n' → Uncommented (.afterQuoted mark c) s →
      Uncommented (.quoted mark) (c :: s)
  | quotedEscape {mark c s} : c ≠ '\n' → Uncommented (.quoted mark) s →
      Uncommented (.quotedEscape mark) (c :: s)
  | inClass {c s} : c ≠ '\n' → Uncommented (.afterClass c) s → Uncommented .inClass (c :: s)
  | classEscape {c s} : c ≠ '\n' → Uncommented .inClass s → Uncommented .classEscape (c :: s)

/-- The state of a text in which blanks stand for the comments. -/
def CommentState.blanked : CommentState → CommentState
  | .lineComment => .code
  | .blockComment => .code
  | state => state

/-! ## States -/

variable {s : List Char}

theorem CommentState.afterLineFeed_blanked (state : CommentState) :
    state.blanked.afterLineFeed = state.afterLineFeed.blanked := by
  cases state <;> rfl

theorem CommentState.blanked_afterCode (c : Char) : (afterCode c).blanked = afterCode c := by
  unfold CommentState.afterCode
  split
  · rfl
  split <;> rfl

theorem CommentState.blanked_afterQuoted (mark c : Char) :
    (afterQuoted mark c).blanked = afterQuoted mark c := by
  unfold CommentState.afterQuoted
  split
  · rfl
  split <;> rfl

theorem CommentState.blanked_afterClass (c : Char) : (afterClass c).blanked = afterClass c := by
  unfold CommentState.afterClass
  split
  · rfl
  split <;> rfl

/-! ## Texts left as they are -/

theorem stripFrom_of_uncommented {state : CommentState} (h : Uncommented state s) :
    stripFrom state s = s := by
  induction h with
  | nil => rw [stripFrom_nil]
  | lineFeed _ ih => rw [stripFrom_lineFeed, ih]
  | @code c s hc hbegin _ ih =>
    cases s with
    | nil => rw [stripFrom, if_neg hc]
    | cons d s =>
      simp only [beginsComment, Bool.and_eq_false_iff, Bool.or_eq_false_iff,
        decide_eq_false_iff_not] at hbegin
      rw [stripFrom_code hc (by simp; tauto) (by simp; tauto), ih]
  | quoted hc _ ih => rw [stripFrom, if_neg hc, ih]
  | quotedEscape hc _ ih => rw [stripFrom, if_neg hc, ih]
  | inClass hc _ ih => rw [stripFrom, if_neg hc, ih]
  | classEscape hc _ ih => rw [stripFrom, if_neg hc, ih]

/-! ## Texts that are left -/

/-- A blank in the place of a comment. -/
theorem Uncommented.blank (h : Uncommented .code s) : Uncommented .code (' ' :: s) :=
  .code (by decide) (by cases s <;> rfl) h

/-- What begins no comment begins none when comments behind it are blanked out. -/
theorem beginsComment_stripFrom {c d : Char} {ds : List Char} (state : CommentState)
    (h : beginsComment (c :: d :: ds) = false) :
    beginsComment (c :: stripFrom state (d :: ds)) = false := by
  have hkept := forall₂_stripFrom state (d :: ds)
  cases hs : stripFrom state (d :: ds) with
  | nil => rfl
  | cons e es =>
    rw [hs, List.forall₂_cons] at hkept
    rcases hkept.1 with rfl | rfl
    · exact h
    · simp [beginsComment]

theorem uncommented_stripFrom (state : CommentState) (s : List Char) :
    Uncommented state.blanked (stripFrom state s) := by
  fun_induction stripFrom state s with
  | case1 => exact .nil
  | case2 state cs ih =>
    rw [← CommentState.afterLineFeed_blanked] at ih
    exact .lineFeed ih
  | case3 c cs hc ih => exact ih.blank
  | case4 c hc => exact Uncommented.nil.blank
  | case5 c hc d ds hend ih => exact ih.blank.blank
  | case6 c hc d ds hend ih => exact ih.blank
  | case7 c cs hc mark ih =>
    rw [CommentState.blanked_afterQuoted] at ih
    exact .quoted hc ih
  | case8 c cs hc mark ih => exact .quotedEscape hc ih
  | case9 c cs hc ih =>
    rw [CommentState.blanked_afterClass] at ih
    exact .inClass hc ih
  | case10 c cs hc ih => exact .classEscape hc ih
  | case11 c hc => exact .code hc rfl .nil
  | case12 c hc d ds hopen ih => exact ih.blank.blank
  | case13 c hc d ds hline hopen ih => exact ih.blank.blank
  | case14 c hc d ds hline hblock ih =>
    rw [CommentState.blanked_afterCode] at ih
    have hbegin : beginsComment (c :: d :: ds) = false := by
      simp only [Bool.and_eq_true, decide_eq_true_eq] at hline hblock
      simp only [beginsComment, Bool.and_eq_false_iff, Bool.or_eq_false_iff,
        decide_eq_false_iff_not]
      tauto
    exact .code hc (beginsComment_stripFrom _ hbegin) ih

/-! ## Whole sources -/

theorem strip_eq_self_iff : strip s = s ↔ Uncommented .code s := by
  constructor
  · intro h
    have hleft : Uncommented .code (strip s) := uncommented_stripFrom .code s
    rwa [h] at hleft
  · intro h
    exact stripFrom_of_uncommented h

theorem getElem?_strip {i : Nat} (h : i < s.length) :
    (strip s)[i]? = some s[i] ∨ (strip s)[i]? = some ' ' := by
  have hi : i < (strip s).length := by
    rw [length_strip]
    exact h
  have hkept := (List.forall₂_iff_get.1 (forall₂_stripFrom .code s)).2 i h hi
  rw [List.getElem?_eq_getElem hi]
  rcases hkept with hkept | hkept
  · exact .inl (congrArg some hkept)
  · exact .inr (congrArg some hkept)

theorem getElem?_strip_eq_lineFeed (i : Nat) :
    (strip s)[i]? = some '\n' ↔ s[i]? = some '\n' := by
  have hfeed (t : List Char) : (t.map (· == '\n'))[i]? = some true ↔ t[i]? = some '\n' := by
    simp
  have hmap : (strip s).map (· == '\n') = s.map (· == '\n') := map_stripFrom .code s
  rw [← hfeed, hmap, hfeed]

/-- Of a source without its comments every character but the blanked ones stands in its place, and
nothing is left to blank out: it is its own stripped text, and scanned as the source is. -/
theorem strip_blanks_comments (s : List Char) :
    (strip s).length = s.length ∧
      (∀ i (h : i < s.length), (strip s)[i]? = some s[i] ∨ (strip s)[i]? = some ' ') ∧
      (∀ i : Nat, (strip s)[i]? = some '\n' ↔ s[i]? = some '\n') ∧
      Uncommented .code (strip s) ∧ strip (strip s) = strip s ∧
      ∀ limits, scan limits (strip s) = scan limits s := by
  have hleft : Uncommented .code (strip s) := uncommented_stripFrom .code s
  have htwice : strip (strip s) = strip s := strip_eq_self_iff.2 hleft
  refine ⟨length_strip s, ?_, getElem?_strip_eq_lineFeed, hleft, htwice, ?_⟩
  · intro i h
    exact getElem?_strip h
  · intro limits
    unfold scan
    rw [htwice]

end GrammarLab.Source
