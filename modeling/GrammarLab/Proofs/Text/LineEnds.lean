import Mathlib.Data.List.Forall2
import GrammarLab.Proofs.Text.TrimmedLines

/-!
# Blanks in front of line ends

A text may be widened by blanks in front of its line feeds and at its end, as when each line feed
becomes a carriage return and a line feed. What is cut at blank space, at line feeds or at marks
that are no blanks is widened piece by piece, and trimmed pieces of one line stay the same.

    Widened s t → '\n' ∉ trim s → trim t = trim s                  (Widened.trim_eq)
    Widened s t → trimLines t = trimLines s                        (Widened.trimLines_eq)
-/

namespace GrammarLab.Text

/-! ## Line ends -/

/-- The blanks that a comment or a carriage return leaves in front of a line end. -/
def isFiller (c : Char) : Bool := c = ' ' || c = '\r'

/-- The text goes on with a line feed, or not at all. -/
def AtLineEnd (s : List Char) : Prop := ∀ c ∈ s.head?, c = '\n'

/-- The second text is the first one with fillers put in at the ends of its lines. -/
inductive Widened : List Char → List Char → Prop
  | nil : Widened [] []
  | cons {s t : List Char} (c : Char) : Widened s t → Widened (c :: s) (c :: t)
  | filler {s t : List Char} {d : Char} :
      isFiller d = true → AtLineEnd s → Widened s t → Widened s (d :: t)

variable {s t u v : List Char} {c d : Char} {p : Char → Bool}

theorem isFiller_iff : isFiller d = true ↔ d = ' ' ∨ d = '\r' := by simp [isFiller]

theorem isWhiteSpace_of_isFiller (hd : isFiller d = true) : isWhiteSpace d = true := by
  obtain rfl | rfl := isFiller_iff.1 hd <;> decide

theorem ne_lineFeed_of_isFiller (hd : isFiller d = true) : d ≠ '\n' := by
  rintro rfl
  exact absurd hd (by decide)

theorem atLineEnd_nil : AtLineEnd [] := by simp [AtLineEnd]

@[simp] theorem atLineEnd_cons : AtLineEnd (c :: s) ↔ c = '\n' := by simp [AtLineEnd]

theorem AtLineEnd.of_isPrefix (hs : AtLineEnd s) (h : u <+: s) : AtLineEnd u := by
  cases u with
  | nil => exact atLineEnd_nil
  | cons c u =>
    obtain ⟨rest, rfl⟩ := h
    exact atLineEnd_cons.2 (atLineEnd_cons.1 hs)

/-- What is kept of a text that is at the end of a line is nothing or begins with the line feed. -/
theorem AtLineEnd.takeWhile_eq_nil (hs : AtLineEnd s) (hp : p '\n' = false) :
    s.takeWhile p = [] := by
  cases s with
  | nil => rfl
  | cons c s =>
    obtain rfl := atLineEnd_cons.1 hs
    simp [hp]

theorem AtLineEnd.dropWhile_eq_self (hs : AtLineEnd s) (hp : p '\n' = false) :
    s.dropWhile p = s := by
  cases s with
  | nil => rfl
  | cons c s =>
    obtain rfl := atLineEnd_cons.1 hs
    simp [hp]

/-! ## Kinds of characters -/

/-- The blanks in front of a line feed go with it. -/
def TakesFillers (p : Char → Bool) : Prop := p '\n' = true → p ' ' = true ∧ p '\r' = true

/-- Neither a line feed nor a blank in front of it is one of the characters. -/
def StopsAtEnds (p : Char → Bool) : Prop := p '\n' = false ∧ p ' ' = false ∧ p '\r' = false

instance (p : Char → Bool) : Decidable (TakesFillers p) := inferInstanceAs (Decidable (_ → _))

instance (p : Char → Bool) : Decidable (StopsAtEnds p) := inferInstanceAs (Decidable (_ ∧ _))

theorem TakesFillers.lineFeed (hp : TakesFillers p) (hd : isFiller d = true) (hpd : ¬p d = true) :
    p '\n' = false := by
  by_contra hline
  obtain ⟨hblank, hreturn⟩ := hp (by simpa using hline)
  obtain rfl | rfl := isFiller_iff.1 hd <;> contradiction

theorem StopsAtEnds.filler (hp : StopsAtEnds p) (hd : isFiller d = true) : p d = false := by
  obtain rfl | rfl := isFiller_iff.1 hd
  · exact hp.2.1
  · exact hp.2.2

/-! ## Widened texts -/

namespace Widened

theorem refl : (s : List Char) → Widened s s
  | [] => nil
  | c :: s => (refl s).cons c

theorem lineFeeds_eq (h : Widened s t) : lineFeeds t = lineFeeds s := by
  induction h with
  | nil => rfl
  | cons c _ ih => simpa [lineFeeds, List.count_cons] using ih
  | filler hd _ _ ih => simpa [lineFeeds, ne_lineFeed_of_isFiller hd] using ih

theorem mem_iff (hc : isFiller c = false) (h : Widened s t) : c ∈ t ↔ c ∈ s := by
  induction h with
  | nil => simp
  | cons d _ ih => simp [ih]
  | @filler s t d hd _ _ ih =>
    have hne : c ≠ d := by
      rintro rfl
      simp [hc] at hd
    simp [ih, hne]

/-- A character that is no blank stands in front of both texts or of none. -/
theorem head?_eq_some_iff (hc : isFiller c = false) (hline : c ≠ '\n') (h : Widened s t) :
    t.head? = some c ↔ s.head? = some c := by
  cases h with
  | nil => rfl
  | cons d _ => simp
  | @filler s t d hd hs _ =>
    have hne : d ≠ c := by
      rintro rfl
      simp [hc] at hd
    have hhead : s.head? ≠ some c := fun h => hline (hs c h)
    simp [hne, hhead]

/-- Behind the same character, unless it is a line feed, the texts go on alike. -/
theorem of_cons (hc : isFiller c = false) (h : Widened (c :: s) (c :: t)) : Widened s t := by
  cases h with
  | cons _ h => exact h
  | filler hd _ _ => simp [hc] at hd

/-- Only blanks may follow the end of the text. -/
theorem all_isFiller (h : Widened [] t) : ∀ d ∈ t, isFiller d = true := by
  generalize hs : [] = s at h
  induction h with
  | nil => simp
  | cons => simp at hs
  | filler hd _ _ ih => exact List.forall_mem_cons.2 ⟨hd, ih hs⟩

theorem eq_nil_of_right (h : Widened s []) : s = [] := by
  cases h
  rfl

/-! ## Pieces -/

theorem takeWhile (hp : TakesFillers p) (h : Widened s t) :
    Widened (s.takeWhile p) (t.takeWhile p) := by
  induction h with
  | nil => exact nil
  | cons c _ ih =>
    by_cases hc : p c
    · simpa [hc] using ih.cons c
    · simpa [hc] using nil
  | @filler s t d hd hs _ ih =>
    by_cases hpd : p d
    · rw [List.takeWhile_cons_of_pos hpd]
      exact ih.filler hd (hs.of_isPrefix (List.takeWhile_prefix _))
    · rw [List.takeWhile_cons_of_neg hpd, hs.takeWhile_eq_nil (hp.lineFeed hd hpd)]
      exact nil

theorem dropWhile (hp : TakesFillers p) (h : Widened s t) :
    Widened (s.dropWhile p) (t.dropWhile p) := by
  induction h with
  | nil => exact nil
  | cons c h ih =>
    by_cases hc : p c
    · simpa [hc] using ih
    · simpa [hc] using h.cons c
  | @filler s t d hd hs h ih =>
    by_cases hpd : p d
    · rwa [List.dropWhile_cons_of_pos hpd]
    · rw [List.dropWhile_cons_of_neg hpd, hs.dropWhile_eq_self (hp.lineFeed hd hpd)]
      exact h.filler hd hs

/-- What ends in front of blanks is the same in both texts. -/
theorem takeWhile_eq (hp : StopsAtEnds p) (h : Widened s t) : t.takeWhile p = s.takeWhile p := by
  induction h with
  | nil => rfl
  | cons c _ ih =>
    by_cases hc : p c
    · rw [List.takeWhile_cons_of_pos hc, List.takeWhile_cons_of_pos hc, ih]
    · rw [List.takeWhile_cons_of_neg hc, List.takeWhile_cons_of_neg hc]
  | filler hd hs _ _ =>
    rw [List.takeWhile_cons_of_neg (by simp [hp.filler hd]), hs.takeWhile_eq_nil hp.1]

/-- Words that end at marks are widened one by one. -/
theorem splitOn (hp : StopsAtEnds p) (h : Widened s t) :
    List.Forall₂ Widened (splitOn p s) (splitOn p t) := by
  induction h with
  | nil => exact .cons nil .nil
  | @cons s t c _ ih =>
    obtain ⟨word, words, hs, -⟩ := exists_splitOn_eq p s
    obtain ⟨word', words', ht, -⟩ := exists_splitOn_eq p t
    by_cases hc : p c
    · simpa [Text.splitOn, hc] using ⟨nil, ih⟩
    · rw [hs, ht, List.forall₂_cons] at ih
      simpa [Text.splitOn, hc, hs, ht] using ⟨ih.1.cons c, ih.2⟩
  | @filler s t d hd hend _ ih =>
    obtain ⟨word, words, hs, hprefix⟩ := exists_splitOn_eq p s
    obtain ⟨word', words', ht, -⟩ := exists_splitOn_eq p t
    rw [hs, ht, List.forall₂_cons] at ih
    rw [hs]
    simpa [Text.splitOn, hp.filler hd, ht] using ⟨ih.1.filler hd (hend.of_isPrefix hprefix), ih.2⟩

/-! ## Trimming -/

theorem forall_isWhiteSpace_iff (h : Widened s t) :
    (∀ c ∈ t, isWhiteSpace c = true) ↔ ∀ c ∈ s, isWhiteSpace c = true := by
  induction h with
  | nil => rfl
  | cons c _ ih => rw [List.forall_mem_cons, List.forall_mem_cons, ih]
  | filler hd _ _ ih =>
    rw [List.forall_mem_cons, ih]
    exact and_iff_right (isWhiteSpace_of_isFiller hd)

theorem trimStart_eq_nil_iff (h : Widened s t) : trimStart t = [] ↔ trimStart s = [] := by
  rw [trimStart, trimStart, List.dropWhile_eq_nil_iff, List.dropWhile_eq_nil_iff]
  exact h.forall_isWhiteSpace_iff

theorem trimEnd_eq_nil_iff (h : Widened s t) : trimEnd t = [] ↔ trimEnd s = [] := by
  rw [Text.trimEnd_eq_nil_iff, Text.trimEnd_eq_nil_iff, h.forall_isWhiteSpace_iff]

theorem trimEnd (h : Widened s t) : Widened (trimEnd s) (trimEnd t) := by
  induction h with
  | nil => exact nil
  | @cons s t c h ih =>
    rw [trimEnd_cons_eq, trimEnd_cons_eq]
    by_cases hnil : isWhiteSpace c = true ∧ Text.trimEnd s = []
    · rw [if_pos hnil, if_pos ⟨hnil.1, h.trimEnd_eq_nil_iff.2 hnil.2⟩]
      exact nil
    · rw [if_neg hnil, if_neg fun ht => hnil ⟨ht.1, h.trimEnd_eq_nil_iff.1 ht.2⟩]
      exact ih.cons c
  | @filler s t d hd hs h ih =>
    rw [trimEnd_cons_eq]
    by_cases hnil : isWhiteSpace d = true ∧ Text.trimEnd t = []
    · rw [if_pos hnil, h.trimEnd_eq_nil_iff.1 hnil.2]
      exact nil
    · rw [if_neg hnil]
      exact ih.filler hd (hs.of_isPrefix (isPrefix_trimEnd s))

theorem trim (h : Widened s t) : Widened (trim s) (trim t) :=
  (h.dropWhile (p := isWhiteSpace) (by decide)).trimEnd

/-- Within one line only the end is widened. -/
theorem exists_eq_append (hs : '\n' ∉ s) (h : Widened s t) :
    ∃ w, t = s ++ w ∧ ∀ c ∈ w, isWhiteSpace c = true := by
  induction h with
  | nil => exact ⟨[], rfl, by simp⟩
  | cons c _ ih =>
    rw [List.mem_cons, not_or] at hs
    obtain ⟨w, rfl, hw⟩ := ih hs.2
    exact ⟨w, rfl, hw⟩
  | @filler s t d hd hend h ih =>
    cases s with
    | nil =>
      refine ⟨d :: t, rfl, fun c hc => isWhiteSpace_of_isFiller ?_⟩
      exact (h.filler hd hend).all_isFiller c hc
    | cons c s =>
      obtain rfl := atLineEnd_cons.1 hend
      simp at hs

/-- What is left of one line when it is trimmed does not change. -/
theorem trim_eq (hs : '\n' ∉ Text.trim s) (h : Widened s t) : Text.trim t = Text.trim s := by
  obtain ⟨w, ht, hw⟩ := h.trim.exists_eq_append hs
  calc Text.trim t = Text.trim (Text.trim t) := (trim_trim t).symm
    _ = Text.trim (Text.trim s) := by rw [ht, trim_append_blank hw]
    _ = Text.trim s := trim_trim s

/-- Trimmed lines do not change. -/
theorem trimLines_eq (h : Widened s t) : trimLines t = trimLines s := by
  have hlines : (lines t).map Text.trimEnd = (lines s).map Text.trimEnd := by
    induction h with
    | nil => rfl
    | @cons s t c _ ih =>
      by_cases hc : c = '\n'
      · simpa [lines, Text.splitOn, hc] using ih
      · obtain ⟨l, ls, hs, hcs⟩ := exists_lines_cons hc s
        obtain ⟨l', ls', ht, hct⟩ := exists_lines_cons hc t
        rw [hs, ht, List.map_cons, List.map_cons, List.cons.injEq] at ih
        rw [hcs, hct, List.map_cons, List.map_cons, trimEnd_cons_eq, trimEnd_cons_eq, ih.1, ih.2]
    | @filler s t d hd hend _ ih =>
      obtain ⟨l, ls, ht, hdt⟩ := exists_lines_cons (ne_lineFeed_of_isFiller hd) t
      have hs : ∃ ls, lines s = [] :: ls := by
        cases s with
        | nil => exact ⟨[], rfl⟩
        | cons c s =>
          obtain rfl := atLineEnd_cons.1 hend
          exact ⟨lines s, by simp [lines, Text.splitOn]⟩
      obtain ⟨ls', hs⟩ := hs
      rw [hs, ht, List.map_cons, List.map_cons, List.cons.injEq] at ih
      rw [hs, hdt, List.map_cons, List.map_cons, trimEnd_cons_eq, ih.1, ih.2]
      simp [isWhiteSpace_of_isFiller hd, Text.trimEnd]
  rw [trimLines, hlines, trimLines]

end Widened

end GrammarLab.Text
