import GrammarLab.Proofs.Text.Trim

/-!
# Lines without blanks at their ends

Removing blank space at the ends of the lines takes characters away, none of them a line feed. So
every character that stays is found again in the text, behind as many line feeds.

    trimLines s = before ++ rest →
      ∃ s₁ s₂, s = s₁ ++ s₂ ∧ trimLines s₂ = rest ∧ lineFeeds s₁ = lineFeeds before
                                                              (exists_split_of_trimLines)
-/

namespace GrammarLab.Text

/-- The text with the blank space at the ends of its lines removed. -/
def trimLines (s : List Char) : List Char := ['\n'].intercalate ((lines s).map trimEnd)

variable {s before rest : List Char} {c d : Char}

/-! ## One character more -/

theorem exists_lines_cons (hc : c ≠ '\n') (s : List Char) :
    ∃ l ls, lines s = l :: ls ∧ lines (c :: s) = (c :: l) :: ls := by
  obtain ⟨l, ls, hs, -⟩ := exists_splitOn_eq (· = '\n') s
  exact ⟨l, ls, hs, by simp [lines, splitOn, hc, hs]⟩

theorem trimEnd_cons (c : Char) (s : List Char) :
    trimEnd (c :: s) = c :: trimEnd s ∨
      (isWhiteSpace c = true ∧ trimEnd s = [] ∧ trimEnd (c :: s) = []) := by
  rw [trimEnd_cons_eq]
  split
  · next h => exact .inr ⟨h.1, h.2, rfl⟩
  · exact .inl rfl

theorem trimLines_lineFeed (s : List Char) : trimLines ('\n' :: s) = '\n' :: trimLines s := by
  have hlines : lines ('\n' :: s) = [] :: lines s := by simp [lines, splitOn]
  obtain ⟨l, ls, h, -⟩ := exists_splitOn_eq (· = '\n') s
  have h : lines s = l :: ls := h
  simp [trimLines, hlines, h, trimEnd, List.intercalate]

/-- A character stays, or it is blank space in front of the end of a line. -/
theorem trimLines_cons (c : Char) (s : List Char) :
    trimLines (c :: s) = c :: trimLines s ∨
      (isWhiteSpace c = true ∧ c ≠ '\n' ∧ trimLines (c :: s) = trimLines s ∧
        ∀ d ∈ (trimLines s).head?, d = '\n') := by
  by_cases hc : c = '\n'
  · exact .inl (hc ▸ trimLines_lineFeed s)
  obtain ⟨l, ls, hs, hcs⟩ := exists_lines_cons hc s
  have hjoin : ∀ l' : List Char, ['\n'].intercalate (l' :: ls.map trimEnd) =
      l' ++ ['\n'].intercalate ([] :: ls.map trimEnd) := fun l' => by
    cases ls <;> simp [List.intercalate]
  rw [trimLines, trimLines, hs, hcs, List.map_cons, List.map_cons, hjoin, hjoin (trimEnd l)]
  obtain heq | ⟨hblank, hl, hcl⟩ := trimEnd_cons c l
  · exact .inl (by rw [heq, List.cons_append])
  · refine .inr ⟨hblank, hc, by rw [hl, hcl], fun d hd => ?_⟩
    rw [hl] at hd
    cases ls with
    | nil => simp [List.intercalate] at hd
    | cons l' ls => simpa [List.intercalate] using hd.symm

/-! ## Characters that stay -/

/-- A text of which something stays that is no line feed begins with it, blank space at the end of
a line apart. -/
theorem exists_cons_of_trimLines (h : trimLines s = d :: rest) (hd : d ≠ '\n') :
    ∃ s', s = d :: s' := by
  cases s with
  | nil => simp [trimLines, lines, splitOn, trimEnd, List.intercalate] at h
  | cons c s =>
    obtain hkept | ⟨-, -, hgone, hhead⟩ := trimLines_cons c s
    · rw [hkept, List.cons.injEq] at h
      exact ⟨s, by rw [h.1]⟩
    · exact absurd (hhead d (by rw [← hgone, h]; rfl)) hd

theorem trimLines_sublist (s : List Char) : (trimLines s).Sublist s := by
  induction s with
  | nil => simp [trimLines, lines, splitOn, trimEnd, List.intercalate]
  | cons c s ih =>
    obtain hkept | ⟨-, -, hgone, -⟩ := trimLines_cons c s
    · exact hkept ▸ ih.cons_cons c
    · exact hgone ▸ ih.cons c

theorem mem_trimLines (hd : d ∈ s) (hblank : isWhiteSpace d = false) : d ∈ trimLines s := by
  induction s with
  | nil => simp at hd
  | cons c s ih =>
    obtain hkept | ⟨hc, -, hgone, -⟩ := trimLines_cons c s
    · rw [hkept]
      exact (List.mem_cons.1 hd).elim (· ▸ List.mem_cons_self)
        fun hs => List.mem_cons_of_mem c (ih hs)
    · have hne : d ≠ c := by
        rintro rfl
        simp [hc] at hblank
      exact hgone ▸ ih ((List.mem_cons.1 hd).resolve_left hne)

/-! ## Trimming all around -/

/-- Nothing is left of a text that is blank, and of no other one. -/
theorem trim_trimLines_eq_nil_iff : trim (trimLines s) = [] ↔ trimStart s = [] := by
  have hstart : trimStart (trimLines s) = [] ↔ trimStart s = [] := by
    rw [trimStart, trimStart, List.dropWhile_eq_nil_iff, List.dropWhile_eq_nil_iff]
    refine ⟨fun h d hd => ?_, fun h d hd => h d ((trimLines_sublist s).subset hd)⟩
    by_contra hblank
    have hblank : isWhiteSpace d = false := Bool.eq_false_iff.2 hblank
    simp [h d (mem_trimLines hd hblank)] at hblank
  rw [← hstart, trim, trimEnd, List.reverse_eq_nil_iff, List.dropWhile_eq_nil_iff]
  refine ⟨fun h => ?_, fun h => by simp [h]⟩
  by_contra hne
  obtain ⟨d, ds, hd⟩ := List.exists_cons_of_ne_nil hne
  have hblank := List.head?_dropWhile_not isWhiteSpace (trimLines s)
  rw [← trimStart, hd] at hblank
  simp [h d (by simp [hd])] at hblank

/-- What the text reads as: its lines without the blank space at the end of each and of all. -/
def readLines (s : List Char) : List Char := trimEnd (trimLines s)

/-- A character that is read stays in front of what is read behind it. -/
theorem readLines_cons (c : Char) (s : List Char) :
    readLines (c :: s) = c :: readLines s ∨ readLines (c :: s) = readLines s := by
  unfold readLines
  obtain hkept | ⟨-, -, hgone, -⟩ := trimLines_cons c s
  · rw [hkept]
    obtain heq | ⟨-, hs, hcs⟩ := trimEnd_cons c (trimLines s)
    · exact .inl heq
    · exact .inr (by rw [hs, hcs])
  · exact .inr (by rw [hgone])

/-- Of less text no more is read. -/
theorem length_readLines_le (s t : List Char) :
    (readLines t).length ≤ (readLines (s ++ t)).length := by
  induction s with
  | nil => exact Nat.le_refl _
  | cons c s ih =>
    rw [List.cons_append]
    obtain heq | heq := readLines_cons c (s ++ t)
    · rw [heq]
      exact Nat.le_succ_of_le ih
    · rw [heq]
      exact ih

theorem exists_trimLines_of_readLines (h : readLines s = rest) :
    ∃ trail, trimLines s = rest ++ trail := by
  obtain ⟨trail, htrail, -⟩ := exists_eq_trimEnd_append (trimLines s)
  exact ⟨trail, h ▸ htrail⟩

/-- A text that reads as a character that is no line feed and more begins with it, and the
character itself is read. -/
theorem exists_cons_of_readLines (h : readLines s = d :: rest) (hd : d ≠ '\n') :
    ∃ s', s = d :: s' ∧ readLines s' = rest := by
  obtain ⟨trail, htrail⟩ := exists_trimLines_of_readLines h
  obtain ⟨s', rfl⟩ := exists_cons_of_trimLines htrail hd
  refine ⟨s', rfl, ?_⟩
  obtain hkept | ⟨-, -, hgone, hhead⟩ := trimLines_cons d s'
  · rw [readLines, hkept] at h
    obtain heq | ⟨-, -, hnil⟩ := trimEnd_cons d (trimLines s')
    · rw [heq, List.cons.injEq] at h
      exact h.2
    · simp [hnil] at h
  · rw [hgone] at htrail
    exact absurd (hhead d (by rw [htrail]; rfl)) hd

end GrammarLab.Text
