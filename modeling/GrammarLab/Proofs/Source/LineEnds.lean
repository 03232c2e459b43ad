import GrammarLab.Proofs.Source.AlignedSteps
import GrammarLab.Proofs.Source.Lines

/-!
# Line ends of either kind

A source whose lines end with a carriage return and a line feed is read as one whose lines end with
the line feed alone: without comments the one is the other with blanks put in at its line ends, and
two runs over such texts go side by side, blanks apart that one of them passes on its own.

    scan limits (withReturns s) = scan limits s                     (scan_withReturns)
-/

namespace GrammarLab.Source

open Text

/-- The text with a carriage return in front of each line feed. -/
def withReturns (s : List Char) : List Char :=
  s.flatMap fun c => if c = '\n' then ['\r', c] else [c]

variable {s t text : List Char} {limits : ScanLimits}

/-! ## Comments -/

theorem withReturns_cons_of_ne {c : Char} (hc : c ≠ '\n') (s : List Char) :
    withReturns (c :: s) = c :: withReturns s := by simp [withReturns, hc]

theorem withReturns_lineFeed (s : List Char) :
    withReturns ('\n' :: s) = '\r' :: '\n' :: withReturns s := by simp [withReturns]

/-- Only what begins with a line feed begins differently. -/
theorem head?_withReturns {d : Char} (hd : d ≠ '\n') (hr : d ≠ '\r') (s : List Char) :
    (withReturns s).head? = some d ↔ s.head? = some d := by
  cases s with
  | nil => rfl
  | cons c s =>
    by_cases hc : c = '\n'
    · simp [hc, withReturns_lineFeed, hr.symm, hd.symm]
    · simp [withReturns_cons_of_ne hc]

theorem afterLineFeed_afterQuoted (mark c : Char) :
    (CommentState.afterQuoted mark c).afterLineFeed = .code := by
  unfold CommentState.afterQuoted
  split
  · rfl
  split <;> rfl

/-- A carriage return is kept or blanked out, and the line feed ends what it always ends. -/
theorem exists_stripFrom_return (state : CommentState) (s : List Char) :
    ∃ d, isFiller d = true ∧ stripFrom state ('\r' :: '\n' :: s) =
      d :: '\n' :: stripFrom state.afterLineFeed s := by
  have hne : '\r' ≠ '\n' := by decide
  cases state with
  | code =>
    refine ⟨'\r', by decide, ?_⟩
    rw [stripFrom_code hne (by simp) (by simp), stripFrom_lineFeed]
    rfl
  | lineComment => exact ⟨' ', by decide, by rw [stripFrom, if_neg hne, stripFrom_lineFeed]⟩
  | blockComment =>
    exact ⟨' ', by decide, by
      rw [stripFrom_blockComment hne (by simp), stripFrom_lineFeed]⟩
  | quoted mark =>
    refine ⟨'\r', by decide, ?_⟩
    rw [stripFrom, if_neg hne, stripFrom_lineFeed, afterLineFeed_afterQuoted]
    rfl
  | quotedEscape mark =>
    exact ⟨'\r', by decide, by rw [stripFrom, if_neg hne, stripFrom_lineFeed]; rfl⟩
  | inClass => exact ⟨'\r', by decide, by rw [stripFrom, if_neg hne, stripFrom_lineFeed]; rfl⟩
  | classEscape => exact ⟨'\r', by decide, by rw [stripFrom, if_neg hne, stripFrom_lineFeed]; rfl⟩

theorem widened_stripFrom (state : CommentState) (s : List Char) :
    Widened (stripFrom state s) (stripFrom state (withReturns s)) := by
  have hslash : ∀ s : List Char, (withReturns s).head? = some '/' ↔ s.head? = some '/' :=
    head?_withReturns (by decide) (by decide)
  have hstar : ∀ s : List Char, (withReturns s).head? = some '*' ↔ s.head? = some '*' :=
    head?_withReturns (by decide) (by decide)
  fun_induction stripFrom state s with
  | case1 state =>
    rw [withReturns, List.flatMap_nil, stripFrom]
    exact .nil
  | case2 state cs ih =>
    obtain ⟨d, hd, heq⟩ := exists_stripFrom_return state (withReturns cs)
    rw [withReturns_lineFeed, heq]
    exact (ih.cons '\n').filler hd (atLineEnd_cons.2 rfl)
  | case3 c cs hc ih =>
    rw [withReturns_cons_of_ne hc, stripFrom, if_neg hc]
    exact ih.cons ' '
  | case4 c hc =>
    rw [withReturns_cons_of_ne hc, stripFrom_blockComment hc (by simp [hslash])]
    simp [withReturns, stripFrom, Widened.refl]
  | case5 c hc d ds hend ih =>
    obtain ⟨rfl, rfl⟩ : c = '*' ∧ d = '/' := by simpa using hend
    rw [withReturns_cons_of_ne hc, withReturns_cons_of_ne (by decide)]
    simpa [stripFrom] using (ih.cons ' ').cons ' '
  | case6 c hc d ds hend ih =>
    have hend : ¬(c = '*' ∧ d = '/') := by simpa using hend
    rw [withReturns_cons_of_ne hc, stripFrom_blockComment hc (by simpa [hslash] using hend)]
    exact ih.cons ' '
  -- in quotes and in classes every character is kept
  | case7 c cs hc mark ih | case8 c cs hc mark ih | case9 c cs hc ih | case10 c cs hc ih =>
    rw [withReturns_cons_of_ne hc, stripFrom, if_neg hc]
    exact ih.cons c
  | case11 c hc =>
    rw [withReturns_cons_of_ne hc, stripFrom_code hc (by simp [hslash]) (by simp [hstar])]
    simp [withReturns, stripFrom, Widened.refl]
  | case12 c hc d ds hopen ih =>
    obtain ⟨rfl, rfl⟩ : c = '/' ∧ d = '/' := by simpa using hopen
    rw [withReturns_cons_of_ne hc, withReturns_cons_of_ne (by decide)]
    simpa [stripFrom] using (ih.cons ' ').cons ' '
  | case13 c hc d ds hline hopen ih =>
    obtain ⟨rfl, rfl⟩ : c = '/' ∧ d = '*' := by simpa using hopen
    rw [withReturns_cons_of_ne hc, withReturns_cons_of_ne (by decide)]
    simpa [stripFrom] using (ih.cons ' ').cons ' '
  | case14 c hc d ds hline hblock ih =>
    have hline : ¬(c = '/' ∧ d = '/') := by simpa using hline
    have hblock : ¬(c = '/' ∧ d = '*') := by simpa using hblock
    rw [withReturns_cons_of_ne hc, stripFrom_code hc (by simpa [hslash] using hline)
      (by simpa [hstar] using hblock)]
    exact ih.cons c

/-! ## Backslashes -/

/-- Where a line ends it does so behind a character that is no backslash. -/
theorem unbroken_of_lines (hs : ∀ l ∈ lines s, l.getLast? ≠ some '\\') : Unbroken s := by
  induction s with
  | nil => exact .nil
  | cons c s ih =>
    by_cases hc : c = '\n'
    · have hlines : lines (c :: s) = [] :: lines s := by simp [lines, splitOn, hc]
      rw [hlines, List.forall_mem_cons] at hs
      exact (ih hs.2).cons fun _ _ hback => by simp [hc] at hback
    · obtain ⟨l, ls, hl, hcl⟩ := exists_lines_cons hc s
      rw [hcl, List.forall_mem_cons] at hs
      have hrest : ∀ l' ∈ lines s, l'.getLast? ≠ some '\\' := by
        rw [hl, List.forall_mem_cons]
        refine ⟨fun hlast => hs.1 ?_, hs.2⟩
        cases l with
        | nil => simp at hlast
        | cons e l => rwa [List.getLast?_cons_cons]
      refine (ih hrest).cons fun d hd hback hfeed => ?_
      subst hback hfeed
      obtain ⟨s, rfl⟩ := List.head?_eq_some_iff.1 hd
      have hempty : lines ('\n' :: s) = [] :: lines s := by simp [lines, splitOn]
      rw [hempty, List.cons.injEq] at hl
      exact hs.1 (by rw [← hl.1]; rfl)

theorem Unbroken.of_forall₂ (h : List.Forall₂ (fun c d => d = c ∨ d = ' ') s t)
    (hs : Unbroken s) : Unbroken t := by
  induction h with
  | nil => exact .nil
  | @cons c d s t hcd hst ih =>
    refine (ih hs.tail).cons fun e he hback hfeed => ?_
    subst hback hfeed
    obtain rfl := hcd.resolve_right (by decide)
    cases hst with
    | nil => simp at he
    | @cons c' d' s t hcd' _ =>
      obtain rfl : d' = '\n' := by simpa using he
      obtain rfl := hcd'.resolve_right (by decide)
      exact (List.isChain_cons_cons.1 hs).1 rfl rfl

/-! ## Runs -/

namespace Machine

variable {m m' : Machine} {c c' : Cursor} {d d' : Draft} {h : Header}

theorem onward_step (hs : Step limits m m') : Onward m.cursor m'.cursor := by
  cases hs with
  | reads hr => exact hr.onward
  | mode name line hc => exact hc
  | opens ho => exact ho.onward
  | header afterThrows hc => exact hc
  | abandons hr => exact hr.onward
  | colon rest hrest => exact .advance 1 _
  | body => exact .advance _ _

/-- Outside bodies a blank is passed on its own. -/
theorem step_filler {e : Char} (he : isFiller e = true) (hbody : ∀ h, m.state ≠ .body h) :
    step limits e m = ⟨m.state, m.draft, m.cursor.advance 1⟩ := by
  have hline : e ≠ '\n' := ne_lineFeed_of_isFiller he
  obtain ⟨state, d, c⟩ := m
  cases state with
  | outside => simp [step, stepOutside, isWhiteSpace_of_isFiller he]
  | header h => simp [step, stepHeader, isWhiteSpace_of_isFiller he, hline]
  | body h => exact absurd rfl (hbody h)

/-- At the end of the text a body is closed by a step as it is without one. -/
theorem close_run_body (h : Header) (d : Draft) (c : Cursor) :
    (run limits ⟨.body h, d, c⟩).close = (run limits (stepBody limits h d c)).close := by
  cases hrest : c.rest with
  | cons first rest => rw [run_of_rest_cons hrest]; rfl
  | nil =>
    have hbody : stepBody limits h d c = ⟨.outside, d.finishRule h c [] false, c.advance 1⟩ := by
      simp [stepBody, hrest, bodyReach]
    rw [hbody, run_of_rest_nil hrest, run_of_rest_nil (by simp [hrest])]
    rfl

theorem agrees_close (hm : m.Agrees m') : m.close.Agrees m'.close := by
  obtain ⟨state, d, c⟩ := m
  obtain ⟨state', d', c'⟩ := m'
  obtain ⟨rfl, hd, hc⟩ := hm
  cases state' with
  | outside => exact hd
  | header h => exact agrees_missingColon hd
  | body h =>
    show (d.finishRule h c [] false).Agrees (d'.finishRule h c' [] false)
    rw [finishRule_eq h false d' hc .nil]
    exact hd.map (keepsOptions_finishRule _ _ _ _)

/-- Machines that agree end with drafts that agree. -/
theorem agrees_close_run (hm : m.Agrees m') (hs : Unbroken m.cursor.rest) :
    (m.run limits).close.Agrees (m'.run limits).close := by
  -- on the potential of the second machine, which alone passes the blanks
  induction hn : potential m' using Nat.strong_induction_on generalizing m m' with
  | _ n ih =>
  subst hn
  cases hrest' : m'.cursor.rest with
  | nil =>
    have hrest : m.cursor.rest = [] := (hrest' ▸ hm.cursor.rest).eq_nil_of_right
    rw [run_of_rest_nil hrest, run_of_rest_nil hrest']
    exact agrees_close hm
  | cons first t =>
    have hless : potential (step limits first m') < potential m' :=
      potential_step limits first m' (by simp [hrest'])
    have hnext : ∀ n : Machine, n.Agrees (step limits first m') → Onward m.cursor n.cursor →
        (n.run limits).close.Agrees (m'.run limits).close := by
      intro n hagrees honward
      rw [run_of_rest_cons hrest']
      exact ih _ hless hagrees (hs.onward honward) rfl
    have hw : Widened m.cursor.rest (first :: t) := hrest' ▸ hm.cursor.rest
    generalize hrest : m.cursor.rest = s at hw
    cases hw with
    | cons _ hw =>
      rw [run_of_rest_cons hrest]
      exact hnext _ (hm.step hs hrest hrest' hw) (onward_step (step_cases hrest))
    | filler hfiller hend hw =>
      obtain ⟨state, d, c⟩ := m
      by_cases hbody : ∃ h, state = .body h
      · obtain ⟨h, rfl⟩ := hbody
        have hstep : step limits first m' = stepBody limits h m'.draft m'.cursor := by
          rw [step, hm.state]
        rw [close_run_body]
        exact hnext _ (hstep ▸ agrees_stepBody hm.draft hm.cursor) (.advance _ _)
      · have hpass : step limits first m' = ⟨state, m'.draft, m'.cursor.advance 1⟩ := by
          rw [step_filler hfiller fun h hstate => hbody ⟨h, hm.state.symm.trans hstate⟩, hm.state]
        have hcursor : Aligned c (m'.cursor.advance 1) :=
          hm.cursor.passFiller hrest' hfiller (hrest ▸ hw)
        exact hnext _ (hpass ▸ ⟨rfl, hm.draft, hcursor⟩) (.refl _)

end Machine

/-! ## Sources -/

theorem OptionsAlike.eq {xs ys : List (String × String)} (h : OptionsAlike xs ys)
    (hxs : ∀ x ∈ xs, '\n' ∉ x.2.toList) : ys = xs := by
  induction h with
  | nil => rfl
  | cons hxy _ ih =>
    rw [List.forall_mem_cons] at hxs
    rw [ih hxs.2, Prod.ext hxy.1 (hxy.2 hxs.1)]

/-- A source whose lines end with a carriage return and a line feed is scanned as it is with line
feeds alone, unless one of its lines ends with a backslash or an option has a value of more than
one line. -/
theorem scan_withReturns (limits : ScanLimits) (s : List Char)
    (hlines : ∀ l ∈ lines s, l.getLast? ≠ some '\\')
    (hoptions : ∀ option ∈ (scan limits s).1.options, '\n' ∉ option.2.toList) :
    scan limits (withReturns s) = scan limits s := by
  have hunbroken : Unbroken (strip s) :=
    .of_forall₂ (forall₂_stripFrom .code s) (unbroken_of_lines hlines)
  have hstart : Machine.Agrees { cursor := .start (strip s) }
      { cursor := .start (strip (withReturns s)) } :=
    ⟨rfl, ⟨[], rfl, .nil⟩, rfl, widened_stripFrom .code s⟩
  obtain ⟨options, hdraft, halike⟩ : (Machine.scanned limits s).close.Agrees
      (Machine.scanned limits (withReturns s)).close := Machine.agrees_close_run hstart hunbroken
  rw [halike.eq hoptions] at hdraft
  have hsame : (Machine.scanned limits (withReturns s)).close =
      (Machine.scanned limits s).close := hdraft
  refine Prod.ext ?_ ?_
  · rw [Machine.grammar_scan, Machine.grammar_scan, hsame]
  · rw [Machine.diagnostics_scan, Machine.diagnostics_scan, hsame]

/-- Comments, a block of options and two rules, the first one over two lines and without its `;`. -/
def listing : List Char :=
  "lexer grammar L; // L\noptions \x7b\nk = v;\n\x7d\nA /* a\nb */\n: 'a' [\"\nB : A ; ?\n".toList

theorem scan_withReturns_listing :
    (∀ l ∈ lines listing, l.getLast? ≠ some '\\') ∧
      (∀ option ∈ (scan {} listing).1.options, '\n' ∉ option.2.toList) ∧
      scan {} (withReturns listing) = scan {} listing :=
  have hlines : ∀ l ∈ lines listing, l.getLast? ≠ some '\\' := by decide +kernel
  have hoptions : ∀ option ∈ (scan {} listing).1.options, '\n' ∉ option.2.toList := by
    decide +kernel
  ⟨hlines, hoptions, scan_withReturns {} listing hlines hoptions⟩

end GrammarLab.Source
