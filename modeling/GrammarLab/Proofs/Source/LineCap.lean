import GrammarLab.Proofs.Source.Accounting
import GrammarLab.Proofs.Source.Lines

/-!
# Rules within the line cap

The cap is asked for at the line feeds of a body and of the blank space in a header. A bracketed part
of a header is passed over in one step and the line feeds in it are not counted. So the colon of a
rule may stand beyond the cap, and then the body ends with the line of the colon. The cap bounds all
other rules.

    endLine - lineNumber < cap ↔ bodyLine - lineNumber < cap           (scan_bounds_lines_iff)
-/

namespace GrammarLab.Source

open Text

variable {limits : ScanLimits} {c : Cursor} {h : Header} {d : Draft}

/-! ## Places on one line -/

/-- Characters other than line feeds are passed on one line. -/
theorem line_pass {p : Char → Bool} (hp : p '\n' = false) (c : Cursor) :
    (c.pass p).line = c.line := by
  have hfree : lineFeeds (c.rest.takeWhile p) = 0 := by
    unfold lineFeeds
    rw [List.count_eq_zero]
    intro hmem
    have hfeed := List.mem_takeWhile_imp hmem
    rw [hp] at hfeed
    cases hfeed
  have htake := List.prefix_iff_eq_take.1 (List.takeWhile_prefix p (l := c.rest))
  show c.line + lineFeeds (c.rest.take _) = c.line
  rw [← htake, hfree]
  rfl

theorem line_passWord (c : Cursor) : c.passWord.line = c.line := line_pass (by decide) c

theorem line_advance_one {first : Char} {rest : List Char} (hc : c.rest = first :: rest)
    (hfirst : first ≠ '\n') : (c.advance 1).line = c.line := by
  show c.line + lineFeeds (c.rest.take 1) = c.line
  rw [hc]
  simp [lineFeeds, hfirst]

/-- A header begins on the line of its name. -/
theorem line_of_header? {c' : Cursor} (hh : header? c = some (h, c')) : c'.line = h.line := by
  unfold header? at hh
  rcases hp : passModifiers false c with ⟨f, c₁⟩
  simp only [hp] at hh
  split at hh
  · obtain ⟨rfl, rfl⟩ := Prod.mk.inj (Option.some.inj hh)
    exact line_passWord c₁
  · cases hh

/-! ## Bodies -/

/-- But for the line feed that may end it, a body has fewer line feeds than there are lines left, and
none if no line is left. -/
theorem exists_bodyReach_eq (left braces : Nat) (state : BodyState) (s : List Char) :
    ∃ init, lineFeeds init ≤ left - 1 ∧
      (s.take (bodyReach left braces state s).length = init ∨
        (bodyReach left braces state s).reason ≠ .terminator ∧
          s.take (bodyReach left braces state s).length = init ++ ['\n']) := by
  fun_induction bodyReach left braces state s with
  | case1 => exact ⟨[], Nat.zero_le _, .inl rfl⟩
  | case2 => exact ⟨[], Nat.zero_le _, .inr ⟨by simp, rfl⟩⟩
  | case3 => exact ⟨[], Nat.zero_le _, .inr ⟨by simp, rfl⟩⟩
  | case4 left braces state cs hleft hopen ih =>
    obtain ⟨init, hfeeds, hcases⟩ := ih
    have hcount : lineFeeds ('\n' :: init) = lineFeeds init + 1 := List.count_cons_self
    refine ⟨'\n' :: init, by omega, ?_⟩
    rcases hcases with heq | ⟨hreason, heq⟩
    · exact .inl (congrArg ('\n' :: ·) heq)
    · exact .inr ⟨hreason, congrArg ('\n' :: ·) heq⟩
  | case5 => exact ⟨[], Nat.zero_le _, .inl rfl⟩
  | case6 left braces state first cs hfirst hsemi state' braces' hnext ih =>
    obtain ⟨init, hfeeds, hcases⟩ := ih
    have hcount : lineFeeds (first :: init) = lineFeeds init := List.count_cons_of_ne hfirst
    refine ⟨first :: init, by omega, ?_⟩
    rcases hcases with heq | ⟨hreason, heq⟩
    · exact .inl (congrArg (first :: ·) heq)
    · exact .inr ⟨hreason, congrArg (first :: ·) heq⟩

theorem lineFeeds_trimEnd_le (s : List Char) : lineFeeds (trimEnd s) ≤ lineFeeds s :=
  lineFeeds_le_of_isPrefix (isPrefix_trimEnd s)

/-- A body ends on one of the lines that are left, or on the line of its colon. -/
theorem endLine_le_of_bodyReach (left : Nat) (c : Cursor) :
    endLine c (c.rest.take (bodyReach left 0 .code c.rest).length)
        ((bodyReach left 0 .code c.rest).reason = .terminator) ≤ c.line + (left - 1) := by
  obtain ⟨init, hfeeds, hcases⟩ := exists_bodyReach_eq left 0 .code c.rest
  have htrimmed : lineFeeds (trimEnd (c.rest.take (bodyReach left 0 .code c.rest).length)) ≤
      left - 1 := by
    rcases hcases with heq | ⟨-, heq⟩
    · rw [heq]
      exact Nat.le_trans (lineFeeds_trimEnd_le init) hfeeds
    · rw [heq, trimEnd_append_blank (List.forall_mem_singleton.2 rfl)]
      exact Nat.le_trans (lineFeeds_trimEnd_le init) hfeeds
  unfold endLine
  split
  · rename_i hterminated
    have heq := hcases.resolve_right fun hopen => hopen.1 (of_decide_eq_true hterminated)
    rw [heq]
    omega
  split
  · rename_i hblank
    rw [bodyLine, if_pos hblank]
    omega
  · omega

/-! ## Headers -/

/-- The step passes over a bracketed part of the header of the rule that begins within the cap and
ends beyond it. -/
structure PassesCap (limits : ScanLimits) (name : List Char) (line : Nat) (p : Machine × Machine) :
    Prop where
  header : ∃ h, p.1.state = .header h ∧ h.name = name ∧ h.line = line
  goesOn : ∃ h, p.2.state = .header h ∧ h.name = name ∧ h.line = line
  block : ∃ opening closing inside, (opening, closing) ∈ [('[', ']'), ('\x7b', '\x7d')] ∧
    p.1.cursor.block? opening closing = some (inside, p.2.cursor)
  before : p.1.cursor.line < line + limits.maxRuleLines
  behind : line + limits.maxRuleLines ≤ p.2.cursor.line

/-- The machine is in the rule of the header, in its own header or its body. -/
def Machine.IsWithin (m : Machine) (h : Header) : Prop := m.state = .header h ∨ m.state = .body h

/-- What a step of a header comes to, if it stays in the rule: the line is still within the cap, or a
bracketed part has passed it. -/
def Machine.StaysCapped (limits : ScanLimits) (h : Header) (m m' : Machine) : Prop :=
  ∀ h', m'.IsWithin h' → h'.name = h.name ∧ h'.line = h.line ∧
    (m'.cursor.line < h.line + limits.maxRuleLines ∨ PassesCap limits h.name h.line (m, m'))

namespace Machine

theorem not_isWithin_outside (d : Draft) (c : Cursor) (h : Header) :
    ¬IsWithin ⟨.outside, d, c⟩ h := by
  rintro (hstate | hstate)
  · cases hstate
  · cases hstate

theorem staysCapped_outside (m : Machine) (d : Draft) (c : Cursor) :
    StaysCapped limits h m ⟨.outside, d, c⟩ := by
  intro h' hh
  exact absurd hh (not_isWithin_outside d c h')

/-- A header that goes on within the cap. -/
theorem staysCapped_header {h' : Header} {c' : Cursor} (m : Machine) (d : Draft)
    (hname : h'.name = h.name) (hline : h'.line = h.line)
    (hcap : c'.line < h.line + limits.maxRuleLines) :
    StaysCapped limits h m ⟨.header h', d, c'⟩ := by
  rintro k (hstate | hstate)
  · obtain rfl := State.header.inj hstate
    exact ⟨hname, hline, .inl hcap⟩
  · cases hstate

variable {first : Char} {rest : List Char} (hcap : c.line < h.line + limits.maxRuleLines)

include hcap

theorem staysCapped_headerBlock {opening closing : Char}
    (hmarks : (opening, closing) ∈ [('[', ']'), ('\x7b', '\x7d')]) :
    StaysCapped limits h ⟨.header h, d, c⟩ (headerBlock h opening closing d c) := by
  unfold headerBlock
  split
  · rename_i inside c' hblock
    by_cases hbehind : c'.line < h.line + limits.maxRuleLines
    · exact staysCapped_header _ d rfl rfl hbehind
    · rintro k (hstate | hstate)
      · obtain rfl := State.header.inj hstate
        exact ⟨rfl, rfl, .inr ⟨⟨h, rfl, rfl, rfl⟩, ⟨h, rfl, rfl, rfl⟩,
          ⟨opening, closing, inside, hmarks, hblock⟩, hcap, Nat.le_of_not_lt hbehind⟩⟩
      · cases hstate
  · exact staysCapped_outside _ _ _

theorem staysCapped_headerWord :
    StaysCapped limits h ⟨.header h, d, c⟩ (headerWord h first d c) := by
  have hword : c.passWord.line < h.line + limits.maxRuleLines := by rwa [line_passWord]
  unfold headerWord
  split
  · exact staysCapped_header _ d rfl rfl hword
  split
  · exact staysCapped_header _ d rfl rfl hword
  split
  · exact staysCapped_header _ d rfl rfl hword
  · unfold abandonHeader
    simp only
    split
    · exact staysCapped_outside _ _ _
    split
    · exact staysCapped_outside _ _ _
    · exact staysCapped_outside _ _ _

/-- Blank space is asked for the cap, and nothing but a bracketed part has further line feeds. -/
theorem staysCapped_stepHeader (hc : c.rest = first :: rest) :
    StaysCapped limits h ⟨.header h, d, c⟩ (stepHeader limits h first d c) := by
  have hone : first ≠ '\n' → (c.advance 1).line < h.line + limits.maxRuleLines := by
    intro hfirst
    rwa [line_advance_one hc hfirst]
  unfold stepHeader
  split
  · split
    · exact staysCapped_outside _ _ _
    · rename_i hgoes
      by_cases hfeed : first = '\n'
      · simp only [hfeed, decide_true, Bool.true_and, decide_eq_true_eq, Nat.not_le] at hgoes
        exact staysCapped_header _ d rfl rfl (by omega)
      · exact staysCapped_header _ d rfl rfl (hone hfeed)
  rename_i hblank
  have hfirst : first ≠ '\n' := by
    rintro rfl
    exact hblank (by decide)
  split
  · rintro k (hstate | hstate)
    · cases hstate
    · obtain rfl := State.body.inj hstate
      exact ⟨rfl, rfl, .inl (hone hfirst)⟩
  split
  · exact staysCapped_headerBlock hcap (by decide)
  split
  · exact staysCapped_headerBlock hcap (by decide)
  split
  · refine staysCapped_header _ d rfl rfl ?_
    rw [line_passWord]
    exact hone hfirst
  split
  · exact staysCapped_header _ d rfl rfl (hone hfirst)
  · exact staysCapped_headerWord hcap

end Machine

/-! ## Runs -/

/-- The rule is within the cap, or one of the steps has passed the cap in its header and its body
ends on the line on which it begins. -/
def IsBounded (limits : ScanLimits) (past : List (Machine × Machine)) (r : Rule) : Prop :=
  r.endLine < r.lineNumber + limits.maxRuleLines ∨
    r.lineNumber + limits.maxRuleLines ≤ r.bodyLine ∧ r.bodyLine = r.endLine ∧
      ∃ p ∈ past, PassesCap limits r.name.toList r.lineNumber p

namespace Machine

/-- What a run keeps that makes the steps `past`. -/
structure Capped (limits : ScanLimits) (past : List (Machine × Machine)) (m : Machine) : Prop where
  rules : ∀ r ∈ m.draft.grammar.rules, IsBounded limits past r
  line_le : ∀ h, m.IsWithin h → h.line ≤ m.cursor.line
  within : ∀ h, m.IsWithin h → m.cursor.line < h.line + limits.maxRuleLines ∨
    ∃ p ∈ past, PassesCap limits h.name h.line p

variable {past : List (Machine × Machine)} {m : Machine}

/-- A rule that is closed behind its colon at `c` is bounded if its body is. -/
theorem capped_finishRule {raw : List Char} {terminated : Bool} {e : Cursor}
    (hm : Capped limits past ⟨.body h, d, c⟩)
    (hend : endLine c raw terminated ≤ c.line + (limits.maxRuleLines - (c.line - h.line) - 1)) :
    Capped limits past ⟨.outside, d.finishRule h c raw terminated, e⟩ := by
  have hle : h.line ≤ c.line := hm.line_le h (.inr rfl)
  refine ⟨?_, fun h' hh => absurd hh (not_isWithin_outside _ _ h'),
    fun h' hh => absurd hh (not_isWithin_outside _ _ h')⟩
  intro r hr
  rcases rules_finishRule h c raw terminated d with hrules | ⟨d', hrules⟩
  · exact hm.rules r (hrules ▸ hr)
  have hmem : r ∈ d.grammar.rules ++ [d'.ruleOf h c raw terminated] := hrules ▸ hr
  rcases List.mem_append.1 hmem with hold | hnew
  · exact hm.rules r hold
  obtain rfl := List.mem_singleton.1 hnew
  have hcolon : c.line ≤ bodyLine c raw := line_le_bodyLine c raw
  have hbody : bodyLine c raw ≤ endLine c raw terminated := bodyLine_le_endLine c raw terminated
  by_cases hcap : c.line < h.line + limits.maxRuleLines
  · left
    show endLine c raw terminated < h.line + limits.maxRuleLines
    omega
  · -- the colon is beyond the cap already, so no line is left
    right
    obtain ⟨p, hp, hpasses⟩ := (hm.within h (.inr rfl)).resolve_left hcap
    refine ⟨?_, ?_, p, hp, ?_⟩
    · show h.line + limits.maxRuleLines ≤ bodyLine c raw
      omega
    · show bodyLine c raw = endLine c raw terminated
      omega
    · show PassesCap limits (String.ofList h.name).toList h.line p
      rwa [String.toList_ofList]

/-- One step, which is one of the past steps itself. -/
theorem capped_step {first : Char} {rest : List Char} (hn : 1 ≤ limits.maxRuleLines)
    (hrest : m.cursor.rest = first :: rest) (hpast : (m, step limits first m) ∈ past)
    (hm : Capped limits past m) : Capped limits past (step limits first m) := by
  obtain ⟨state, d, c⟩ := m
  have hrest : c.rest = first :: rest := hrest
  cases state with
  | outside =>
    have hs : Step limits ⟨.outside, d, c⟩ (stepOutside first d c) := step_outside first d c
    have hrules : (stepOutside first d c).draft.grammar.rules = d.grammar.rules := by
      generalize stepOutside first d c = m' at hs
      cases hs with
      | reads hr => exact hr.alike.rules
      | mode name line hc => rfl
      | opens ho => rfl
    have hline : ∀ h', (stepOutside first d c).IsWithin h' →
        (stepOutside first d c).cursor.line = h'.line := by
      intro h'
      unfold stepOutside
      split
      · exact fun hh => absurd hh (not_isWithin_outside _ _ h')
      split
      · exact fun hh => absurd hh (not_isWithin_outside _ _ h')
      split
      · rename_i hh
        rintro (hs | hs)
        · obtain rfl := State.header.inj hs
          exact line_of_header? hh
        · cases hs
      · exact fun hh => absurd hh (not_isWithin_outside _ _ h')
    show Capped limits past (stepOutside first d c)
    refine ⟨fun r hr => hm.rules r (hrules ▸ hr), fun h' hh => ?_, fun h' hh => .inl ?_⟩
    · rw [hline h' hh]
    · rw [hline h' hh]
      omega
  | header h =>
    have hs : Step limits ⟨.header h, d, c⟩ (stepHeader limits h first d c) := step_header d hrest
    have hle : h.line ≤ c.line := hm.line_le h (.inl rfl)
    have hkept : (stepHeader limits h first d c).draft.grammar.rules = d.grammar.rules ∧
        Onward c (stepHeader limits h first d c).cursor ∧
          ∀ h', (stepHeader limits h first d c).IsWithin h' → h'.name = h.name ∧ h'.line = h.line := by
      generalize stepHeader limits h first d c = m' at hs
      cases hs with
      | header afterThrows hc =>
        refine ⟨rfl, hc, ?_⟩
        rintro h' (hs | hs)
        · obtain rfl := State.header.inj hs
          exact ⟨rfl, rfl⟩
        · cases hs
      | abandons hr =>
        exact ⟨hr.alike.rules, hr.onward, fun h' hh => absurd hh (not_isWithin_outside _ _ h')⟩
      | colon rest' hcolon =>
        refine ⟨rfl, .advance 1 c, ?_⟩
        rintro h' (hs | hs)
        · cases hs
        · obtain rfl := State.body.inj hs
          exact ⟨rfl, rfl⟩
    obtain ⟨hrules, honward, hsame⟩ := hkept
    show Capped limits past (stepHeader limits h first d c)
    refine ⟨fun r hr => hm.rules r (hrules ▸ hr), fun h' hh => ?_, fun h' hh => ?_⟩
    · rw [(hsame h' hh).2]
      exact Nat.le_trans hle honward.line_le
    · rw [(hsame h' hh).1, (hsame h' hh).2]
      rcases hm.within h (.inl rfl) with hcap | hpassed
      · obtain ⟨-, -, hstill | hpasses⟩ := staysCapped_stepHeader hcap hrest h' hh
        · exact .inl hstill
        · exact .inr ⟨_, hpast, hpasses⟩
      · exact .inr hpassed
  | body h => exact capped_finishRule hm (endLine_le_of_bodyReach _ c)

/-- A run whose steps are among the past ones keeps all rules bounded. -/
theorem capped_run (hn : 1 ≤ limits.maxRuleLines) (hpast : m.steps limits ⊆ past)
    (hm : Capped limits past m) : Capped limits past (m.run limits) := by
  fun_induction run limits m with
  | case1 => exact hm
  | case2 m first rest hrest ih =>
    have hsteps : m.steps limits =
        (m, step limits first m) :: (step limits first m).steps limits := by
      rw [steps]
      split
      · simp_all
      · simp_all
    rw [hsteps, List.cons_subset] at hpast
    exact ih hpast.2 (capped_step hn hrest hpast.1 hm)

theorem capped_close (hm : Capped limits past m) :
    ∀ r ∈ m.close.grammar.rules, IsBounded limits past r := by
  obtain ⟨state, d, c⟩ := m
  cases state with
  | outside => exact hm.rules
  | header h => exact hm.rules
  | body h =>
    have hend : endLine c [] false ≤ c.line + (limits.maxRuleLines - (c.line - h.line) - 1) := by
      show c.line ≤ _
      omega
    exact (capped_finishRule (e := c) hm hend).rules

end Machine

/-! ## Results -/

/-- A rule spans fewer lines than the cap behind the line of its name iff its body begins there. A
rule that spans more has a body on one line, and in its header is a bracketed part that begins within
the cap and ends beyond it; so all rules of a source without such a part are within the cap. -/
theorem scan_bounds_lines_iff (limits : ScanLimits) (source : List Char)
    (hn : 1 ≤ limits.maxRuleLines) :
    let past := Machine.steps limits { cursor := .start (strip source) }
    ∀ r ∈ (scan limits source).1.rules,
      (r.endLine - r.lineNumber < limits.maxRuleLines ↔
        r.bodyLine - r.lineNumber < limits.maxRuleLines) ∧
      (limits.maxRuleLines ≤ r.endLine - r.lineNumber →
        r.bodyLine = r.endLine ∧ ∃ p ∈ past, PassesCap limits r.name.toList r.lineNumber p) := by
  intro past r hr
  have hstart : Machine.Capped limits past { cursor := .start (strip source) } := by
    exact ⟨by simp, fun h hh => absurd hh (Machine.not_isWithin_outside _ _ h),
      fun h hh => absurd hh (Machine.not_isWithin_outside _ _ h)⟩
  have hbounded : IsBounded limits past r :=
    Machine.capped_close (Machine.capped_run hn (fun _ h => h) hstart) r hr
  obtain ⟨-, -, hbody, -⟩ : LinesInOrder (lineCount (strip source)) r :=
    (Machine.located_close (Machine.located_scanned limits source)).ordered r hr
  rcases hbounded with hless | ⟨hbeyond, heq, hpasses⟩
  · constructor
    · omega
    · intro hlong
      omega
  · constructor
    · omega
    · intro _
      exact ⟨heq, hpasses⟩

/-- Two rules, the first with arguments on several lines. -/
def argumentSource : List Char := "grammar G;\na [\n\n] : B ;\nb :\n C ;\n".toList

/-- A cap of two lines: the rule whose arguments go beyond it is read whole and nothing is reported,
and the other one is within the cap. -/
theorem scan_bounds_lines_argumentSource :
    1 ≤ (⟨2⟩ : ScanLimits).maxRuleLines ∧
      (scan ⟨2⟩ argumentSource).2 = [] ∧
      ∃ r ∈ (scan ⟨2⟩ argumentSource).1.rules, 2 ≤ r.endLine - r.lineNumber ∧
        ∃ p ∈ Machine.steps ⟨2⟩ { cursor := .start (strip argumentSource) },
          PassesCap ⟨2⟩ r.name.toList r.lineNumber p := by
  have hn : 1 ≤ (⟨2⟩ : ScanLimits).maxRuleLines := by decide
  have hreports : (scan ⟨2⟩ argumentSource).2 = [] := by decide +kernel
  obtain ⟨r, hr, hlong⟩ : ∃ r ∈ (scan ⟨2⟩ argumentSource).1.rules, 2 ≤ r.endLine - r.lineNumber := by
    decide +kernel
  exact ⟨hn, hreports, r, hr, hlong, ((scan_bounds_lines_iff ⟨2⟩ argumentSource hn r hr).2 hlong).2⟩

end GrammarLab.Source
