import GrammarLab.Proofs.Source.Lines

/-!
# Lines of reports

A report stands on the line of what it is about, and the report of a second rule names the line of
the first one too. All of these are lines of the source: a machine is never further on than the last
of them, and the rules that it has read are on the lines behind it.

    x ∈ (scan limits source).2 → OnLines (lines source).length x                (onLines_scan)
-/

namespace GrammarLab.Source

open Text

/-- One of `count` lines. -/
def IsLineNumber (count n : Nat) : Prop := 1 ≤ n ∧ n ≤ count

/-- The report is on one of `count` lines, and so is all that it is related to. -/
structure OnLines (count : Nat) (x : Diagnostic) : Prop where
  line : ∃ n, x.line = some n ∧ IsLineNumber count n
  related : ∀ r ∈ x.related, IsLineNumber count r.line

variable {limits : ScanLimits} {text : List Char} {count : Nat} {c : Cursor} {h : Header}
  {d : Draft}

theorem OnLines.of_line {x : Diagnostic} {n : Nat} (hx : x.line = some n)
    (hrelated : x.related = []) (hn : IsLineNumber count n) : OnLines count x :=
  ⟨⟨n, hx, hn⟩, by simp [hrelated]⟩

/-! ## Lines of a text -/

/-- A line feed at the end begins one more line here. -/
theorem lineCount_le (s : List Char) : lineCount s ≤ lineFeeds s + 1 := by
  unfold lineCount
  split <;> omega

theorem line_le_lineFeeds (hc : Onward (.start text) c) : c.line ≤ lineFeeds text + 1 := by
  obtain ⟨passed, htext, hline⟩ := hc
  have htext : text = passed ++ c.rest := htext
  have hline : c.line = 1 + lineFeeds passed := hline
  rw [htext, lineFeeds_append, hline]
  omega

/-! ## Reports of a draft -/

/-- All reports of the draft are on these lines. -/
def ReportsOnLines (count : Nat) (d : Draft) : Prop := ∀ x ∈ d.diagnostics, OnLines count x

theorem ReportsOnLines.report {x : Diagnostic} (hd : ReportsOnLines count d)
    (hx : OnLines count x) : ReportsOnLines count (d.report x) :=
  List.forall_mem_append.2 ⟨hd, by simpa using hx⟩

theorem ReportsOnLines.reads {r : Draft × Cursor} (hd : ReportsOnLines count d) (hr : Reads d c r)
    (hline : IsLineNumber count c.line) : ReportsOnLines count r.1 := by
  obtain ⟨xs, hxs, hremarks⟩ := hr.remarks
  rw [ReportsOnLines, hxs]
  refine List.forall_mem_append.2 ⟨hd, fun x hx => ?_⟩
  obtain ⟨-, hx, hrelated⟩ := hremarks x hx
  exact .of_line hx hrelated hline

theorem ReportsOnLines.missingColon (hd : ReportsOnLines count d)
    (hline : IsLineNumber count h.line) : ReportsOnLines count (d.missingColon h) :=
  hd.report (.of_line rfl rfl hline)

theorem ReportsOnLines.finishRule (hd : ReportsOnLines count d)
    (hrules : ∀ r ∈ d.grammar.rules, IsLineNumber count r.lineNumber)
    (hline : IsLineNumber count h.line) (c : Cursor) (raw : List Char) (terminated : Bool) :
    ReportsOnLines count (d.finishRule h c raw terminated) := by
  obtain ⟨d', hd', hcases⟩ := finishRule_cases h c raw terminated d
  have hrules' : d'.grammar.rules = d.grammar.rules :=
    hd' ▸ (alike_terminated terminated h d).rules
  have hreports : ReportsOnLines count d' := by
    cases terminated with
    | false => exact hd' ▸ hd.report (.of_line rfl rfl hline)
    | true => exact hd' ▸ hd
  obtain ⟨first, hfirst, hclosed⟩ | ⟨-, hclosed⟩ := hcases
  · have hmem : first ∈ d.grammar.rules := hrules' ▸ List.mem_of_find?_eq_some hfirst
    rw [hclosed]
    refine hreports.report ⟨⟨h.line, rfl, hline⟩, fun r hr => ?_⟩
    obtain rfl := List.mem_singleton.1 hr
    exact hrules first hmem
  · exact hclosed ▸ hreports

/-! ## Reports of a run -/

namespace Machine

/-- A machine in its place whose reports are on lines of the text. -/
structure Reporting (text : List Char) (m : Machine) : Prop where
  located : Located text m
  reports : ReportsOnLines (lineFeeds text + 1) m.draft

/-- What stands between the line that a rule is named on and the machine is on lines of the text. -/
theorem Located.isLineNumber {m : Machine} (hm : Located text m) {n : Nat} (hge : m.nameLine ≤ n)
    (hle : n ≤ m.cursor.line) : IsLineNumber (lineFeeds text + 1) n :=
  ⟨Nat.le_trans hm.one_le hge, Nat.le_trans hle (line_le_lineFeeds hm.place)⟩

theorem Located.isLineNumber_rule {m : Machine} (hm : Located text m) :
    ∀ r ∈ m.draft.grammar.rules, IsLineNumber (lineFeeds text + 1) r.lineNumber := fun r hr =>
  have hr := hm.ordered r hr
  have hle := Nat.le_trans (Nat.le_trans hr.name_le_body hr.body_le_end) hr.end_le
  ⟨hr.one_le, Nat.le_trans hle (lineCount_le text)⟩

theorem Reporting.close {m : Machine} (hm : Reporting text m) :
    ReportsOnLines (lineFeeds text + 1) m.close := by
  have hname := hm.located.isLineNumber (Nat.le_refl _) hm.located.nameLine_le
  obtain ⟨state, d, c⟩ := m
  cases state with
  | outside => exact hm.reports
  | header h => exact hm.reports.missingColon hname
  | body h => exact hm.reports.finishRule hm.located.isLineNumber_rule hname _ _ _

end Machine

end GrammarLab.Source
