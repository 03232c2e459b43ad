import GrammarLab.Proofs.Source.Step

/-!
# Headers and bodies accounted for

No rule that a source begins is lost without a word. Every header that opens ends as a rule, as the
report of a second rule of its name or as the report of a missing colon, and every body without its
`;` is reported as such.

    headersOpened = rules + second rules + missing colons         (scan_accounts_for_headers)
-/

namespace GrammarLab.Source

variable {limits : ScanLimits}

/-! ## Runs step by step -/

namespace Machine

/-- The steps of a run, each as the machine before it and the machine behind it. -/
def steps (limits : ScanLimits) (m : Machine) : List (Machine × Machine) :=
  match _h : m.cursor.rest with
  | [] => []
  | first :: _ => (m, step limits first m) :: steps limits (step limits first m)
termination_by potential m
decreasing_by exact potential_step limits first m (by simp [_h])

/-- The steps lead to the end of the run. -/
theorem getLastD_steps (limits : ScanLimits) (m : Machine) :
    ((m.steps limits).map (·.2)).getLastD m = m.run limits := by
  fun_induction steps limits m with
  | case1 m hrest => exact (run_of_rest_nil hrest).symm
  | case2 m first rest hrest ih =>
    rw [List.map_cons, List.getLastD_cons, ih, run_of_rest_cons hrest]

/-- The step leads from outside rules into a header. -/
def opensHeader (p : Machine × Machine) : Bool :=
  match p.1.state, p.2.state with
  | .outside, .header _ => true
  | _, _ => false

/-- The machine is in front of a body without a terminator. -/
def leavesBodyOpen (limits : ScanLimits) (m : Machine) : Bool :=
  match m.state with
  | .body h =>
    let left := limits.maxRuleLines - (m.cursor.line - h.line)
    (bodyReach left 0 .code m.cursor.rest).reason ≠ .terminator
  | _ => false

/-- The number of headers that a run opens. -/
def headersOpened (limits : ScanLimits) (m : Machine) : Nat := (m.steps limits).countP opensHeader

/-- The number of bodies without a terminator that a run captures. The one that it may have begun at
the end of the text is captured behind its last step. -/
def bodiesLeftOpen (limits : ScanLimits) (m : Machine) : Nat :=
  (m.steps limits).countP (fun p => leavesBodyOpen limits p.1) +
    (leavesBodyOpen limits (m.run limits)).toNat

end Machine

/-! ## What a draft accounts for -/

namespace Draft

def reported (kind : DiagnosticKind) (d : Draft) : Nat := (d.diagnostics.byKind kind).length

/-- The headers that have become rules or reports. -/
def headersClosed (d : Draft) : Nat :=
  d.grammar.rules.length + d.reported .duplicateRule + d.reported .missingColon

theorem reported_report (kind : DiagnosticKind) (x : Diagnostic) (d : Draft) :
    (d.report x).reported kind = d.reported kind + if x.kind = kind then 1 else 0 := by
  simp only [reported, report, Diagnostics.byKind, List.filter_append, List.length_append]
  by_cases hkind : x.kind = kind
  · simp [hkind]
  · simp [hkind]

theorem headersClosed_report {x : Diagnostic} (d : Draft) :
    (d.report x).headersClosed =
      d.headersClosed + if x.kind = .duplicateRule ∨ x.kind = .missingColon then 1 else 0 := by
  have hrules : (d.report x).grammar.rules = d.grammar.rules := rfl
  simp only [headersClosed, reported_report, hrules]
  cases x.kind <;> simp <;> omega

theorem headersClosed_missingColon (h : Header) (d : Draft) :
    (d.missingColon h).headersClosed = d.headersClosed + 1 := by
  simp [missingColon, headersClosed_report]

theorem headersClosed_missingTerminator (h : Header) (d : Draft) :
    (d.missingTerminator h).headersClosed = d.headersClosed := by
  simp [missingTerminator, headersClosed_report]

theorem headersClosed_duplicateRule (h : Header) (first : Rule) (d : Draft) :
    (d.duplicateRule h first).headersClosed = d.headersClosed + 1 := by
  simp [duplicateRule, headersClosed_report]

theorem headersClosed_addRule (r : Rule) (d : Draft) :
    (d.addRule r).headersClosed = d.headersClosed + 1 := by
  have hrules : (d.addRule r).grammar.rules = d.grammar.rules ++ [r] := rfl
  have hreports : ∀ kind, (d.addRule r).reported kind = d.reported kind := fun _ => rfl
  simp only [headersClosed, hrules, hreports, List.length_append, List.length_singleton]
  omega

/-- A rule that is closed is either kept or reported as a second one. -/
theorem headersClosed_finishRule (h : Header) (c : Cursor) (raw : List Char) (terminated : Bool)
    (d : Draft) : (d.finishRule h c raw terminated).headersClosed = d.headersClosed + 1 := by
  obtain ⟨d', hd', hcases⟩ := finishRule_cases h c raw terminated d
  have hsame : d'.headersClosed = d.headersClosed := by
    cases terminated
    · exact hd' ▸ headersClosed_missingTerminator h d
    · exact hd' ▸ rfl
  obtain ⟨first, _, hclosed⟩ | ⟨_, hclosed⟩ := hcases
  · rw [hclosed, headersClosed_duplicateRule, hsame]
  · rw [hclosed, headersClosed_addRule, hsame]

/-- Whether a rule is kept or not, its missing `;` is reported. -/
theorem reported_finishRule (h : Header) (c : Cursor) (raw : List Char) (terminated : Bool)
    (d : Draft) : (d.finishRule h c raw terminated).reported .missingTerminator =
      d.reported .missingTerminator + (!terminated).toNat := by
  obtain ⟨d', hd', hcases⟩ := finishRule_cases h c raw terminated d
  have hone : d'.reported .missingTerminator =
      d.reported .missingTerminator + (!terminated).toNat := by
    cases terminated
    · simp [hd', missingTerminator, reported_report]
    · simp [hd']
  obtain ⟨first, _, hclosed⟩ | ⟨_, hclosed⟩ := hcases
  · simp [hclosed, duplicateRule, reported_report, hone]
  · rw [hclosed, ← hone]
    rfl

end Draft

theorem Reads.reported {d : Draft} {c : Cursor} {r : Draft × Cursor} {kind : DiagnosticKind}
    (h : Reads d c r) (hkind : kind ∈ ruleReports) : r.1.reported kind = d.reported kind := by
  rw [Draft.reported, h.remarks.byKind hkind, Draft.reported]

/-- What is read outside rules closes no header. -/
theorem Reads.headersClosed {d : Draft} {c : Cursor} {r : Draft × Cursor} (h : Reads d c r) :
    r.1.headersClosed = d.headersClosed := by
  have hduplicates := h.reported (show .duplicateRule ∈ ruleReports by decide)
  have hcolons := h.reported (show .missingColon ∈ ruleReports by decide)
  rw [Draft.headersClosed, h.alike.rules, hduplicates, hcolons, Draft.headersClosed]

/-! ## What a machine accounts for -/

namespace Machine

/-- The headers that have been opened: those closed and the one that may be open. -/
def headersSeen (m : Machine) : Nat :=
  m.draft.headersClosed + match m.state with
    | .outside => 0
    | .header _ => 1
    | .body _ => 1

theorem headersSeen_step {m m' : Machine} (hs : Step limits m m') :
    m'.headersSeen = m.headersSeen + (opensHeader (m, m')).toNat := by
  cases hs with
  | reads hr => simp [headersSeen, opensHeader, hr.headersClosed]
  | mode name line hc => rfl
  | opens ho => rfl
  | header afterThrows hc => rfl
  | abandons hr =>
    simp [headersSeen, opensHeader, hr.headersClosed, Draft.headersClosed_missingColon]
  | colon rest hrest => rfl
  | body =>
    simp [headersSeen, opensHeader, stepBody, Draft.headersClosed_finishRule]

/-- Only a body is reported to lack its terminator. -/
theorem reported_step {m m' : Machine} (hs : Step limits m m') :
    m'.draft.reported .missingTerminator =
      m.draft.reported .missingTerminator + (leavesBodyOpen limits m).toNat := by
  cases hs with
  | reads hr => exact hr.reported (by decide)
  | mode name line hc => rfl
  | opens ho => rfl
  | header afterThrows hc => rfl
  | abandons hr =>
    rw [hr.reported (by decide)]
    simp [leavesBodyOpen, Draft.missingColon, Draft.reported_report]
  | colon rest hrest => rfl
  | body => simp [leavesBodyOpen, stepBody, Draft.reported_finishRule]

theorem headersSeen_run (limits : ScanLimits) (m : Machine) :
    (m.run limits).headersSeen = m.headersSeen + m.headersOpened limits := by
  unfold headersOpened
  fun_induction steps limits m with
  | case1 m hrest => simp [run_of_rest_nil hrest]
  | case2 m first rest hrest ih =>
    rw [run_of_rest_cons hrest, ih, headersSeen_step (step_cases hrest), List.countP_cons]
    cases opensHeader (m, step limits first m)
    · simp
    · simp only [Bool.toNat_true, if_true]
      omega

theorem reported_run (limits : ScanLimits) (m : Machine) :
    (m.run limits).draft.reported .missingTerminator =
      m.draft.reported .missingTerminator +
        (m.steps limits).countP fun p => leavesBodyOpen limits p.1 := by
  fun_induction steps limits m with
  | case1 m hrest => simp [run_of_rest_nil hrest]
  | case2 m first rest hrest ih =>
    rw [run_of_rest_cons hrest, ih, reported_step (step_cases hrest), List.countP_cons]
    cases leavesBodyOpen limits m
    · simp
    · simp only [Bool.toNat_true, if_true]
      omega

/-- At the end every header is closed. -/
theorem headersClosed_close (m : Machine) : m.close.headersClosed = m.headersSeen := by
  obtain ⟨state, d, c⟩ := m
  cases state with
  | outside => rfl
  | header h => exact Draft.headersClosed_missingColon h d
  | body h => exact Draft.headersClosed_finishRule h c [] false d

/-- A body at the end of the text has no terminator. -/
theorem reported_close (limits : ScanLimits) {m : Machine} (hm : m.cursor.rest = []) :
    m.close.reported .missingTerminator =
      m.draft.reported .missingTerminator + (leavesBodyOpen limits m).toNat := by
  obtain ⟨state, d, c⟩ := m
  have hc : c.rest = [] := hm
  cases state with
  | outside => rfl
  | header h => simp [close, leavesBodyOpen, Draft.missingColon, Draft.reported_report]
  | body h => simp [close, leavesBodyOpen, Draft.reported_finishRule, hc, bodyReach]

end Machine

/-! ## Results -/

/-- Every header that a source opens becomes a rule of the model, the report of a second rule of its
name or the report of a missing colon, and every body that is left open is reported. -/
theorem scan_accounts_for_headers (limits : ScanLimits) (source : List Char) :
    let m : Machine := { cursor := .start (strip source) }
    let ds := (scan limits source).2
    m.headersOpened limits = (scan limits source).1.rules.length +
        (ds.byKind .duplicateRule).length + (ds.byKind .missingColon).length ∧
      m.bodiesLeftOpen limits = (ds.byKind .missingTerminator).length := by
  intro m ds
  have hkind : ∀ kind, kind ≠ .missingGrammarDeclaration →
      (ds.byKind kind).length = (m.run limits).close.reported kind := fun kind h =>
    congrArg List.length (Machine.byKind_scan h limits source)
  rw [hkind .duplicateRule (by decide), hkind .missingColon (by decide),
    hkind .missingTerminator (by decide)]
  constructor
  · have hclosed := Machine.headersClosed_close (m.run limits)
    rw [Machine.headersSeen_run, show m.headersSeen = 0 from rfl, Nat.zero_add] at hclosed
    exact hclosed.symm
  · rw [Machine.reported_close limits (Machine.rest_run limits m), Machine.reported_run,
      show m.draft.reported .missingTerminator = 0 from rfl, Nat.zero_add]
    rfl

end GrammarLab.Source
