import GrammarLab.Proofs.Source.Lines
import GrammarLab.Proofs.Source.Orderly

/-!
# The model a scan returns

What every analysis relies on, whatever the source is: names are identifiers and no two are the
same, each mode lists its own token rules, and what is stored beside a body is what the body says.

    Coherent (lineCount source) (scan limits source).1             (scan_coherent)
-/

namespace GrammarLab.Source

open Text

/-- The names, the modes and the references of a model agree with each other. -/
structure Cataloged (g : Grammar) : Prop where
  names : ∀ r ∈ g.rules, isIdentifier r.name.toList = true
  first_mode : g.modes.head?.map (·.name) = some defaultMode
  modes_nodup : (g.modes.map (·.name)).Nodup
  no_mode : ∀ r ∈ g.rules, r.isLexer = false → r.mode = none
  /-- A mode lists its token rules, in the order of the source. -/
  members : ∀ m ∈ g.modes,
    m.rules = (g.rules.filter fun r => r.isToken && r.mode = some m.name).map (·.name)
  references : ∀ r ∈ g.rules, r.referencedRules = Body.referencedNames r.definition

/-- A model that a text with `count` lines may have. -/
structure Coherent (count : Nat) (g : Grammar) : Prop extends Cataloged g where
  names_nodup : (g.rules.map (·.name)).Nodup
  /-- The rules that are in a mode of the table are the lexer rules. -/
  in_mode : ∀ r ∈ g.rules, (∃ m ∈ g.modes, r.mode = some m.name) ↔ r.isLexer = true
  lines_sorted : g.rules.Pairwise fun r s => r.lineNumber ≤ s.lineNumber
  lines : ∀ r ∈ g.rules, LinesInOrder count r

/-- Every report of a second rule of one name is about the first rule and leads to its line. -/
def DuplicatesKnown (rules : List Rule) (ds : Diagnostics) : Prop :=
  ∀ x ∈ ds, x.kind = .duplicateRule →
    ∃ r ∈ rules, x.rule = some r.name ∧ x.related = [⟨r.lineNumber, "first defined here"⟩]

/-- What every step keeps of the names, the modes and the reports. -/
structure Registered (d : Draft) : Prop where
  orderly : Orderly d
  model : Cataloged d.grammar
  duplicates : DuplicatesKnown d.grammar.rules d.diagnostics

variable {d : Draft} {r : Rule} {limits : ScanLimits}

/-! ## Reports -/

theorem Cataloged.congr {g g' : Grammar} (h : Cataloged g) (hrules : g'.rules = g.rules)
    (hmodes : g'.modes = g.modes) : Cataloged g' where
  names := hrules ▸ h.names
  first_mode := hmodes ▸ h.first_mode
  modes_nodup := hmodes ▸ h.modes_nodup
  no_mode := hrules ▸ h.no_mode
  members := by
    rw [hrules, hmodes]
    exact h.members
  references := hrules ▸ h.references

/-- Further reports are about rules that are there, or not about a second rule of one name. -/
theorem Registered.of_alike {d' : Draft} (h : Registered d) (ha : Alike d d') {xs : Diagnostics}
    (hd : d'.diagnostics = d.diagnostics ++ xs) (hxs : DuplicatesKnown d.grammar.rules xs) :
    Registered d' where
  orderly := h.orderly.of_alike ha
  model := h.model.congr ha.rules ha.modes
  duplicates := by
    rw [ha.rules, hd]
    exact List.forall_mem_append.2 ⟨h.duplicates, hxs⟩

theorem Registered.reads {c : Cursor} {r : Draft × Cursor} (h : Registered d) (hr : Reads d c r) :
    Registered r.1 := by
  obtain ⟨xs, hxs, hremarks⟩ := hr.remarks
  exact h.of_alike hr.alike hxs fun x hx hkind => absurd (hkind ▸ by decide) (hremarks x hx).1

theorem Registered.missingColon (h : Registered d) (header : Header) :
    Registered (d.missingColon header) :=
  h.of_alike (alike_report _ d) rfl (by simp [DuplicatesKnown])

theorem Registered.missingTerminator (h : Registered d) (header : Header) :
    Registered (d.missingTerminator header) :=
  h.of_alike (alike_report _ d) rfl (by simp [DuplicatesKnown])

theorem Registered.duplicateRule {header : Header} (h : Registered d)
    (hr : d.grammar.rule? (String.ofList header.name) = some r) :
    Registered (d.duplicateRule header r) := by
  refine h.of_alike (alike_report _ d) rfl fun x hx _ => ⟨r, List.mem_of_find?_eq_some hr, ?_⟩
  obtain rfl := List.mem_singleton.1 hx
  exact ⟨by rw [Grammar.name_of_rule? hr]; rfl, rfl⟩

/-! ## Modes -/

/-- A mode that is entered for the first time has no rules yet. -/
theorem cataloged_enterMode (h : Registered d) (name : String) (line : Nat) :
    Cataloged (d.enterMode name line).grammar := by
  cases hmode : d.grammar.mode? name with
  | some m =>
    have hsame : (d.enterMode name line).grammar = d.grammar := by simp [Draft.enterMode, hmode]
    exact hsame ▸ h.model
  | none =>
    have hmodes : (d.enterMode name line).grammar.modes =
        d.grammar.modes ++ [{ name, lineNumber := line }] := by
      simp [Draft.enterMode, hmode]
    have hnew : ∀ m ∈ d.grammar.modes, m.name ≠ name := by
      simpa [Grammar.mode?] using hmode
    refine ⟨h.model.names, ?_, ?_, h.model.no_mode, ?_, h.model.references⟩
    · have hfirst := h.model.first_mode
      rw [hmodes]
      cases hm : d.grammar.modes with
      | nil => simp [hm] at hfirst
      | cons m ms => simpa [hm] using hfirst
    · rw [hmodes, List.map_append, List.nodup_append]
      refine ⟨h.model.modes_nodup, by simp, ?_⟩
      rintro _ hold _ hname rfl
      obtain ⟨m, hm, hsame⟩ := List.mem_map.1 hold
      exact hnew m hm (by simpa [hsame] using hname)
    · rw [hmodes]
      refine List.forall_mem_append.2 ⟨h.model.members, fun m hm => ?_⟩
      obtain rfl := List.mem_singleton.1 hm
      -- every lexer rule is in a mode that was there before
      have hnone : ∀ r ∈ d.grammar.rules, ¬(r.isToken && r.mode = some name) = true := by
        intro r hr hin
        simp only [Bool.and_eq_true, decide_eq_true_eq, Rule.isToken] at hin
        obtain ⟨m, hm, hsame⟩ := h.orderly.owned r hr hin.1.1
        exact hnew m hm (Option.some.inj (hsame.symm.trans hin.2))
      show [] = (d.grammar.rules.filter fun r => r.isToken && r.mode = some name).map (·.name)
      rw [List.filter_eq_nil_iff.2 hnone, List.map_nil]

theorem Registered.enterMode (h : Registered d) (name : String) (line : Nat) :
    Registered (d.enterMode name line) where
  orderly := orderly_enterMode name line h.orderly
  model := cataloged_enterMode h name line
  duplicates := h.duplicates

/-! ## Rules -/

/-- A new rule is listed last, since all that a mode lists are rules that were there before. -/
theorem members_addRule (h : Cataloged d.grammar) (hr : d.grammar.rule? r.name = none)
    (hmode : r.mode = if r.isLexer then some d.mode else none) {m : LexerMode}
    (hm : m ∈ (d.addRule r).grammar.modes) :
    m.rules = ((d.grammar.rules ++ [r]).filter fun s =>
      s.isToken && s.mode = some m.name).map (·.name) := by
  have hnotMem : ∀ m ∈ d.grammar.modes, r.name ∉ m.rules := by
    intro m hm hlisted
    rw [h.members m hm] at hlisted
    obtain ⟨s, hs, hname⟩ := List.mem_map.1 hlisted
    have := List.find?_eq_none.1 hr s (List.mem_filter.1 hs).1
    simp [hname] at this
  rw [List.filter_append, List.map_append]
  unfold Draft.addRule at hm
  simp only at hm
  split at hm
  · rename_i htoken
    have hlexer : r.isLexer = true := by
      simp only [Rule.isToken, Bool.and_eq_true] at htoken
      exact htoken.1
    obtain ⟨m, hold, rfl⟩ := List.mem_map.1 hm
    by_cases hcurrent : m.name = d.mode
    · simp only [hcurrent, if_true, insertOnce, hnotMem m hold, if_false]
      simp [h.members m hold, htoken, hmode, hlexer, hcurrent]
    · simp [h.members m hold, hmode, hlexer, hcurrent, Ne.symm hcurrent]
  · rename_i htoken
    simp [h.members m hm, htoken]

theorem cataloged_addRule (h : Cataloged d.grammar) (hr : d.grammar.rule? r.name = none)
    (hname : isIdentifier r.name.toList = true)
    (hmode : r.mode = if r.isLexer then some d.mode else none)
    (href : r.referencedRules = Body.referencedNames r.definition) :
    Cataloged (d.addRule r).grammar where
  names := List.forall_mem_append.2 ⟨h.names, by simpa using hname⟩
  first_mode := by
    have hmap := map_name_modes_addRule r d
    rw [← List.head?_map, hmap, List.head?_map]
    exact h.first_mode
  modes_nodup := map_name_modes_addRule r d ▸ h.modes_nodup
  no_mode := List.forall_mem_append.2 ⟨h.no_mode, by simp +contextual [hmode]⟩
  members := fun _ hm => members_addRule h hr hmode hm
  references := List.forall_mem_append.2 ⟨h.references, by simpa using href⟩

theorem Registered.addRule (h : Registered d) (hr : d.grammar.rule? r.name = none)
    (hname : isIdentifier r.name.toList = true)
    (hmode : r.mode = if r.isLexer then some d.mode else none)
    (href : r.referencedRules = Body.referencedNames r.definition) :
    Registered (d.addRule r) where
  orderly := orderly_addRule h.orderly hr fun hl => by rw [hmode, if_pos hl]
  model := cataloged_addRule h.model hr hname hmode href
  duplicates := fun x hx hkind =>
    have ⟨s, hs, hx⟩ := h.duplicates x hx hkind
    ⟨s, List.mem_append_left _ hs, hx⟩

theorem Registered.finishRule (h : Registered d) {header : Header} (c : Cursor) (raw : List Char)
    (terminated : Bool) (hname : isIdentifier header.name = true) :
    Registered (d.finishRule header c raw terminated) := by
  obtain ⟨d', hd', hcases⟩ := finishRule_cases header c raw terminated d
  have h' : Registered d' := by
    cases terminated
    · exact hd' ▸ h.missingTerminator header
    · exact hd' ▸ h
  obtain ⟨first, hfirst, hclosed⟩ | ⟨hnone, hclosed⟩ := hcases
  · rw [hclosed]
    exact h'.duplicateRule hfirst
  · rw [hclosed]
    exact h'.addRule hnone (by simpa [Draft.ruleOf] using hname) rfl rfl

/-! ## Runs -/

namespace Machine

/-- The draft is registered and the name of a header that is open may name a rule. -/
structure Sound (m : Machine) : Prop where
  draft : Registered m.draft
  header : ∀ h, m.state = .header h ∨ m.state = .body h → isIdentifier h.name = true

theorem Sound.outside {d : Draft} (h : Registered d) (c : Cursor) : Sound ⟨.outside, d, c⟩ :=
  ⟨h, by simp⟩

theorem sound_step (m m' : Machine) (hs : Step limits m m') (hm : Sound m) : Sound m' := by
  cases hs with
  | reads hr => exact .outside (hm.draft.reads hr) _
  | mode name line hc => exact .outside (hm.draft.enterMode name line) _
  | opens ho => exact ⟨hm.draft, by simpa using ho.name⟩
  | header afterThrows hc => exact ⟨hm.draft, by simpa using hm.header _ (.inl rfl)⟩
  | abandons hr => exact .outside ((hm.draft.missingColon _).reads hr) _
  | colon rest hrest => exact ⟨hm.draft, by simpa using hm.header _ (.inl rfl)⟩
  | body => exact .outside (hm.draft.finishRule _ _ _ (hm.header _ (.inr rfl))) _

theorem sound_start (c : Cursor) : Sound { cursor := c } := by
  refine .outside ⟨orderly_start, ⟨by simp, rfl, by simp, by simp, ?_, by simp⟩, ?_⟩ c
  · simp
  · simp [DuplicatesKnown]

theorem sound_scanned (limits : ScanLimits) (source : List Char) :
    Sound (scanned limits source) :=
  invariant_run sound_step (sound_start _)

theorem Sound.close {m : Machine} (hm : Sound m) : Registered m.close := by
  unfold Machine.close
  split
  · exact hm.draft
  · exact hm.draft.missingColon _
  · rename_i h hs
    exact hm.draft.finishRule _ _ _ (hm.header h (.inr hs))

end Machine

/-! ## Results -/

theorem Registered.in_mode (h : Registered d) (hr : r ∈ d.grammar.rules) :
    (∃ m ∈ d.grammar.modes, r.mode = some m.name) ↔ r.isLexer = true := by
  refine ⟨fun ⟨m, _, hmode⟩ => ?_, h.orderly.owned r hr⟩
  cases hl : r.isLexer with
  | true => rfl
  | false => simp [h.model.no_mode r hr hl] at hmode

/-- The model of every source is coherent, and every report of a second rule of one name leads to
the first. -/
theorem scan_coherent (limits : ScanLimits) (source : List Char) :
    Coherent (lineCount source) (scan limits source).1 ∧
      DuplicatesKnown (scan limits source).1.rules (scan limits source).2 := by
  have hsound := (Machine.sound_scanned limits source).close
  have hlocated := Machine.located_close (Machine.located_scanned limits source)
  have hlines := hlocated.ordered
  rw [lineCount_strip] at hlines
  refine ⟨⟨hsound.model, hsound.orderly.names, fun r hr => hsound.in_mode hr, hlocated.sorted,
    hlines⟩, fun x hx hkind => ?_⟩
  have hreport : x ∈ (scan limits source).2.byKind .duplicateRule :=
    List.mem_filter.2 ⟨hx, by simpa using hkind⟩
  rw [Machine.byKind_scan (by decide)] at hreport
  exact hsound.duplicates x (List.mem_filter.1 hreport).1 hkind

end GrammarLab.Source
