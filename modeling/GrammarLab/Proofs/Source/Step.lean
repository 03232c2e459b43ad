import GrammarLab.Source.Scan

/-!
# What one step can do

One case for each kind of step: outside rules something is read or a header opens, a header goes
on, is given up or comes to its colon, and a body closes its rule. Whatever holds along every run is
proved case by case from here, without the text that makes the machine take one step or the other.

    m.cursor.rest = first :: rest → Step limits m (step limits first m)        (step_cases)
    (∀ m m', Step limits m m' → I m → I m') → I m → I (m.run limits)           (invariant_run)
-/

namespace GrammarLab.Source

open Text

/-! ## Places -/

/-- `c'` is a place from `c` on, and its line counts the line feeds between them. -/
def Onward (c c' : Cursor) : Prop :=
  ∃ passed, c.rest = passed ++ c'.rest ∧ c'.line = c.line + lineFeeds passed

theorem lineFeeds_append (s t : List Char) : lineFeeds (s ++ t) = lineFeeds s + lineFeeds t :=
  List.count_append

theorem advance_add (m n : Nat) (c : Cursor) : c.advance (m + n) = (c.advance m).advance n := by
  simp [Cursor.advance, List.take_add, lineFeeds_append, Nat.add_assoc]

namespace Onward

variable {c c' c'' : Cursor}

theorem refl (c : Cursor) : Onward c c := ⟨[], rfl, rfl⟩

theorem trans (h : Onward c c') (h' : Onward c' c'') : Onward c c'' := by
  obtain ⟨s, hrest, hline⟩ := h
  obtain ⟨t, hrest', hline'⟩ := h'
  exact ⟨s ++ t, by rw [hrest, hrest', List.append_assoc],
    by rw [hline', hline, lineFeeds_append, Nat.add_assoc]⟩

theorem advance (n : Nat) (c : Cursor) : Onward c (c.advance n) :=
  ⟨c.rest.take n, (List.take_append_drop n c.rest).symm, rfl⟩

theorem advance_of_le {m n : Nat} (h : m ≤ n) (c : Cursor) :
    Onward (c.advance m) (c.advance n) := by
  obtain ⟨k, rfl⟩ := Nat.exists_eq_add_of_le h
  exact advance_add m k c ▸ .advance k _

theorem pass (p : Char → Bool) (c : Cursor) : Onward c (c.pass p) := advance _ c

theorem line_le (h : Onward c c') : c.line ≤ c'.line := by
  obtain ⟨passed, _, hline⟩ := h
  exact hline ▸ Nat.le_add_right _ _

theorem block? {opening closing : Char} {inside : List Char}
    (h : c.block? opening closing = some (inside, c')) : Onward c c' := by
  unfold Cursor.block? at h
  cases hrest : c.rest with
  | nil => simp [hrest] at h
  | cons first rest =>
    simp only [hrest, Option.map_eq_some_iff, Prod.mk.injEq] at h
    obtain ⟨n, _, _, rfl⟩ := h
    exact advance _ c

theorem passBlock? {opening closing : Char} (h : Draft.passBlock? opening closing c = some c') :
    Onward c c' := by
  unfold Draft.passBlock? at h
  simp only at h
  split at h
  · obtain ⟨⟨inside, _⟩, hblock, rfl⟩ := Option.map_eq_some_iff.1 h
    exact (pass _ c).trans (block? hblock)
  · obtain rfl := Option.some.inj h
    exact refl c

theorem passModifiers (isFragment : Bool) (c : Cursor) :
    Onward c (passModifiers isFragment c).2 := by
  fun_induction Source.passModifiers isFragment c with
  | case1 f c h => exact refl c
  | case2 f c g n h ih => exact ((advance n c).trans (pass _ _)).trans ih

end Onward

/-! ## Rules and modes that stay -/

/-- The drafts have the same rules, the same modes and the same current mode. -/
structure Alike (d d' : Draft) : Prop where
  rules : d'.grammar.rules = d.grammar.rules
  modes : d'.grammar.modes = d.grammar.modes
  mode : d'.mode = d.mode

theorem Alike.refl (d : Draft) : Alike d d := ⟨rfl, rfl, rfl⟩

theorem alike_report (diagnostic : Diagnostic) (d : Draft) : Alike d (d.report diagnostic) :=
  ⟨rfl, rfl, rfl⟩

theorem alike_declare (kind : GrammarKind) (name : List Char) (line : Nat) (d : Draft) :
    Alike d (d.declare kind name line) := by
  unfold Draft.declare
  split
  · exact alike_report _ d
  split
  · exact ⟨rfl, rfl, rfl⟩
  · exact ⟨rfl, rfl, rfl⟩

theorem alike_addBlock (block : Draft.Block) (content : List Char) (d : Draft) :
    Alike d (d.addBlock block content) := by
  cases block <;> exact ⟨rfl, rfl, rfl⟩

/-! ## Reports -/

/-- The kinds of reports that are about one rule. -/
def ruleReports : List DiagnosticKind := [.duplicateRule, .missingColon, .missingTerminator]

/-- `d'` reports what `d` does, and beyond that only what is on this line and about no rule. -/
def AddsRemarks (line : Nat) (d d' : Draft) : Prop :=
  ∃ xs, d'.diagnostics = d.diagnostics ++ xs ∧
    ∀ x ∈ xs, x.kind ∉ ruleReports ∧ x.line = some line ∧ x.related = []

section

variable {d d' : Draft} {line : Nat}

theorem AddsRemarks.of_eq (h : d'.diagnostics = d.diagnostics) : AddsRemarks line d d' :=
  ⟨[], by simp [h], by simp⟩

theorem addsRemarks_report {x : Diagnostic} (kind : DiagnosticKind) (hkind : kind ∉ ruleReports)
    (hx : x.kind = kind ∧ x.line = some line ∧ x.related = [])
    (h : d'.diagnostics = d.diagnostics ++ [x]) : AddsRemarks line d d' :=
  ⟨[x], h, by simpa [hx] using hkind⟩

/-- A remark is of no kind that is about a rule. -/
theorem AddsRemarks.byKind {kind : DiagnosticKind} (h : AddsRemarks line d d')
    (hk : kind ∈ ruleReports) : d'.diagnostics.byKind kind = d.diagnostics.byKind kind := by
  obtain ⟨xs, hxs, hremarks⟩ := h
  have hnone : xs.filter (·.kind = kind) = [] :=
    List.filter_eq_nil_iff.2 fun x hx => by
      simpa using fun hkind : x.kind = kind => (hremarks x hx).1 (hkind ▸ hk)
  simp only [Diagnostics.byKind, hxs, List.filter_append, hnone, List.append_nil]

end

/-! ## Readers -/

/-- What reading something outside rules, at `c`, does: rules and modes stay as they are, and what
it reports is on the line on which it begins. -/
structure Reads (d : Draft) (c : Cursor) (result : Draft × Cursor) : Prop where
  alike : Alike d result.1
  remarks : AddsRemarks c.line d result.1
  onward : Onward c result.2

theorem reads_unrecognized (d : Draft) (c : Cursor) : Reads d c (d.unrecognized c) where
  alike := alike_report _ d
  remarks := addsRemarks_report .unrecognizedLine (by decide) ⟨rfl, rfl, rfl⟩ rfl
  onward := .advance _ c

theorem reads_unterminated (d : Draft) (c : Cursor) : Reads d c (d.unterminated c) where
  alike := alike_report _ d
  remarks := addsRemarks_report .unterminatedBlock (by decide) ⟨rfl, rfl, rfl⟩ rfl
  onward := .advance _ c

theorem addsRemarks_declare (kind : GrammarKind) (name : List Char) (line : Nat) (d : Draft) :
    AddsRemarks line d (d.declare kind name line) := by
  unfold Draft.declare
  split
  · exact addsRemarks_report .unrecognizedLine (by decide) ⟨rfl, rfl, rfl⟩ rfl
  split
  · exact addsRemarks_report .missingGrammarDeclaration (by decide) ⟨rfl, rfl, rfl⟩ rfl
  · exact .of_eq rfl

theorem onward_grammarKindAt (c : Cursor) : Onward c (Draft.grammarKindAt c).2 := by
  unfold Draft.grammarKindAt
  split
  · exact (Onward.advance 5 c).trans (.pass _ _)
  split
  · exact (Onward.advance 6 c).trans (.pass _ _)
  · exact .refl c

theorem reads_grammarDeclaration (d : Draft) (c : Cursor) :
    Reads d c (d.grammarDeclaration c) := by
  have hkind := onward_grammarKindAt c
  unfold Draft.grammarDeclaration
  simp only
  split
  · exact ⟨alike_declare _ _ _ d, addsRemarks_declare _ _ _ d,
      ((hkind.trans (.advance 7 _)).trans (.pass _ _)).trans (.advance _ _)⟩
  · exact reads_unrecognized d c

theorem reads_importDeclaration (d : Draft) (c : Cursor) : Reads d c (d.importDeclaration c) where
  alike := ⟨rfl, rfl, rfl⟩
  remarks := .of_eq rfl
  onward := (Onward.advance 6 c).trans (.advance _ _)

theorem addsRemarks_addBlock (block : Draft.Block) (content : List Char) (line : Nat) (d : Draft) :
    AddsRemarks line d (d.addBlock block content) := by
  cases block <;> exact .of_eq rfl

theorem reads_blockDeclaration (block : Draft.Block) (d : Draft) (c : Cursor) :
    Reads d c (d.blockDeclaration block c) := by
  have hc : Onward c (c.advance block.keyword.length).passBlank :=
    (Onward.advance _ c).trans (.pass _ _)
  unfold Draft.blockDeclaration
  simp only
  split
  · split
    · rename_i hblock
      exact ⟨alike_addBlock block _ d, addsRemarks_addBlock block _ _ d, hc.trans (.block? hblock)⟩
    · exact ⟨alike_report _ d,
        addsRemarks_report .unterminatedBlock (by decide) ⟨rfl, rfl, rfl⟩ rfl, .advance _ c⟩
  · exact reads_unrecognized d c

theorem reads_handler (d : Draft) (c : Cursor) : Reads d c (d.handler c) := by
  unfold Draft.handler
  split
  · rename_i c' hblocks
    obtain ⟨c₁, hfirst, hsecond⟩ := Option.bind_eq_some_iff.1 hblocks
    exact ⟨.refl d, .of_eq rfl,
      ((Onward.pass _ c).trans (.passBlock? hfirst)).trans (.passBlock? hsecond)⟩
  · exact reads_unterminated d c

theorem reads_namedAction (d : Draft) (c : Cursor) : Reads d c (d.namedAction c) := by
  unfold Draft.namedAction
  simp only
  split
  · split
    · rename_i hblock
      exact ⟨.refl d, .of_eq rfl,
        (((Onward.advance 1 c).trans (.pass _ _)).trans (.pass _ _)).trans (.block? hblock)⟩
    · exact reads_unterminated d c
  · exact reads_unrecognized d c

/-! ## Headers -/

theorem passModifiers_of_none {c : Cursor} {f : Bool} (h : modifier? c = none) :
    passModifiers f c = (f, c) := by
  rw [passModifiers]
  split
  · rfl
  · simp_all

theorem passModifiers_of_some {c : Cursor} {f g : Bool} {k : Nat} (h : modifier? c = some (g, k)) :
    passModifiers f c = passModifiers (f || g) (c.advance k).passBlank := by
  rw [passModifiers]
  split
  · simp_all
  · simp_all

/-- The header `h` opens at `c` and its name ends at `c'`. -/
structure Opens (h : Header) (c c' : Cursor) : Prop where
  name : isIdentifier h.name = true
  onward : Onward c c'
  line_ge : c.line ≤ h.line
  line_le : h.line ≤ c'.line

theorem opens_of_header? {h : Header} {c c' : Cursor} (hh : header? c = some (h, c')) :
    Opens h c c' := by
  unfold header? at hh
  have hmod := Onward.passModifiers false c
  rcases hp : passModifiers false c with ⟨f, c₁⟩
  simp only [hp] at hh hmod
  split at hh
  · rename_i hname
    simp only [Option.some.injEq, Prod.mk.injEq] at hh
    obtain ⟨rfl, rfl⟩ := hh
    exact ⟨hname, hmod.trans (.pass _ c₁), hmod.line_le, (Onward.pass _ c₁).line_le⟩
  · simp at hh

/-! ## Bodies -/

/-- Reporting a missing `;` keeps rules and modes. -/
theorem alike_terminated (terminated : Bool) (h : Header) (d : Draft) :
    Alike d (if terminated then d else d.missingTerminator h) := by
  cases terminated
  · exact alike_report _ d
  · exact .refl d

/-- A rule that is closed, its missing `;` being reported first, is reported as a second one of its
name or added. -/
theorem finishRule_cases (h : Header) (c : Cursor) (raw : List Char) (terminated : Bool)
    (d : Draft) : ∃ d' : Draft, d' = (if terminated then d else d.missingTerminator h) ∧
      ((∃ first, d'.grammar.rule? (String.ofList h.name) = some first ∧
          d.finishRule h c raw terminated = d'.duplicateRule h first) ∨
        (d'.grammar.rule? (String.ofList h.name) = none ∧
          d.finishRule h c raw terminated = d'.addRule (d'.ruleOf h c raw terminated))) := by
  refine ⟨_, rfl, ?_⟩
  unfold Draft.finishRule
  generalize (if terminated then d else d.missingTerminator h) = d'
  cases hname : d'.grammar.rule? (String.ofList h.name) with
  | some first => exact .inl ⟨first, rfl, by simp only [hname]⟩
  | none => exact .inr ⟨rfl, by simp only [hname]⟩

/-! ## Steps -/

/-- What one step can do. -/
inductive Step (limits : ScanLimits) : Machine → Machine → Prop
  /-- Outside rules something is read that is no rule and no mode. -/
  | reads {d c r} : Reads d c r → Step limits ⟨.outside, d, c⟩ ⟨.outside, r.1, r.2⟩
  | mode {d c c'} (name : String) (line : Nat) :
      Onward c c' → Step limits ⟨.outside, d, c⟩ ⟨.outside, d.enterMode name line, c'⟩
  | opens {h d c c'} : Opens h c c' → Step limits ⟨.outside, d, c⟩ ⟨.header h, d, c'⟩
  /-- A header goes on; only whether it is behind a `throws` may change. -/
  | header {h d c c'} (afterThrows : Bool) :
      Onward c c' → Step limits ⟨.header h, d, c⟩ ⟨.header { h with afterThrows }, d, c'⟩
  /-- A header is given up. A bracket that it leaves open is reported behind the colon. -/
  | abandons {h d c r} :
      Reads (d.missingColon h) c r → Step limits ⟨.header h, d, c⟩ ⟨.outside, r.1, r.2⟩
  | colon {h d c} (rest : List Char) :
      c.rest = ':' :: rest → Step limits ⟨.header h, d, c⟩ ⟨.body h, d, c.advance 1⟩
  | body {h d c} : Step limits ⟨.body h, d, c⟩ (Machine.stepBody limits h d c)

namespace Machine

variable {limits : ScanLimits} {h : Header} {d : Draft} {c c' : Cursor}

theorem step_declaration? {r : Draft × Cursor} (hr : declaration? d c = some r) :
    Step limits ⟨.outside, d, c⟩ ⟨.outside, r.1, r.2⟩ := by
  unfold declaration? at hr
  repeat' split at hr
  all_goals
    simp only [Option.some.injEq, reduceCtorEq] at hr
  · exact hr ▸ .reads (reads_grammarDeclaration d c)
  · exact hr ▸ .reads (reads_importDeclaration d c)
  · exact hr ▸ .reads (reads_blockDeclaration .options d c)
  · exact hr ▸ .reads (reads_blockDeclaration .tokens d c)
  · exact hr ▸ .reads (reads_blockDeclaration .channels d c)
  · subst hr
    unfold Draft.modeDeclaration
    simp only
    split
    · exact .reads (reads_unrecognized d c)
    · exact .mode _ _ (((Onward.advance 4 c).trans (.pass _ _)).trans (.advance _ _))
  · exact hr ▸ .reads (reads_handler d c)
  · exact hr ▸ .reads (reads_namedAction d c)

theorem step_outside (first : Char) (d : Draft) (c : Cursor) :
    Step limits ⟨.outside, d, c⟩ (stepOutside first d c) := by
  unfold stepOutside
  split
  · exact .reads (r := (d, c.advance 1)) ⟨.refl d, .of_eq rfl, .advance 1 c⟩
  split
  · rename_i hd
    exact step_declaration? hd
  split
  · rename_i hh
    exact .opens (opens_of_header? hh)
  · exact .reads (reads_unrecognized d c)

/-- A header that is given up at `c'` is reported and nothing else is. -/
theorem step_missingColon (d : Draft) (hc : Onward c c') :
    Step limits ⟨.header h, d, c⟩ ⟨.outside, d.missingColon h, c'⟩ :=
  .abandons (r := (d.missingColon h, c')) ⟨.refl _, .of_eq rfl, hc⟩

theorem step_abandonHeader (first : Char) (d : Draft) (c : Cursor) :
    Step limits ⟨.header h, d, c⟩ (abandonHeader h first d c) := by
  unfold abandonHeader
  simp only
  split
  · exact step_missingColon d (.advance _ c)
  split
  · exact step_missingColon d (.advance 1 c)
  · exact step_missingColon d (.refl c)

theorem step_headerBlock (opening closing : Char) (d : Draft) (c : Cursor) :
    Step limits ⟨.header h, d, c⟩ (headerBlock h opening closing d c) := by
  unfold headerBlock
  split
  · rename_i hblock
    exact .header h.afterThrows (.block? hblock)
  · exact .abandons (reads_unterminated _ c)

theorem step_headerWord (first : Char) (d : Draft) (c : Cursor) :
    Step limits ⟨.header h, d, c⟩ (headerWord h first d c) := by
  have hword := Onward.pass isWordChar c
  unfold headerWord
  split
  · exact .header false hword
  split
  · exact .header true hword
  split
  · exact .header h.afterThrows hword
  · exact step_abandonHeader first d c

theorem step_header {first : Char} {rest : List Char} (d : Draft) (hc : c.rest = first :: rest) :
    Step limits ⟨.header h, d, c⟩ (stepHeader limits h first d c) := by
  have hone := Onward.advance 1 c
  unfold stepHeader
  split
  · split
    · exact step_missingColon d hone
    · exact .header h.afterThrows hone
  split
  · rename_i hcolon
    exact .colon rest (hcolon ▸ hc)
  split
  · exact step_headerBlock _ _ d c
  split
  · exact step_headerBlock _ _ d c
  split
  · exact .header h.afterThrows (hone.trans (.pass _ _))
  split
  · exact .header h.afterThrows hone
  · exact step_headerWord first d c

/-- Every step in front of a character is of one of these kinds. -/
theorem step_cases {m : Machine} {first : Char} {rest : List Char}
    (hc : m.cursor.rest = first :: rest) : Step limits m (step limits first m) := by
  obtain ⟨state, d, c⟩ := m
  cases state with
  | outside => exact step_outside first d c
  | header h => exact step_header d hc
  | body h => exact .body

theorem run_of_rest_nil {m : Machine} (h : m.cursor.rest = []) : m.run limits = m := by
  rw [run]
  split
  · rfl
  · simp_all

theorem run_of_rest_cons {m : Machine} {first : Char} {rest : List Char}
    (h : m.cursor.rest = first :: rest) : m.run limits = (step limits first m).run limits := by
  rw [run]
  split
  · simp_all
  · simp_all

/-- What every step keeps holds at the end of a run. -/
theorem invariant_run {I : Machine → Prop} (hstep : ∀ m m', Step limits m m' → I m → I m')
    {m : Machine} (hm : I m) : I (m.run limits) := by
  fun_induction run limits m with
  | case1 m hrest => exact hm
  | case2 m first rest hrest ih => exact ih (hstep m _ (step_cases hrest) hm)

/-- The machine at the end of a source. -/
def scanned (limits : ScanLimits) (source : List Char) : Machine :=
  run limits { cursor := .start (strip source) }

theorem grammar_scan (limits : ScanLimits) (source : List Char) :
    (scan limits source).1 = (scanned limits source).close.grammar := rfl

theorem diagnostics_scan (limits : ScanLimits) (source : List Char) :
    (scan limits source).2 =
      if (scanned limits source).close.declared then (scanned limits source).close.diagnostics
      else missingDeclaration :: (scanned limits source).close.diagnostics := rfl

/-- The missing declaration is the only report that does not come from the run. -/
theorem byKind_scan {kind : DiagnosticKind} (hkind : kind ≠ .missingGrammarDeclaration)
    (limits : ScanLimits) (source : List Char) :
    (scan limits source).2.byKind kind = (scanned limits source).close.diagnostics.byKind kind := by
  have hne : ¬missingDeclaration.kind = kind := fun h => hkind h.symm
  rw [diagnostics_scan]
  split
  · rfl
  · simp [Diagnostics.byKind, hne]

end Machine

end GrammarLab.Source
