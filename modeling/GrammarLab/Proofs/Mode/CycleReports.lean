import GrammarLab.Proofs.Mode.Cycles

/-!
# What reports of mode cycles say

Each report prints the modes of a cycle, each with a transition to the next one. The notes are of
all these transitions but the last, and the report stands on the last one. The cycle goes through
no mode twice, and no two reports are of the same modes.

    the reports tell of rounds of modes, each of other modes              (modeReports_are_rounds)
-/

namespace GrammarLab

open Body

/-! ## Rounds of modes -/

/-- A command of a token rule of the mode `source` enters the declared mode `target`, on top of the
current mode or in its place. -/
structure Grammar.Enables (g : Grammar) (t : Transition) (source target : String) : Prop where
  leaves : t.source = source
  rule : ∃ r ∈ g.rules, r.isToken = true ∧ r.mode.getD defaultMode = source ∧ t.rule = r.name ∧
    t.line = r.lineNumber ∧
    ((t.passage = .push target ∧ Command.pushMode target ∈ commandsOf r.definition) ∨
      (t.passage = .replace target ∧ Command.mode target ∈ commandsOf r.definition))
  declared : ∃ m ∈ g.modes, m.name = target

/-- The cycle goes through no mode twice, each of its steps to the mode that is printed next. -/
structure Grammar.IsRound (g : Grammar) (c : Cycle Transition) : Prop where
  ne_nil : c ≠ []
  nodup : c.members.Nodup
  steps : List.Forall₂ (fun s target => g.Enables s.label s.source target) c (c.chain.drop 1)

/-- Besides what it tells of the cycle, the report stands on the transition that closes it, and has
a note for each of the others in order. -/
structure Diagnostic.TellsOfSteps (x : Diagnostic) (g : Grammar) (c : Cycle Transition) : Prop
    extends x.TellsOf g c where
  steps : ∃ earlier closing, c = earlier ++ [closing] ∧ x.rule = some closing.label.rule ∧
    x.line = some closing.label.line ∧
    x.related = earlier.map fun s =>
      ⟨s.label.line, s!"`{s.label.rule}` leaves `{s.label.source}`"⟩

section

variable {g : Grammar} {c : Cycle Transition} {t : Transition} {mode target : String}

theorem ofCommand?_eq_of_target? {command : Command} {passage : Passage}
    (h : Passage.ofCommand? command = some passage) (htarget : passage.target? = some target) :
    (passage = .push target ∧ command = .pushMode target) ∨
      (passage = .replace target ∧ command = .mode target) := by
  cases command with
  | pushMode name =>
    obtain rfl := Option.some.inj h
    obtain rfl := Option.some.inj htarget
    exact .inl ⟨rfl, rfl⟩
  | mode name =>
    obtain rfl := Option.some.inj h
    obtain rfl := Option.some.inj htarget
    exact .inr ⟨rfl, rfl⟩
  | popMode =>
    obtain rfl := Option.some.inj h
    simp [Passage.target?] at htarget
  | skip | more | channel | type | other => simp [Passage.ofCommand?] at h

theorem enables_of_mem_modeEdges (h : (target, t) ∈ g.modeEdges (.ofGrammar g) mode) :
    g.Enables t mode target := by
  obtain ⟨⟨r, hr, ht⟩, hsource, htarget, hdeclared⟩ := mem_modeEdges_iff.1 h
  obtain ⟨command, hcommand, hpassage, hmode, hrule, hline⟩ := mem_transitionsOf_iff.1 ht
  obtain ⟨hrules, htoken⟩ := List.mem_filter.1 hr
  obtain ⟨m, hm⟩ := Option.isSome_iff_exists.1 hdeclared
  refine ⟨hsource, ⟨r, hrules, htoken, hmode.symm.trans hsource, hrule, hline, ?_⟩,
    m, List.mem_of_find?_eq_some hm, name_of_mode? hm⟩
  rcases ofCommand?_eq_of_target? hpassage htarget with ⟨hpush, rfl⟩ | ⟨hreplace, rfl⟩
  · exact .inl ⟨hpush, hcommand⟩
  · exact .inr ⟨hreplace, hcommand⟩

theorem isRound_of_mem_modeCycles (h : c ∈ g.modeCycles (.ofGrammar g)) : g.IsRound c := by
  have hcycle := Walk.isSimpleCycle_of_mem_cycles c (Cycle.mem_of_mem_distinct h)
  refine ⟨fun hnil => hcycle.isCycle.members_ne_nil (by rw [hnil]; rfl), hcycle.nodup, ?_⟩
  exact hcycle.isCycle.forall₂_chain.imp fun _ _ => enables_of_mem_modeEdges

theorem tellsOfSteps_of_cycleDiagnostic? {x : Diagnostic}
    (h : (ModeGraph.ofGrammar g).cycleDiagnostic? c = some x) : x.TellsOfSteps g c := by
  refine ⟨tellsOf_of_cycleDiagnostic? h, ?_⟩
  obtain ⟨closing, hlast, rfl⟩ := Option.map_eq_some_iff.1 h
  obtain ⟨earlier, rfl⟩ := List.getLast?_eq_some_iff.1 hlast
  refine ⟨earlier, closing, rfl, ?_⟩
  simp only [List.dropLast_concat, Diagnostic.foldl_relatedTo]
  split <;> exact ⟨rfl, rfl, rfl⟩

/-- No cycle goes without a report. -/
theorem forall₂_cycleDiagnostics {cs : List (Cycle Transition)} (h : ∀ c ∈ cs, g.IsRound c) :
    List.Forall₂ (fun x c => x.TellsOfSteps g c ∧ g.IsRound c)
      (cs.filterMap (ModeGraph.ofGrammar g).cycleDiagnostic?) cs := by
  induction cs with
  | nil => exact .nil
  | cons c cs ih =>
    rw [List.forall_mem_cons] at h
    obtain ⟨x, hx⟩ : ∃ x, (ModeGraph.ofGrammar g).cycleDiagnostic? c = some x :=
      exists_cycleDiagnostic? h.1.ne_nil
    rw [List.filterMap_cons_some hx]
    exact .cons ⟨tellsOfSteps_of_cycleDiagnostic? hx, h.1⟩ (ih h.2)

end

/-- Each report of a mode cycle tells of a round of modes with all its transitions, and no two
reports are of the same modes. -/
theorem modeReports_are_rounds (g : Grammar) : ∃ cs : List (Cycle Transition),
    List.Forall₂ (fun x c => x.TellsOfSteps g c ∧ g.IsRound c)
      (g.modeDiagnostics.byKind .modeCycle) cs ∧
    cs.Pairwise fun c d => ¬∀ m, m ∈ c.members ↔ m ∈ d.members := by
  refine ⟨g.modeCycles (.ofGrammar g), ?_, Cycle.pairwise_distinct _⟩
  rw [byKind_modeCycle]
  exact forall₂_cycleDiagnostics fun c hc => isRound_of_mem_modeCycles hc

end GrammarLab
