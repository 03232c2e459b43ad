import GrammarLab.Proofs.List.Distinct
import GrammarLab.Proofs.Mode.Cycles

/-!
# Modes that a run comes to

A run starts in the default mode with nothing below it, and each step carries out one command of a
token rule of the current mode. Going back leads to a mode that was current before, so the modes
that a run comes to are those that can be entered by name, one from the other.

    mode ∈ (ModeGraph.ofGrammar g).reachable ↔ g.Enters mode                 (mem_reachable_iff)
-/

namespace GrammarLab

open Body Relation

/-- The current mode and those to go back to, the latest first. -/
structure ModeStack where
  current : String
  below : List String
deriving DecidableEq, Repr

namespace ModeStack

def start : ModeStack := ⟨defaultMode, []⟩

/-- What a command makes of the modes. Going back where nothing is below has no effect. -/
def carryOut (s : ModeStack) : Command → ModeStack
  | .pushMode target => ⟨target, s.current :: s.below⟩
  | .mode target => ⟨target, s.below⟩
  | .popMode =>
    match s.below with
    | [] => s
    | mode :: below => ⟨mode, below⟩
  | _ => s

end ModeStack

/-- Carries out a command of a token rule of the current mode. A rule without a mode belongs to the
default one. -/
inductive Grammar.Moves (g : Grammar) : ModeStack → ModeStack → Prop
  | carryOut {s : ModeStack} {r : Rule} {command : Command} : r ∈ g.tokenRules →
      r.mode.getD defaultMode = s.current → command ∈ commandsOf r.definition →
      g.Moves s (s.carryOut command)

/-- The mode is the current one at the end of some run. -/
def Grammar.Enters (g : Grammar) (mode : String) : Prop :=
  ∃ s, ReflTransGen g.Moves .start s ∧ s.current = mode

/-! ## The search -/

namespace ModeGraph

variable {graph : ModeGraph} {fuel : Nat} {seen pending done : List String} {mode target : String}

/-- The mode `target` can be entered by name from `mode`. -/
def Names (graph : ModeGraph) (mode target : String) : Prop := target ∈ graph.targets mode

/-- What a mode names that has not been seen. -/
def fresh (graph : ModeGraph) (seen : List String) (mode : String) : List String :=
  (graph.targets mode).eraseDups.filter (· ∉ seen)

theorem mem_fresh_iff :
    target ∈ graph.fresh seen mode ↔ graph.Names mode target ∧ target ∉ seen := by
  simp [fresh, Names]

/-- A mode that is done moves from the modes that are pending to those that are done. -/
theorem spread_cons : graph.spread (fuel + 1) (done ++ mode :: pending) (mode :: pending) =
    graph.spread fuel ((done ++ [mode]) ++ (pending ++ graph.fresh (done ++ mode :: pending) mode))
      (pending ++ graph.fresh (done ++ mode :: pending) mode) := by
  rw [spread, fresh]
  simp only [List.append_assoc, List.cons_append, List.nil_append]

theorem mem_spread_of_mem (h : mode ∈ seen) : mode ∈ graph.spread fuel seen pending := by
  induction fuel generalizing seen pending with
  | zero => exact h
  | succ fuel ih =>
    cases pending with
    | nil => exact h
    | cons next pending => exact ih (List.mem_append_left _ h)

/-- Nothing is found that is not named from the first mode on. -/
theorem reaches_of_mem_spread {first : String} (hpending : ∀ m ∈ pending, m ∈ seen)
    (hseen : ∀ m ∈ seen, ReflTransGen graph.Names first m) :
    ∀ m ∈ graph.spread fuel seen pending, ReflTransGen graph.Names first m := by
  induction fuel generalizing seen pending with
  | zero => exact hseen
  | succ fuel ih =>
    cases pending with
    | nil => exact hseen
    | cons mode pending =>
      obtain ⟨hmode, hpending⟩ := List.forall_mem_cons.1 hpending
      refine ih (fun m hm => ?_) (List.forall_mem_append.2 ⟨hseen, fun m hm => ?_⟩)
      · exact List.mem_append.2 ((List.mem_append.1 hm).imp_left (hpending m))
      · exact (hseen mode hmode).tail (mem_fresh_iff.1 hm).1

/-- The modes that are seen are those that are done, each with all that it names, and those that
are pending. No mode is seen twice, so with fuel for as many modes as there are the search ends
with all of them done. -/
theorem closed_spread {modes : List String} (hmodes : ∀ m t, graph.Names m t → t ∈ modes)
    (hnodup : (done ++ pending).Nodup) (hsub : ∀ m ∈ done ++ pending, m ∈ modes)
    (hdone : ∀ m ∈ done, ∀ t, graph.Names m t → t ∈ done ++ pending)
    (hfuel : modes.length ≤ done.length + fuel) :
    ∀ m ∈ graph.spread fuel (done ++ pending) pending,
      ∀ t, graph.Names m t → t ∈ graph.spread fuel (done ++ pending) pending := by
  induction fuel generalizing done pending with
  | zero =>
    have hlen := (List.subperm_of_subset hnodup hsub).length_le
    simp only [List.length_append] at hlen
    obtain rfl : pending = [] := List.length_eq_zero_iff.1 (by omega)
    rw [List.append_nil] at hdone ⊢
    exact hdone
  | succ fuel ih =>
    cases pending with
    | nil =>
      rw [List.append_nil] at hdone ⊢
      exact hdone
    | cons mode pending =>
      have hseen : ∀ fresh, (done ++ [mode]) ++ (pending ++ fresh) =
          (done ++ mode :: pending) ++ fresh := fun fresh => by
        simp only [List.append_assoc, List.cons_append, List.nil_append]
      rw [spread_cons]
      refine ih ?_ ?_ ?_ ?_
      · rw [hseen, List.nodup_append]
        refine ⟨hnodup, (nodup_eraseDups _).filter _, ?_⟩
        rintro m hm _ hfresh rfl
        exact (mem_fresh_iff.1 hfresh).2 hm
      · rw [hseen]
        exact List.forall_mem_append.2 ⟨hsub, fun m hm => hmodes mode m (mem_fresh_iff.1 hm).1⟩
      · rw [hseen]
        refine List.forall_mem_append.2 ⟨fun m hm t ht => ?_, fun m hm t ht => ?_⟩
        · exact List.mem_append_left _ (hdone m hm t ht)
        · obtain rfl := List.mem_singleton.1 hm
          by_cases hold : t ∈ done ++ m :: pending
          · exact List.mem_append_left _ hold
          · exact List.mem_append_right _ (mem_fresh_iff.2 ⟨ht, hold⟩)
      · rw [List.length_append, List.length_singleton]
        omega

theorem mem_reachable_iff_names :
    mode ∈ graph.reachable ↔ ReflTransGen graph.Names defaultMode mode := by
  constructor
  · exact reaches_of_mem_spread (fun m hm => hm) (by simpa using ReflTransGen.refl) mode
  · intro h
    -- a mode that is found is the default mode or the target of some transition
    have hmodes : ∀ m t, graph.Names m t →
        t ∈ defaultMode :: graph.transitions.filterMap (·.passage.target?) := by
      intro m t ht
      obtain ⟨x, hx, hxt⟩ := List.mem_filterMap.1 ht
      exact List.mem_cons_of_mem _ (List.mem_filterMap.2 ⟨x, (List.mem_filter.1 hx).1, hxt⟩)
    have hfuel : (defaultMode :: graph.transitions.filterMap (·.passage.target?)).length ≤
        ([] : List String).length + (graph.transitions.length + 1) := by
      have := List.length_filterMap_le (·.passage.target?) graph.transitions
      simp only [List.length_cons, List.length_nil]
      omega
    have hclosed : ∀ m ∈ graph.spread (graph.transitions.length + 1) ([] ++ [defaultMode])
        [defaultMode], ∀ t, graph.Names m t → t ∈ graph.reachable :=
      closed_spread hmodes (List.nodup_singleton _) (by simp) (by simp) hfuel
    induction h with
    | refl => exact mem_spread_of_mem List.mem_cons_self
    | tail _ hnames ih => exact hclosed _ ih _ hnames

end ModeGraph

/-! ## Runs -/

section

variable {g : Grammar} {mode target : String} {s s' : ModeStack}

theorem target?_ofCommand? (command : Command) :
    (Passage.ofCommand? command).bind (·.target?) = command.target? := by
  cases command <;> rfl

/-- A mode is named by the commands of the token rules of another one. -/
theorem names_ofGrammar_iff : (ModeGraph.ofGrammar g).Names mode target ↔
    ∃ r ∈ g.tokenRules, r.mode.getD defaultMode = mode ∧
      ∃ command ∈ commandsOf r.definition, command.target? = some target := by
  simp only [ModeGraph.Names, ModeGraph.targets, ModeGraph.outgoing, ModeGraph.ofGrammar,
    List.mem_filterMap, List.mem_filter, List.mem_flatMap, Bool.and_eq_true, decide_eq_true_eq]
  constructor
  · rintro ⟨t, ⟨⟨r, hr, ht⟩, rfl, -⟩, htarget⟩
    obtain ⟨command, hcommand, hpassage, hsource, -⟩ := mem_transitionsOf_iff.1 ht
    refine ⟨r, hr, hsource.symm, command, hcommand, ?_⟩
    rw [← target?_ofCommand?, hpassage]
    exact htarget
  · rintro ⟨r, hr, rfl, command, hcommand, htarget⟩
    rw [← target?_ofCommand?] at htarget
    obtain ⟨passage, hpassage, hptarget⟩ := Option.bind_eq_some_iff.1 htarget
    exact ⟨⟨_, passage, r.name, r.lineNumber⟩, ⟨⟨r, hr,
      mem_transitionsOf_iff.2 ⟨command, hcommand, hpassage, rfl, rfl, rfl⟩⟩, rfl,
      by rw [hptarget]; rfl⟩, hptarget⟩

/-- After a step the modes are those that were there before, and the one that the command names. -/
theorem mem_carryOut {command : Command}
    (h : mode ∈ (s.carryOut command).current :: (s.carryOut command).below) :
    command.target? = some mode ∨ mode ∈ s.current :: s.below := by
  cases command with
  | pushMode target =>
    exact (List.mem_cons.1 h).imp_left fun heq => congrArg some heq.symm
  | mode target =>
    exact (List.mem_cons.1 h).imp (fun heq => congrArg some heq.symm) (List.mem_cons_of_mem _)
  | popMode =>
    refine .inr ?_
    simp only [ModeStack.carryOut] at h
    split at h
    · exact h
    · rename_i hbelow
      exact List.mem_cons_of_mem _ (hbelow ▸ h)
  | skip | more | channel | type | other => exact .inr h

/-- A command that names a mode makes it the current one. -/
theorem current_carryOut {command : Command} (h : command.target? = some target) :
    (s.carryOut command).current = target := by
  cases command <;> simp_all [Command.target?, ModeStack.carryOut]

/-- Each mode on the stack, and not only the current one, is one that the search finds. -/
theorem Grammar.Moves.reaches (h : g.Moves s s')
    (hs : ∀ m ∈ s.current :: s.below, ReflTransGen (ModeGraph.ofGrammar g).Names defaultMode m) :
    ∀ m ∈ s'.current :: s'.below, ReflTransGen (ModeGraph.ofGrammar g).Names defaultMode m := by
  obtain ⟨hr, hmode, hcommand⟩ := h
  intro m hm
  rcases mem_carryOut hm with htarget | hold
  · have hnames := names_ofGrammar_iff.2 ⟨_, hr, hmode, _, hcommand, htarget⟩
    exact (hs _ List.mem_cons_self).tail hnames
  · exact hs m hold

theorem reaches_of_moves (h : ReflTransGen g.Moves .start s) :
    ∀ m ∈ s.current :: s.below, ReflTransGen (ModeGraph.ofGrammar g).Names defaultMode m := by
  induction h with
  | refl => simpa [ModeStack.start] using ReflTransGen.refl
  | tail _ hstep ih => exact hstep.reaches ih

/-- Modes that name each other are entered one after the other. -/
theorem enters_of_names (h : ReflTransGen (ModeGraph.ofGrammar g).Names defaultMode mode) :
    g.Enters mode := by
  induction h with
  | refl => exact ⟨.start, .refl, rfl⟩
  | tail _ hnames ih =>
    obtain ⟨s, hs, rfl⟩ := ih
    obtain ⟨r, hr, hmode, command, hcommand, htarget⟩ := names_ofGrammar_iff.1 hnames
    exact ⟨_, hs.tail (.carryOut hr hmode hcommand), current_carryOut htarget⟩

theorem mem_reachable_iff : mode ∈ (ModeGraph.ofGrammar g).reachable ↔ g.Enters mode := by
  rw [ModeGraph.mem_reachable_iff_names]
  refine ⟨enters_of_names, ?_⟩
  rintro ⟨s, hs, rfl⟩
  exact reaches_of_moves hs _ List.mem_cons_self

instance (g : Grammar) (mode : String) : Decidable (g.Enters mode) :=
  decidable_of_iff _ mem_reachable_iff

end

/-! ## Reports -/

/-- The report of a mode that is never entered. -/
def LexerMode.unreachableReport (m : LexerMode) : Diagnostic :=
  (Diagnostic.ofKind .unreachableMode).onLine (m.lineNumber.getD 1) |>.withDetail m.name

theorem enters_default (g : Grammar) : g.Enters defaultMode := ⟨.start, .refl, rfl⟩

section

variable {g : Grammar}

/-- The default mode is always entered, and of the other modes those are reported that are not. -/
theorem byKind_diagnostics (m : LexerMode) :
    Diagnostics.byKind .unreachableMode (m.diagnostics (ModeGraph.ofGrammar g).reachable) =
      if g.Enters m.name then [] else [m.unreachableReport] := by
  by_cases hdefault : m.isDefault = true
  · have hname : m.name = defaultMode := by simpa [LexerMode.isDefault] using hdefault
    rw [LexerMode.diagnostics, if_pos hdefault, if_pos (hname ▸ enters_default g)]
    rfl
  · have hempty : ∀ line, Diagnostics.byKind .unreachableMode
        (if m.rules.isEmpty then
          [(Diagnostic.ofKind .emptyMode).onLine line |>.withDetail m.name] else []) = [] := by
      intro line
      exact Diagnostics.byKind_eq_nil fun x hx => by split at hx <;> simp_all
    rw [LexerMode.diagnostics, if_neg hdefault, Diagnostics.byKind_append, hempty, List.append_nil]
    by_cases henters : g.Enters m.name
    · have hfound := mem_reachable_iff.2 henters
      simp [Diagnostics.byKind, hfound, henters]
    · have hfound := mt mem_reachable_iff.1 henters
      simp [Diagnostics.byKind, hfound, henters, LexerMode.unreachableReport]

theorem byKind_flatMap_diagnostics (ms : List LexerMode) : Diagnostics.byKind .unreachableMode
    (ms.flatMap (LexerMode.diagnostics (ModeGraph.ofGrammar g).reachable)) =
      (ms.filter fun m => ¬g.Enters m.name).map (·.unreachableReport) := by
  induction ms with
  | nil => rfl
  | cons m ms ih =>
    rw [List.flatMap_cons, Diagnostics.byKind_append, byKind_diagnostics, ih]
    by_cases henters : g.Enters m.name <;> simp [henters]

end

/-- A run comes to each mode of the search, and each declared mode that no run comes to is
reported: all of these and no others, each once and in the order of their declarations. -/
theorem reachable_exact (g : Grammar) :
    (∀ mode, mode ∈ (ModeGraph.ofGrammar g).reachable ↔ g.Enters mode) ∧
      g.modeDiagnostics.byKind .unreachableMode =
        (g.modes.filter fun m => ¬g.Enters m.name).map (·.unreachableReport) := by
  refine ⟨fun mode => mem_reachable_iff, ?_⟩
  have htransitions : Diagnostics.byKind .unreachableMode
      ((ModeGraph.ofGrammar g).transitions.filterMap g.transitionDiagnostic?) = [] := by
    refine Diagnostics.byKind_eq_nil fun x hx => ?_
    obtain ⟨t, -, ht⟩ := List.mem_filterMap.1 hx
    rcases kind_of_transitionDiagnostic? ht with hk | hk <;> simp [hk]
  have hcycles : Diagnostics.byKind .unreachableMode
      ((g.modeCycles (.ofGrammar g)).filterMap (ModeGraph.ofGrammar g).cycleDiagnostic?) = [] := by
    refine Diagnostics.byKind_eq_nil fun x hx => ?_
    obtain ⟨c, -, hc⟩ := List.mem_filterMap.1 hx
    simp [(tellsOf_of_cycleDiagnostic? hc).kind]
  rw [Grammar.modeDiagnostics, Diagnostics.byKind_append, Diagnostics.byKind_append, htransitions,
    hcycles, byKind_flatMap_diagnostics, List.nil_append, List.append_nil]

end GrammarLab
