import GrammarLab.Cycle
import GrammarLab.Diagnostic.Basic
import GrammarLab.Mode.Graph

/-!
# Checks of lexer modes

Targets that are not declared, going back where nothing is below, modes that are never entered or
have no rules, and cycles. A cycle that enters a mode on top of another, and no mode of which ever
goes back, lets the stack of modes grow without bound and is a warning.
-/

namespace GrammarLab

open ModeGraph

def Grammar.transitionDiagnostic? (g : Grammar) (t : Transition) : Option Diagnostic :=
  let report (kind : DiagnosticKind) (detail : String) : Diagnostic :=
    ((Diagnostic.ofKind kind).onLine t.line).onRule t.rule |>.withDetail detail
  match t.passage.target? with
  | some target =>
    if (g.mode? target).isNone then some (report .undefinedMode target) else none
  | none =>
    if t.source = defaultMode then
      some (report .popFromDefaultMode s!"`{t.rule}` pops an empty mode stack")
    else none

/-- A mode besides the default one that is never entered, or that has no rules. -/
def LexerMode.diagnostics (reachable : List String) (m : LexerMode) : Diagnostics :=
  let report (kind : DiagnosticKind) : Diagnostic :=
    (Diagnostic.ofKind kind).onLine (m.lineNumber.getD 1) |>.withDetail m.name
  if m.isDefault then []
  else
    (if reachable.contains m.name then [] else [report .unreachableMode]) ++
      (if m.rules.isEmpty then [report .emptyMode] else [])

/-! ## Cycles -/

/-- The transitions between declared modes. -/
def Grammar.modeEdges (g : Grammar) (graph : ModeGraph) (mode : String) :
    List (String × Transition) :=
  (graph.outgoing mode).filterMap fun t =>
    (t.passage.target?.bind g.mode?).map fun m => (m.name, t)

def Grammar.modeCycles (g : Grammar) (graph : ModeGraph) : List (Cycle Transition) :=
  Cycle.distinct (Walk.cycles (g.modeEdges graph) (g.modes.map (·.name)))

/-- Going around the cycle only ever adds to the stack of modes. -/
def ModeGraph.grows (graph : ModeGraph) (c : Cycle Transition) : Bool :=
  c.any (·.label.passage.isPush) && !c.members.any graph.pops

/-- Stands on the transition that closes the cycle; the others are related to it. -/
def ModeGraph.cycleDiagnostic? (graph : ModeGraph) (c : Cycle Transition) : Option Diagnostic :=
  c.getLast?.map fun closing =>
    let d := ((Diagnostic.ofKind .modeCycle).onLine closing.label.line).onRule closing.label.rule
      |>.withDetail (" -> ".intercalate c.chain)
    let d := if graph.grows c then
        d.withHint "no mode on the cycle issues `popMode`, so the mode stack only grows"
      else d.withSeverity .info
    c.dropLast.foldl (fun d s =>
      d.relatedTo s!"`{s.label.rule}` leaves `{s.label.source}`" s.label.line) d

def Grammar.modeDiagnostics (g : Grammar) : Diagnostics :=
  let graph := ModeGraph.ofGrammar g
  let reachable := graph.reachable
  graph.transitions.filterMap g.transitionDiagnostic? ++
    g.modes.flatMap (LexerMode.diagnostics reachable) ++
    (g.modeCycles graph).filterMap graph.cycleDiagnostic?

end GrammarLab
