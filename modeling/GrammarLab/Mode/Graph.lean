import GrammarLab.Body.Command
import GrammarLab.Grammar

/-!
# Mode graph

How the commands of token rules lead from the mode that owns the rule to another one.

    m ∈ g.reachable ↔ the mode can become the current one
-/

namespace GrammarLab

open Body

/-- What a command does to the stack of modes. -/
inductive Passage
  /-- Enters a mode on top of the current one. -/
  | push (target : String)
  /-- Enters a mode in place of the current one. -/
  | replace (target : String)
  /-- Goes back to the mode below. -/
  | pop
deriving DecidableEq, Repr

namespace Passage

def ofCommand? : Command → Option Passage
  | .pushMode target => some (.push target)
  | .mode target => some (.replace target)
  | .popMode => some .pop
  | _ => none

/-- The mode that is entered by name. -/
def target? : Passage → Option String
  | .push target => some target
  | .replace target => some target
  | .pop => none

def isPush : Passage → Bool
  | .push _ => true
  | _ => false

end Passage

structure Transition where
  /-- The mode that owns the rule. -/
  source : String
  passage : Passage
  rule : String
  line : Nat
deriving DecidableEq, Repr

structure ModeGraph where
  transitions : List Transition
deriving DecidableEq, Repr

namespace ModeGraph

/-- The transitions of a rule, one for each command that changes the mode. -/
def transitionsOf (r : Rule) : List Transition :=
  (commandsOf r.definition).filterMap fun command =>
    (Passage.ofCommand? command).map fun passage =>
      ⟨r.mode.getD defaultMode, passage, r.name, r.lineNumber⟩

def ofGrammar (g : Grammar) : ModeGraph := ⟨g.tokenRules.flatMap transitionsOf⟩

/-- The transitions from a mode to a named one. -/
def outgoing (g : ModeGraph) (mode : String) : List Transition :=
  g.transitions.filter fun t => t.source = mode && t.passage.target?.isSome

/-- A rule of the mode goes back to the mode below. -/
def pops (g : ModeGraph) (mode : String) : Bool :=
  g.transitions.any fun t => t.source = mode && t.passage = .pop

def targets (g : ModeGraph) (mode : String) : List String :=
  (g.outgoing mode).filterMap (·.passage.target?)

/-! ## Reachable modes -/

/-- Adds to the modes seen so far what can be entered from the pending ones and those behind
them. Each mode is pending once, so a `fuel` of one more than there are transitions lasts. -/
def spread (g : ModeGraph) : Nat → List String → List String → List String
  | 0, seen, _ => seen
  | _, seen, [] => seen
  | fuel + 1, seen, mode :: pending =>
    let fresh := (g.targets mode).eraseDups.filter (· ∉ seen)
    spread g fuel (seen ++ fresh) (pending ++ fresh)

/-- The modes that can be entered from the default mode, nearest first, itself included. -/
def reachable (g : ModeGraph) : List String :=
  g.spread (g.transitions.length + 1) [defaultMode] [defaultMode]

end ModeGraph

end GrammarLab
