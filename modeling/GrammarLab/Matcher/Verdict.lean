import GrammarLab.Matcher.Walk
import GrammarLab.Tokenizer.Token

/-!
# Matching a rule

Whether a list of token types fits a parser rule: the first alternative that takes all tokens
decides. Otherwise the attempt that got furthest tells how far, and what could have come next.

    v.matched = true → v.consumed = tokens.length
-/

namespace GrammarLab.Matcher

open Body

inductive Confidence
  /-- Decided by token types alone. -/
  | high
  /-- Depends on what other parser rules take. -/
  | medium
deriving DecidableEq, Repr

def Confidence.ofAssumed (assumed : Bool) : Confidence := if assumed then .medium else .high

def Confidence.text : Confidence → String
  | .high => "high"
  | .medium => "medium"

structure Verdict where
  matched : Bool
  confidence : Confidence
  /-- Some tokens matched, or all elements did and tokens were left. -/
  isPartial : Bool
  /-- What could have gone on where the match stopped. -/
  expected : List String
  /-- The place of the alternative that matched. -/
  alternative : Option Nat
  /-- The tokens taken by the match, or by the attempt that got furthest. -/
  consumed : Nat
deriving DecidableEq, Repr

/-- How far an alternative got that did not match. -/
structure Attempt where
  consumed : Nat
  expected : List String
  assumed : Bool
  isPartial : Bool
deriving DecidableEq, Repr

/-- Of two attempts the one that got further; of equals the first, with what both know. -/
def Attempt.furthest (best a : Attempt) : Attempt :=
  if best.consumed < a.consumed then a
  else if best.consumed = a.consumed then
    { best with
      expected := mergeNames best.expected a.expected
      assumed := best.assumed || a.assumed }
  else best

/-- The attempt that a walk comes to, if it does not take all of the `total` tokens. -/
def Attempt.ofWalk? (total : Nat) (w : Walk Done) : Option Attempt :=
  match w.result with
  | .ok d =>
    if d.left.isEmpty then none else some ⟨total - d.left.length, d.openNames, w.assumed, true⟩
  | .error f => some ⟨total - f.left, f.expected, w.assumed, decide (f.left < total)⟩

def Verdict.ofMatch (index total : Nat) (assumed : Bool) : Verdict :=
  { matched := true
    confidence := .ofAssumed assumed
    isPartial := false
    expected := []
    alternative := some index
    consumed := total }

def Verdict.ofAttempt (a : Attempt) : Verdict :=
  { matched := false
    confidence := .ofAssumed a.assumed
    isPartial := a.isPartial
    expected := a.expected
    alternative := none
    consumed := a.consumed }

/-- Tries the alternatives from the place `index` on; `best` is the furthest attempt so far. -/
def decideFrom (ls : Literals) (tokens : List String) (index : Nat) (best : Option Attempt) :
    List Branch → Verdict
  | [] => .ofAttempt (best.getD ⟨0, [], false, false⟩)
  | b :: rest =>
    let w := walkElements ls b.elements tokens []
    match Attempt.ofWalk? tokens.length w with
    | none => .ofMatch index tokens.length w.assumed
    | some a => decideFrom ls tokens (index + 1) (some (best.elim a (·.furthest a))) rest

/-- Why a rule cannot be matched against. -/
inductive RuleError
  | notDefined (rule : String)
  | lexerRule (rule : String)
deriving DecidableEq, Repr

def RuleError.message : RuleError → String
  | .notDefined rule => s!"rule `{rule}` is not defined"
  | .lexerRule rule => s!"`{rule}` is a lexer rule; only parser rules can be tested"

end GrammarLab.Matcher

namespace GrammarLab

open Matcher

namespace Grammar

/-- Matches token types against a parser rule. -/
def testRule (g : Grammar) (name : String) (tokens : List String) : Except RuleError Verdict :=
  match g.rule? name with
  | none => .error (.notDefined name)
  | some r =>
    if r.isParser then
      .ok (decideFrom (Literals.ofGrammar g) tokens 0 none r.structure.alternatives)
    else .error (.lexerRule name)

end Grammar

end GrammarLab
