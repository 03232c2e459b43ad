import GrammarLab.Grammar
import GrammarLab.Pattern.Basic

/-!
# Compiling the rules of a grammar

Spellings of rules with the rules they refer to put in place of the references. A rule that
reaches itself has no spelling. What is found out about a rule is kept: a spelling always,
a failure when the rule was asked for and not one that refers to it, since a failure inside a
cycle depends on where the cycle was entered.

    (c.spellRule g n).2.inProgress = []          when c.inProgress = []
-/

namespace GrammarLab.Pattern

structure Compiler where
  /-- What is known of rules. -/
  known : List (String × Except PatternError Spelling) := []
  /-- The rules being spelled, the innermost first. -/
  inProgress : List String := []

abbrev Compiling := StateM Compiler

namespace Compiler

def enter (rule : String) (c : Compiler) : Compiler :=
  { c with inProgress := rule :: c.inProgress }

def isSuccess : Except PatternError Spelling → Bool
  | .ok _ => true
  | .error _ => false

/-- Ends the spelling of a rule and keeps what may be kept. -/
def leave (rule : String) (result : Except PatternError Spelling) (c : Compiler) : Compiler :=
  let outer := c.inProgress.tail
  { known := if outer.isEmpty || isSuccess result then (rule, result) :: c.known else c.known
    inProgress := outer }

/-- The body to spell for a name, unless something forbids it. -/
def body (g : Grammar) (name : String) (c : Compiler) : Except PatternError (List Char) :=
  if name ∈ c.inProgress then .error (.unsupported (.cyclic name))
  else match g.rule? name with
    | none => .error (.unsupported (.undefined name))
    | some r =>
      if r.isLexer then .ok r.definition else .error (.unsupported (.parserRule name))

/-- The spelling of a rule. The rules in progress are different rules of the grammar, so a
`fuel` of one more than there are rules never runs out. -/
def spellWith (g : Grammar) : Nat → String → Compiling (Except PatternError Spelling)
  | 0, name => pure (.error (.unsupported (.cyclic name)))
  | fuel + 1, name => do
    let c ← get
    match c.known.lookup name with
    | some result => pure result
    | none =>
      match c.body g name with
      | .error e => pure (.error e)
      | .ok definition => do
        modify (enter name)
        let result ← spell (spellWith g fuel) definition
        modify (leave name result)
        pure result

def spellRule (g : Grammar) (name : String) : Compiling (Except PatternError Spelling) :=
  spellWith g (g.rules.length + 1) name

/-- The spelling of a pattern written in the grammar, such as an alternative of a rule. -/
def spellPattern (g : Grammar) (body : List Char) :
    Compiling (Except PatternError Spelling) :=
  spell (spellRule g) body

def compileRule (g : Grammar) (name : String) : Compiling (Except PatternError Pattern) := do
  return (← spellRule g name).bind ofSpelling

end Compiler

end GrammarLab.Pattern

namespace GrammarLab

/-- A rule and its pattern, or why it has none. -/
abbrev CompiledRule := Rule × Except PatternError Pattern

namespace Grammar

/-- The pattern of a rule, with the rules that it refers to. -/
def compileRule (g : Grammar) (name : String) : Except PatternError Pattern :=
  (Pattern.Compiler.compileRule g name {}).1

/-- The outcomes for several rules, one after the other, with what is found out on the way kept. -/
def compileRules (g : Grammar) (rules : List Rule) : List CompiledRule :=
  rules.zip ((rules.mapM fun r => Pattern.Compiler.compileRule g r.name) {}).1

/-- The expression of a rule, if it has one. -/
def ruleRegex? (g : Grammar) (name : String) : Option Regex := do
  let t ← (Pattern.Compiler.spellRule g name {}).1.toOption
  return (← Regex.parse? t.text).regex

/-- The spelling of a pattern written in the grammar. -/
def spellPattern (g : Grammar) (body : List Char) : Except PatternError Pattern.Spelling :=
  (Pattern.Compiler.spellPattern g body {}).1

end Grammar

end GrammarLab
