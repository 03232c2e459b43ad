import GrammarLab.Config
import GrammarLab.Diagnostic.Basic
import GrammarLab.Reference.Graph
import GrammarLab.Reference.Usage

/-!
# Undefined and unused names

Names without a definition are reported once a rule, at their first place. They are passed over in
a grammar with imports, which may define them, and names of tokens also in a parser grammar that
takes its tokens from elsewhere.
-/

namespace GrammarLab

open Body

/-- The tokens of the grammar are defined somewhere else. -/
def Grammar.hasForeignTokens (g : Grammar) : Bool :=
  g.kind = .parser && (g.option? "tokenVocab").isSome

/-- Nothing that the grammar knows of defines the name. -/
def Grammar.isUndefined (g : Grammar) (name : String) : Bool :=
  !g.defines name && !(g.hasForeignTokens && isLexerName name)

/-- The references of a body to names that are not defined, each name once. -/
def Grammar.undefinedReferences (g : Grammar) (r : Rule) : List Reference :=
  ((references r.definition).filter fun ref => g.isUndefined ref.name).eraseDupsBy
    (·.name = ·.name)

def Grammar.undefinedDiagnostics (g : Grammar) : Diagnostics :=
  g.rules.flatMap fun r => (g.undefinedReferences r).map fun ref =>
    ((Diagnostic.ofKind .undefinedReference).onLine (r.lineAt ref.offset)).onRule r.name
      |>.withDetail ref.name

/-- The tokens of the rule are skipped or sent to a channel. -/
def Rule.isHidden (r : Rule) : Bool :=
  (commandsOf r.definition).any fun
    | .skip => true
    | .channel _ => true
    | _ => false

/-- A token that needs no other rule to name it. -/
def Rule.isExemptToken (r : Rule) (g : Grammar) (o : ValidateOptions) : Bool :=
  r.isToken && ((o.exemptLexerGrammarTokens && g.kind = .lexer) ||
    (o.exemptHiddenTokens && r.isHidden))

/-- No other rule names the rule, and nothing exempts it. -/
def Grammar.isUnused (g : Grammar) (graph : ReferenceGraph) (o : ValidateOptions) (r : Rule) :
    Bool :=
  graph.fanIn r.name = 0 && !o.exempts r.name && !r.isExemptToken g o

def Grammar.unusedDiagnostics (g : Grammar) (o : ValidateOptions) : Diagnostics :=
  let graph := ReferenceGraph.ofGrammar g
  (g.rules.filter (g.isUnused graph o)).map fun r =>
    ((Diagnostic.ofKind .unusedRule).onLine r.lineNumber).onRule r.name |>.withDetail r.name

/-- Names that are not defined, then rules that are not used. -/
def Grammar.validate (g : Grammar) (o : ValidateOptions) : Diagnostics :=
  (if g.imports.isEmpty then g.undefinedDiagnostics else []) ++ g.unusedDiagnostics o

end GrammarLab
