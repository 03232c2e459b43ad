import GrammarLab.Config
import GrammarLab.Diagnostic.Basic
import GrammarLab.LeftRecursion
import GrammarLab.Pattern.Compiler

/-!
# Candidates

What takes part in tokenizing, in order of precedence: the literals of parser rules that no lexer
rule spells, then the token rules of the default mode in source order. A list of names takes the
place of the latter.

    failureOf? c = none ↔ (candidateOf? c).isSome
-/

namespace GrammarLab.Tokenizer

open Body

/-- A token type with its pattern and the commands of its rule. -/
structure Candidate where
  type : String
  pattern : Pattern
  skipped : Bool := false
  /-- What it matches belongs to the next token. -/
  more : Bool := false
  channel : Option String := none

namespace Candidate

/-- The channel of tokens that are sent to none. -/
def defaultChannel : String := "DEFAULT_TOKEN_CHANNEL"

def apply (c : Candidate) : Command → Candidate
  | .skip => { c with skipped := true }
  | .more => { c with more := true }
  | .channel name => if name = defaultChannel then c else { c with channel := some name }
  | .type name => { c with type := name }
  | _ => c

def ofRule (r : Rule) (pattern : Pattern) : Candidate :=
  (commandsOf r.definition).foldl apply { type := r.name, pattern }

end Candidate

/-! ## Implicit literals -/

/-- The literals that a token rule is all there is to. -/
def spelled (g : Grammar) : List (List Char) :=
  g.tokenRules.filterMap fun r => r.structure.soleLiteral?

/-- The literals of parser rules with their quotes, in source order. -/
def parserLiterals (g : Grammar) : List (List Char) :=
  g.parserRules.flatMap fun r =>
    ((significant r.definition).filter (·.kind = .literal)).map (·.text)

/-- The first spelling of each value that is not empty and that no token rule spells. -/
def implicitLiterals (g : Grammar) : List (List Char) :=
  ((parserLiterals g).filter fun quoted =>
    let value := Literal.unescape quoted
    !value.isEmpty && !(spelled g).contains value).eraseDupsBy
      fun a b => Literal.unescape a = Literal.unescape b

def implicitCandidates (g : Grammar) : List Candidate :=
  (implicitLiterals g).filterMap fun quoted =>
    (Pattern.literal (Literal.unescape quoted)).toOption.map fun pattern =>
      { type := String.ofList quoted, pattern }

/-! ## Rules -/

/-- The token rules of the default mode, or all of them where there is no other mode. -/
def defaultRules (g : Grammar) : List Rule :=
  if g.hasCustomModes then g.tokenRules.filter (·.mode = some defaultMode) else g.tokenRules

/-- The token rule of a name. -/
def tokenRule? (g : Grammar) (name : String) : Option Rule := (g.rule? name).filter (·.isToken)

def selectedRules (g : Grammar) (o : TokenizeOptions) : List Rule :=
  match o.rules with
  | none => defaultRules g
  | some names => names.filterMap (tokenRule? g)

/-- A report for each listed name that is not that of a token rule. -/
def selectionDiagnostics (g : Grammar) (o : TokenizeOptions) : Diagnostics :=
  ((o.rules.getD []).filter fun name => (tokenRule? g name).isNone).map fun name =>
    ((Diagnostic.ofKind .unsupportedPattern).onRule name)
      |>.withDetail s!"`{name}` is not a token rule"

/-- A report for a rule that has no pattern. -/
def patternDiagnostic (r : Rule) (e : PatternError) : Diagnostic :=
  let (kind, reason) := match e with
    | .unsupported u => (DiagnosticKind.unsupportedPattern, u.reason)
    | .invalid i => (DiagnosticKind.invalidPattern, i.reason)
  (((Diagnostic.ofKind kind).onLine r.lineNumber).onRule r.name
    |>.withDetail s!"{reason} in `{r.name}`").withHint "the rule never matches during simulation"

/-- The candidate of a rule that has a pattern. -/
def candidateOf? : CompiledRule → Option Candidate
  | (r, .ok p) => some (.ofRule r p)
  | (_, .error _) => none

/-- The report for a rule that has none. -/
def failureOf? : CompiledRule → Option Diagnostic
  | (_, .ok _) => none
  | (r, .error e) => some (patternDiagnostic r e)

end GrammarLab.Tokenizer
