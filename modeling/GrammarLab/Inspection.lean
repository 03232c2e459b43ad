import GrammarLab.Ambiguity
import GrammarLab.Bottleneck
import GrammarLab.Matcher.Verdict
import GrammarLab.Reference.Check
import GrammarLab.Simulation

/-!
# Inspections

A source that is scanned and checked once under a configuration and then asked about. What has no
place among the diagnostics, such as figures and tokens, is worked out when it is asked for.

    (Inspection.ofSource c s).diagnostics = scanDiagnostics ++ checkDiagnostics
-/

namespace GrammarLab

structure Inspection where
  source : List Char
  config : Config
  grammar : Grammar
  /-- What was found while the source was read. -/
  scanDiagnostics : Diagnostics
  /-- What the checks found in the grammar. -/
  checkDiagnostics : Diagnostics
deriving DecidableEq, Repr

/-- What all checks find: references, ambiguities, modes, patterns. -/
def Grammar.check (g : Grammar) (c : Config) : Diagnostics :=
  g.validate c.validate ++ g.ambiguities c.ambiguity ++ g.modeDiagnostics ++ g.redosDiagnostics

namespace Inspection

def ofSource (c : Config) (source : List Char) : Inspection :=
  let (g, ds) := Source.scan c.scan source
  { source, config := c, grammar := g, scanDiagnostics := ds, checkDiagnostics := g.check c }

/-- The inspection of the same source under another configuration. -/
def withConfig (c : Config) (i : Inspection) : Inspection := ofSource c i.source

/-! ## Diagnostics -/

def diagnostics (i : Inspection) : Diagnostics := i.scanDiagnostics ++ i.checkDiagnostics

/-- Nothing that was found is an error. -/
def isValid (i : Inspection) : Bool :=
  !i.scanDiagnostics.hasErrors && !i.checkDiagnostics.hasErrors

theorem isValid_eq (i : Inspection) : i.isValid = !i.diagnostics.hasErrors := by
  simp [isValid, diagnostics, Diagnostics.hasErrors]

/-! ## Figures -/

def metrics (i : Inspection) : GrammarMetrics := i.grammar.metrics i.config.metrics

def bottlenecks (i : Inspection) : BottleneckReport := i.grammar.bottlenecks i.config.metrics

/-! ## Tokens -/

def tokenizer (i : Inspection) : Tokenizer := Tokenizer.ofGrammar i.grammar i.config.tokenize

def tokenize (i : Inspection) (input : List Char) : Tokenizer.Result := i.tokenizer.tokenize input

def simulate (i : Inspection) (input : List Char) : Simulation :=
  Simulation.ofResult i.scanDiagnostics (i.tokenize input)

/-! ## Rules -/

def testRule (i : Inspection) (rule : String) (types : List String) :
    Except Matcher.RuleError Matcher.Verdict :=
  i.grammar.testRule rule types

/-- Matches the tokens of an input that a parser would see. -/
def testRuleOn (i : Inspection) (rule : String) (input : List Char) :
    Except Matcher.RuleError Matcher.Verdict :=
  i.testRule rule (i.tokenize input).types

end Inspection

end GrammarLab
