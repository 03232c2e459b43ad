/-!
# Settings

The settings of every stage with their usual values.
-/

namespace GrammarLab

structure ScanLimits where
  /-- Lines that one rule may take, its header included. -/
  maxRuleLines : Nat := 10000
deriving DecidableEq, Repr

/-- Names of rules whose tokens are usually skipped. -/
def usuallyUnused : List String :=
  ["WS", "WHITESPACE", "NEWLINE", "NL", "COMMENT", "LINE_COMMENT", "BLOCK_COMMENT", "DOC_COMMENT",
    "SPACE", "SPACES"]

structure ValidateOptions where
  /-- Rules never reported as unused. -/
  allowUnused : List String := usuallyUnused
  /-- Rules at which reading starts, which nothing needs to refer to. -/
  entryRules : List String := []
  /-- The tokens of a lexer grammar are what it is for. -/
  exemptLexerGrammarTokens : Bool := true
  /-- Tokens that are skipped or sent to a channel are used by the lexer. -/
  exemptHiddenTokens : Bool := true
deriving DecidableEq, Repr

def ValidateOptions.exempts (o : ValidateOptions) (name : String) : Bool :=
  o.allowUnused.contains name || o.entryRules.contains name

structure AmbiguityOptions where
  duplicateAlternatives : Bool := true
  overlappingPrefixes : Bool := true
  ambiguousOptionals : Bool := true
  leftRecursion : Bool := true
  lexerConflicts : Bool := true
  /-- How many elements two alternatives share before they are said to overlap. -/
  minSharedPrefix : Nat := 2
deriving DecidableEq, Repr

namespace AmbiguityOptions

/-- No check at all. -/
def none : AmbiguityOptions :=
  { duplicateAlternatives := false, overlappingPrefixes := false, ambiguousOptionals := false,
    leftRecursion := false, lexerConflicts := false }

/-- At least one shared element is asked for. -/
def withMinSharedPrefix (n : Nat) (o : AmbiguityOptions) : AmbiguityOptions :=
  { o with minSharedPrefix := max n 1 }

end AmbiguityOptions

/-- Thresholds are machine words. -/
structure MetricsConfig where
  /-- More rules than this referring to one make it a hub. -/
  hubThreshold : UInt64 := 5
  /-- The longest cycle looked for; also the depth of a rule that refers to itself. -/
  maxRecursionDepth : UInt64 := 10
  highComplexity : UInt64 := 10
  manyAlternatives : UInt64 := 8
  deepNesting : UInt64 := 4
deriving DecidableEq, Repr

/-- The search goes at least one step. -/
def MetricsConfig.withMaxRecursionDepth (n : UInt64) (c : MetricsConfig) : MetricsConfig :=
  { c with maxRecursionDepth := max n 1 }

structure TokenizeOptions where
  /-- Only these lexer rules, in this order; otherwise those of the default mode. -/
  rules : Option (List String) := none
  /-- Literals of parser rules that no lexer rule spells are tokens too. -/
  implicitLiterals : Bool := true
deriving DecidableEq, Repr

structure Config where
  scan : ScanLimits := {}
  validate : ValidateOptions := {}
  ambiguity : AmbiguityOptions := {}
  metrics : MetricsConfig := {}
  tokenize : TokenizeOptions := {}
deriving DecidableEq, Repr

end GrammarLab
