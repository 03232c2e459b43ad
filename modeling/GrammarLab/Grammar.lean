import GrammarLab.Name

/-!
# Grammars

The model that every analysis reads. Rules stand in source order, since an earlier lexer rule wins
a tie; a name may be defined more than once in a model that was not scanned.

    g.rule? n = some r → r.name = n                 (name_of_rule?)
-/

namespace GrammarLab

inductive GrammarKind
  | lexer
  | parser
  | combined
deriving DecidableEq, Repr

def GrammarKind.text : GrammarKind → String
  | .lexer => "lexer"
  | .parser => "parser"
  | .combined => "combined"

structure Rule where
  name : String
  isFragment : Bool
  /-- The body without its final `;`, lines joined by line feeds. -/
  definition : List Char
  /-- The line of the name, counted from one. -/
  lineNumber : Nat
  /-- The line on which `definition` begins. -/
  bodyLine : Nat
  /-- The line of the final `;`, or the last line of the body. -/
  endLine : Nat
  /-- The names in the body, each once, in order of their first occurrence. -/
  referencedRules : List String
  /-- The lexer mode that owns the rule. -/
  mode : Option String
deriving DecidableEq, Repr

namespace Rule

def kind (r : Rule) : RuleKind := ruleKind r.name

def isLexer (r : Rule) : Bool := isLexerName r.name

def isParser (r : Rule) : Bool := !r.isLexer

/-- A lexer rule that makes tokens of its own. -/
def isToken (r : Rule) : Bool := r.isLexer && !r.isFragment

def isSelfReferencing (r : Rule) : Bool := r.referencedRules.contains r.name

/-- The names of other rules in the body. -/
def externalReferences (r : Rule) : List String := r.referencedRules.filter (· ≠ r.name)

end Rule

structure LexerMode where
  name : String
  /-- The line of its declaration, if it has one. -/
  lineNumber : Option Nat := none
  rules : List String := []
deriving DecidableEq, Repr

def LexerMode.isDefault (m : LexerMode) : Bool := m.name = defaultMode

structure Grammar where
  /-- The declared name, empty when there is none. -/
  name : String := ""
  kind : GrammarKind := .combined
  rules : List Rule := []
  modes : List LexerMode := [{ name := defaultMode }]
  imports : List String := []
  /-- Keys and values in the order in which the keys first came. -/
  options : List (String × String) := []
  /-- Names declared without a rule. -/
  tokens : List String := []
  channels : List String := []
deriving DecidableEq, Repr

namespace Grammar

def rule? (g : Grammar) (name : String) : Option Rule := g.rules.find? (·.name = name)

def ruleIndex? (g : Grammar) (name : String) : Option Nat := g.rules.findIdx? (·.name = name)

def contains (g : Grammar) (name : String) : Bool := (g.rule? name).isSome

/-- A rule, a declared token or the end of the input has the name. -/
def defines (g : Grammar) (name : String) : Bool :=
  g.contains name || g.tokens.contains name || name = endOfInput

def lexerRules (g : Grammar) : List Rule := g.rules.filter (·.isLexer)

def parserRules (g : Grammar) : List Rule := g.rules.filter (·.isParser)

def tokenRules (g : Grammar) : List Rule := g.rules.filter (·.isToken)

def fragments (g : Grammar) : List Rule := g.rules.filter (·.isFragment)

def mode? (g : Grammar) (name : String) : Option LexerMode := g.modes.find? (·.name = name)

/-- A mode besides the default one is declared. -/
def hasCustomModes (g : Grammar) : Bool := g.modes.any (!·.isDefault)

def option? (g : Grammar) (key : String) : Option String := g.options.lookup key

/-! ## Lemmas -/

theorem name_of_rule? {g : Grammar} {name : String} {r : Rule} (h : g.rule? name = some r) :
    r.name = name := by
  simpa using List.find?_some h

end Grammar

/-! ## Insertion order -/

/-- Adds a member at the end, unless it is one already. -/
def insertOnce (xs : List String) (x : String) : List String :=
  if x ∈ xs then xs else xs ++ [x]

/-- Sets a key; a key that is there already keeps its place. -/
def setOption (options : List (String × String)) (key value : String) : List (String × String) :=
  if options.any (·.1 = key) then
    options.map fun entry => if entry.1 = key then (key, value) else entry
  else options ++ [(key, value)]

end GrammarLab
