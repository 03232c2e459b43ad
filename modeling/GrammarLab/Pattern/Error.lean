/-!
# Why a pattern fails

Constructs that cannot be simulated, and patterns that mean nothing.

    (PatternError.invalid .rejected).message = "invalid pattern: error building NFA"
-/

namespace GrammarLab

/-- Constructs beyond what a pattern can express. -/
inductive Unsupported
  | cyclic (rule : String)
  | undefined (rule : String)
  | parserRule (rule : String)
  /-- A reference where there is no grammar. -/
  | loose (name : String)
  | endOfInput
  | predicate (text : String)
  | action (text : String)
  | elementOptions
  /-- Something other than characters between the parentheses of a negated set. -/
  | inNegatedSet (text : String)
  | negated (text : String)
deriving DecidableEq, Repr

def Unsupported.reason : Unsupported → String
  | .cyclic rule => s!"`{rule}` refers to itself"
  | .undefined rule => s!"`{rule}` is not defined in this grammar"
  | .parserRule rule => s!"parser rule `{rule}` used in a lexer pattern"
  | .loose name => s!"reference to `{name}` outside a grammar"
  | .endOfInput => "`EOF` in a lexer rule"
  | .predicate text => s!"semantic predicate `{text}`"
  | .action text => s!"embedded action `{text}`"
  | .elementOptions => "element options"
  | .inNegatedSet text => s!"`{text}` inside a negated set"
  | .negated text => s!"negation of `{text}`"

/-- Faults in the text of a pattern. -/
inductive Invalid
  | unexpected (text : String)
  | notSingle (literal : String)
  | bareNegation
  | unclosedNegation
  /-- A backslash with nothing left to escape in a class. -/
  | dangling (charClass : String)
  /-- The expression that the pattern spells is none. -/
  | rejected
deriving DecidableEq, Repr

def Invalid.reason : Invalid → String
  | .unexpected text => s!"unexpected `{text}`"
  | .notSingle literal => s!"{literal} is not a single character"
  | .bareNegation => "`~` at end of pattern"
  | .unclosedNegation => "unclosed `~(`"
  | .dangling charClass => s!"dangling `\\` in {charClass}"
  | .rejected => "error building NFA"

inductive PatternError
  | unsupported (u : Unsupported)
  | invalid (i : Invalid)
deriving DecidableEq, Repr

def PatternError.message : PatternError → String
  | .unsupported u => "unsupported construct in pattern: " ++ u.reason
  | .invalid i => "invalid pattern: " ++ i.reason

end GrammarLab
