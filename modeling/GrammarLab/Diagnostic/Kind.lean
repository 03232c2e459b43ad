/-!
# Kinds of diagnostics

Each kind has a severity, a message for when nothing more is known, a template for when there is,
and sometimes a hint.
-/

namespace GrammarLab

inductive Severity
  | error
  | warning
  | info
deriving DecidableEq, Repr

namespace Severity

def text : Severity → String
  | error => "error"
  | warning => "warning"
  | info => "info"

/-- The most severe comes first. -/
def rank : Severity → Nat
  | error => 0
  | warning => 1
  | info => 2

end Severity

/-- Declared in the order in which a sorted collection lists them. -/
inductive DiagnosticKind
  | missingGrammarDeclaration
  | duplicateRule
  | missingColon
  | missingTerminator
  | unterminatedBlock
  | unrecognizedLine
  | undefinedReference
  | unusedRule
  | directLeftRecursion
  | lexerLeftRecursion
  | hiddenLeftRecursion
  | duplicateAlternative
  | overlappingAlternatives
  | ambiguousOptional
  | lexerConflict
  | unsupportedPattern
  | invalidPattern
  | redosRisk
  | undefinedMode
  | unreachableMode
  | popFromDefaultMode
  | modeCycle
  | emptyMode
deriving DecidableEq, Repr

/-- A message around one detail. -/
structure Template where
  before : String
  after : String := ""

namespace Template

def fill (t : Template) (detail : String) : String := t.before ++ detail ++ t.after

/-- The template with empty braces in the place of the detail. -/
def text (t : Template) : String := t.fill "\x7b\x7d"

end Template

namespace DiagnosticKind

def severity : DiagnosticKind → Severity
  | missingGrammarDeclaration | duplicateRule | missingColon | missingTerminator
  | unterminatedBlock | undefinedReference | lexerLeftRecursion | hiddenLeftRecursion
  | duplicateAlternative | undefinedMode => .error
  | directLeftRecursion => .info
  | unrecognizedLine | unusedRule | overlappingAlternatives | ambiguousOptional | lexerConflict
  | unsupportedPattern | invalidPattern | redosRisk | unreachableMode | popFromDefaultMode
  | modeCycle | emptyMode => .warning

def hint? : DiagnosticKind → Option String
  | missingGrammarDeclaration => some "start the file with e.g. `grammar Name;`"
  | missingTerminator => some "terminate the rule with `;`"
  | hiddenLeftRecursion =>
    some "only direct left recursion is rewritten; inline the cycle into one rule"
  | lexerLeftRecursion => some "lexer rules cannot be left-recursive"
  | ambiguousOptional => some "`X? X` matches a single `X` two ways; use `X X?`"
  | redosRisk => some "make the inner alternatives disjoint or bound the repetition"
  | _ => none

/-- The message without any detail. -/
def summary : DiagnosticKind → String
  | missingGrammarDeclaration => "missing grammar declaration"
  | duplicateRule => "duplicate rule"
  | missingColon => "rule name not followed by `:`"
  | missingTerminator => "rule is missing its `;` terminator"
  | unterminatedBlock => "block is never closed"
  | unrecognizedLine => "unrecognized line"
  | undefinedReference => "undefined reference"
  | unusedRule => "rule is never referenced"
  | directLeftRecursion => "rule is directly left-recursive"
  | lexerLeftRecursion => "lexer rule is left-recursive"
  | hiddenLeftRecursion => "hidden left recursion"
  | duplicateAlternative => "duplicate alternative"
  | overlappingAlternatives => "alternatives share a common prefix"
  | ambiguousOptional => "ambiguous optional element"
  | lexerConflict => "lexer rule is shadowed by an earlier rule"
  | unsupportedPattern => "pattern cannot be simulated"
  | invalidPattern => "pattern does not compile"
  | redosRisk => "pattern may backtrack catastrophically"
  | undefinedMode => "undefined lexer mode"
  | unreachableMode => "lexer mode is never entered"
  | popFromDefaultMode => "`popMode` issued from the default mode"
  | modeCycle => "lexer modes form a cycle"
  | emptyMode => "lexer mode has no rules"

/-- Kinds whose detail is a name put it into a sentence; the others append it. -/
def template : DiagnosticKind → Template
  | duplicateRule => ⟨"rule `", "` is already defined"⟩
  | missingColon => ⟨"rule `", "` is not followed by `:`"⟩
  | missingTerminator => ⟨"rule `", "` is missing its `;` terminator"⟩
  | undefinedReference => ⟨"`", "` is not defined"⟩
  | unusedRule => ⟨"rule `", "` is never referenced"⟩
  | directLeftRecursion => ⟨"rule `", "` is directly left-recursive"⟩
  | lexerLeftRecursion => ⟨"lexer rule `", "` is left-recursive"⟩
  | undefinedMode => ⟨"mode `", "` is not defined"⟩
  | unreachableMode => ⟨"mode `", "` is never entered"⟩
  | emptyMode => ⟨"mode `", "` has no rules"⟩
  | kind => ⟨kind.summary ++ ": ", ""⟩

def message (kind : DiagnosticKind) : Option String → String
  | none => kind.summary
  | some detail => kind.template.fill detail

theorem message_of_appends {kind : DiagnosticKind} (h : kind.template = ⟨kind.summary ++ ": ", ""⟩)
    (detail : String) : kind.message (some detail) = kind.summary ++ ": " ++ detail := by
  rw [message, h]
  exact String.append_empty

/-- All kinds in their order. -/
def all : List DiagnosticKind :=
  [missingGrammarDeclaration, duplicateRule, missingColon, missingTerminator, unterminatedBlock,
    unrecognizedLine, undefinedReference, unusedRule, directLeftRecursion, lexerLeftRecursion,
    hiddenLeftRecursion, duplicateAlternative, overlappingAlternatives, ambiguousOptional,
    lexerConflict, unsupportedPattern, invalidPattern, redosRisk, undefinedMode, unreachableMode,
    popFromDefaultMode, modeCycle, emptyMode]

def rank (kind : DiagnosticKind) : Nat := all.idxOf kind

end DiagnosticKind

end GrammarLab
