import GrammarLab.Text.Classes

/-!
# Rule names

The kind of a rule is never stored: a capital first letter makes a lexer rule, anything else a
parser rule.

    ruleKind "ID" = .lexer        ruleKind "expr" = .parser
-/

namespace GrammarLab

open Text

inductive RuleKind
  | lexer
  | parser
deriving DecidableEq, Repr

def RuleKind.text : RuleKind → String
  | .lexer => "lexer"
  | .parser => "parser"

def isLexerName (name : String) : Bool :=
  match name.toList with
  | [] => false
  | c :: _ => isUppercase c

def ruleKind (name : String) : RuleKind := if isLexerName name then .lexer else .parser

/-- A letter followed by letters, digits and `_`. -/
def isIdentifier (word : List Char) : Bool :=
  match word with
  | [] => false
  | c :: cs => isAlphabetic c && cs.all fun d => isAlphanumeric d || d = '_'

/-- The lexer mode every grammar starts in. -/
def defaultMode : String := "DEFAULT_MODE"

/-- The token at the end of the input, which needs no definition. -/
def endOfInput : String := "EOF"

end GrammarLab
