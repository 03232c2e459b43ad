import GrammarLab.Text.Utf8

/-!
# Tokens of rule bodies

A rule body is a run of tokens. Literals, character classes and actions are single tokens, so what
stands inside them is never taken for an operator; whatever no token begins with is garbage.
-/

namespace GrammarLab.Body

inductive TokenKind
  | parenOpen
  | parenClose
  | pipe
  | question
  | star
  | plus
  | starQuestion
  | plusQuestion
  | questionQuestion
  | tilde
  | dot
  | range
  | arrow
  | hash
  | equals
  | plusEquals
  | comma
  | colon
  | semicolon
  | lt
  | gt
  | literal
  | charClass
  | action
  | ident
  | blank
  | lineComment
  | blockComment
  | garbage
deriving DecidableEq, Repr

namespace TokenKind

/-- Blank space and comments, which every reader of a body skips. -/
def isTrivia (k : TokenKind) : Bool := k = blank || k = lineComment || k = blockComment

def isGreedy (k : TokenKind) : Bool := k = question || k = star || k = plus

def isLazy (k : TokenKind) : Bool := k = starQuestion || k = plusQuestion || k = questionQuestion

def isQuantifier (k : TokenKind) : Bool := k.isGreedy || k.isLazy

end TokenKind

/-- A stretch of a body together with what it is. -/
structure Token where
  kind : TokenKind
  text : List Char
  /-- The byte offset of `text` within the body. -/
  offset : Nat
deriving DecidableEq, Repr

namespace Token

def stop (t : Token) : Nat := t.offset + Text.byteLength t.text

/-- The text as a name. -/
def name (t : Token) : String := String.ofList t.text

end Token

end GrammarLab.Body
