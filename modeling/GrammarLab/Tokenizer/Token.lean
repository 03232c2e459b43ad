import GrammarLab.Text.Place
import GrammarLab.Text.Quoted

/-!
# Results of tokenizing

What the simulated lexer makes of an input: tokens, and characters that no rule matches, in the
order in which they stand.
-/

namespace GrammarLab.Tokenizer

open Text

structure Token where
  /-- The name of a rule, the type that a command sets, or a literal with its quotes. -/
  type : String
  value : List Char
  /-- Offsets of the first byte and behind the last one. -/
  start : Nat
  stop : Nat
  place : Place
  skipped : Bool
  channel : Option String
deriving DecidableEq, Repr

/-- Neither skipped nor sent to a channel. -/
def Token.isVisible (t : Token) : Bool := !t.skipped && t.channel.isNone

/-- A character that no rule matches. -/
structure Unmatched where
  offset : Nat
  place : Place
  character : Char
deriving DecidableEq, Repr

def Unmatched.text (u : Unmatched) : String :=
  s!"no rule matches {quoteChar u.character} at line {u.place.line}, column {u.place.column}"

/-- What a stretch of the input turned out to be. -/
inductive Event
  | token (t : Token)
  | unmatched (u : Unmatched)
deriving DecidableEq, Repr

structure Result where
  events : List Event
deriving DecidableEq, Repr

namespace Result

def tokens (r : Result) : List Token :=
  r.events.filterMap fun
    | .token t => some t
    | .unmatched _ => none

def errors (r : Result) : List Unmatched :=
  r.events.filterMap fun
    | .token _ => none
    | .unmatched u => some u

def isSuccess (r : Result) : Bool := r.errors.isEmpty

/-- The types of the tokens that a parser would see. -/
def types (r : Result) : List String := (r.tokens.filter (·.isVisible)).map (·.type)

end Result

end GrammarLab.Tokenizer
