import GrammarLab.Body.Lexer

/-!
# Outline of a body

Counts made in one pass over the tokens, with the parentheses open at each of them.

    complexity body = 1 + pipes + quantifiers
-/

namespace GrammarLab.Body

structure Outline where
  /-- Pipes outside parentheses. -/
  pipes : Nat := 0
  /-- Quantifiers outside parentheses, those of a whole group included. -/
  quantifiers : Nat := 0
  /-- The most parentheses open at once. -/
  depth : Nat := 0
deriving DecidableEq, Repr

namespace Outline

def alternatives (o : Outline) : Nat := o.pipes + 1

/-- Adds the tokens to the counts. `depth` parentheses are open, and `afterAction` tells whether
an action stands right before: a `?` behind it marks a predicate and does not quantify. -/
def count (o : Outline) (depth : Nat) (afterAction : Bool) : List Token → Outline
  | [] => o
  | t :: ts =>
    let next := t.kind = .action
    if t.kind = .parenOpen then
      count { o with depth := max o.depth (depth + 1) } (depth + 1) next ts
    else if t.kind = .parenClose then count o (depth - 1) next ts
    else if t.kind = .pipe && depth = 0 then count { o with pipes := o.pipes + 1 } depth next ts
    else if t.kind.isQuantifier && depth = 0 && !afterAction then
      count { o with quantifiers := o.quantifiers + 1 } depth next ts
    else count o depth next ts

end Outline

def outline (body : List Char) : Outline := Outline.count {} 0 false (significant body)

/-- One, and one more for each branch and each loop outside parentheses. -/
def complexity (body : List Char) : Nat := 1 + (outline body).pipes + (outline body).quantifiers

end GrammarLab.Body
