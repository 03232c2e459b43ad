import GrammarLab.Regex.Extent

/-!
# Normal form of expressions

The form in which alternatives are tried. Groups are gone, sequences and alternations are flat,
sets stand in their normal form, branches that are all single characters or all sets become one
set, and what all branches begin with is taken out in front of them.

    normal (a b | a c) = a (b | c)
-/

namespace GrammarLab.Regex

/-- The items of a sequence. -/
def items : Regex → List Regex
  | .empty => []
  | .seq a b => items a ++ items b
  | r => [r]

/-- The branches of an alternation. -/
def branches : Regex → List Regex
  | .or a b => branches a ++ branches b
  | r => [r]

/-- A set of one character. -/
def isLetter : Regex → Bool
  | .set s => s.only?.isSome
  | _ => false

/-- A set of several characters or of none. -/
def isClass : Regex → Bool
  | .set s => s.only?.isNone
  | _ => false

def setOf : Regex → CharSet
  | .set s => s
  | _ => .empty

/-- Neighbouring letters put together: a run of them counts as one thing. -/
def runs (rs : List Regex) : List (List Regex) := rs.splitBy fun a b => a.isLetter && b.isLetter

/-- What two lists begin with alike. -/
def shared {α : Type} [DecidableEq α] : List α → List α → List α
  | a :: as, b :: bs => if a = b then a :: shared as bs else []
  | _, _ => []

/-- What all sequences begin with, if each has several things in it. -/
def sharedRuns : List (List (List Regex)) → List (List Regex)
  | [] => []
  | s :: ss =>
    if (s :: ss).all fun t => decide (2 ≤ t.length) then ss.foldl shared s else []

/-- The alternation of the branches in normal form. Each time that a beginning is taken out the
branches get smaller; `fuel` is their size. -/
def alternate (fuel : Nat) (rs : List Regex) : Regex :=
  let rs := rs.flatMap branches
  if rs.all isLetter || rs.all isClass then
    .set (CharSet.normal ((rs.map setOf).foldl .union .empty))
  else match fuel with
    | 0 => alternation rs
    | fuel + 1 =>
      let beginning := (sharedRuns (rs.map fun r => runs r.items)).flatten
      if beginning.isEmpty then alternation rs
      else
        let rest := alternate fuel
          (rs.map fun r => sequence (r.items.drop beginning.length))
        sequence (beginning ++ rest.items)

/-- The alternation of the branches in normal form. -/
def joined : List Regex → Regex
  | [r] => r
  | rs => alternate ((rs.map size).foldr (· + ·) 0) rs

/-- Repetition in normal form: of what is always empty, once is enough. -/
def repetition (q : Quantifier) (isLazy : Bool) (r : Regex) : Regex :=
  if r.most? = some 0 then
    match q with
    | .plus => r
    | _ => .repeated .optional isLazy r
  else .repeated q isLazy r

/-- The branches of the expression, each in normal form. -/
def alternatives : Regex → List Regex
  | .empty => [.empty]
  | .set s => [.set s.normal]
  | .group r => [joined r.alternatives]
  | .seq a b => [sequence ((joined a.alternatives).items ++ (joined b.alternatives).items)]
  | .or a b => joined a.alternatives :: b.alternatives
  | .repeated q isLazy r => [repetition q isLazy (joined r.alternatives)]

def normal (r : Regex) : Regex := joined r.alternatives

end GrammarLab.Regex
