import GrammarLab.Regex.CharSet

/-!
# Regular expressions

The expressions that patterns denote. Sequences and alternations are chains that go on to the
right; a `group` keeps an inner alternation apart from the chain around it. `Matches` is their
meaning, for which it makes no difference whether a quantifier is greedy or lazy.

    r.Matches [] ↔ r.nullable = true                (matches_nil_iff)
-/

namespace GrammarLab

inductive Quantifier
  | optional
  | star
  | plus
deriving DecidableEq, Repr

inductive Regex
  | empty
  | set (s : CharSet)
  | group (r : Regex)
  | seq (a b : Regex)
  | or (a b : Regex)
  /-- A lazy quantifier would rather stop than go on. -/
  | repeated (q : Quantifier) (isLazy : Bool) (r : Regex)
deriving DecidableEq, Repr

namespace Regex

def ofChar (c : Char) : Regex := .set (.single c)

/-- The chain that matches the items one after the other. -/
def sequence : List Regex → Regex
  | [] => .empty
  | [r] => r
  | r :: rs => .seq r (sequence rs)

/-- The chain that matches what one of the branches matches. -/
def alternation : List Regex → Regex
  | [] => .empty
  | [r] => r
  | r :: rs => .or r (alternation rs)

def size : Regex → Nat
  | .empty => 1
  | .set _ => 1
  | .group r => 1 + r.size
  | .seq a b => 1 + a.size + b.size
  | .or a b => 1 + a.size + b.size
  | .repeated _ _ r => 1 + r.size

/-- A lazy quantifier stands somewhere in the expression. -/
def hasLazy : Regex → Bool
  | .empty => false
  | .set _ => false
  | .group r => r.hasLazy
  | .seq a b => a.hasLazy || b.hasLazy
  | .or a b => a.hasLazy || b.hasLazy
  | .repeated _ isLazy r => isLazy || r.hasLazy

/-- The expression matches the empty text. -/
def nullable : Regex → Bool
  | .empty => true
  | .set _ => false
  | .group r => r.nullable
  | .seq a b => a.nullable && b.nullable
  | .or a b => a.nullable || b.nullable
  | .repeated q _ r => q = .optional || q = .star || r.nullable

/-! ## Meaning -/

/-- `Matches r s`: the expression matches all of `s`. -/
inductive Matches : Regex → List Char → Prop
  | empty : Matches .empty []
  | set {s c} : s.contains c = true → Matches (.set s) [c]
  | group {r s} : Matches r s → Matches (.group r) s
  | seq {a b s t} : Matches a s → Matches b t → Matches (.seq a b) (s ++ t)
  | left {a b s} : Matches a s → Matches (.or a b) s
  | right {a b s} : Matches b s → Matches (.or a b) s
  | absent {isLazy r} : Matches (.repeated .optional isLazy r) []
  | present {isLazy r s} : Matches r s → Matches (.repeated .optional isLazy r) s
  | stop {isLazy r} : Matches (.repeated .star isLazy r) []
  | next {isLazy r s t} :
      Matches r s → Matches (.repeated .star isLazy r) t →
        Matches (.repeated .star isLazy r) (s ++ t)
  | plus {isLazy r s t} :
      Matches r s → Matches (.repeated .star isLazy r) t →
        Matches (.repeated .plus isLazy r) (s ++ t)

/-! ## Lemmas -/

theorem matches_nil_of_nullable {r : Regex} (h : r.nullable = true) : r.Matches [] := by
  induction r with
  | empty => exact .empty
  | set s => simp [nullable] at h
  | group r ih => exact .group (ih h)
  | seq a b iha ihb =>
    simp only [nullable, Bool.and_eq_true] at h
    exact .seq (s := []) (t := []) (iha h.1) (ihb h.2)
  | or a b iha ihb =>
    simp only [nullable, Bool.or_eq_true] at h
    exact h.elim (fun h => .left (iha h)) (fun h => .right (ihb h))
  | repeated q isLazy r ih =>
    cases q with
    | optional => exact .absent
    | star => exact .stop
    | plus =>
      exact .plus (s := []) (t := []) (ih (by simpa [nullable] using h)) .stop

theorem nullable_of_matches {r : Regex} {s : List Char} (h : r.Matches s) (hs : s = []) :
    r.nullable = true := by
  induction h with
  | empty => rfl
  | set => simp at hs
  | group _ ih => exact ih hs
  | seq _ _ iha ihb =>
    rw [List.append_eq_nil_iff] at hs
    simp [nullable, iha hs.1, ihb hs.2]
  | left _ ih => simp [nullable, ih hs]
  | right _ ih => simp [nullable, ih hs]
  | absent => simp [nullable]
  | present => simp [nullable]
  | stop => simp [nullable]
  | next => simp [nullable]
  | plus _ _ ih =>
    rw [List.append_eq_nil_iff] at hs
    simp [nullable, ih hs.1]

theorem matches_nil_iff {r : Regex} : r.Matches [] ↔ r.nullable = true :=
  ⟨fun h => nullable_of_matches h rfl, matches_nil_of_nullable⟩

end Regex

end GrammarLab
