import GrammarLab.Regex.Basic

/-!
# How far expressions reach

Bounds on the length of a match and the characters that one can start with. The bounds of a set
without members are unknown, and so are those of whatever contains one.

    r.Matches [] → r.least? = some n → n = 0                (least?_of_matches_nil)
-/

namespace GrammarLab.Regex

/-! ## Algorithm -/

/-- The least number of characters of a match, if it is known. -/
def least? : Regex → Option Nat
  | .empty => some 0
  | .set s => if s.isEmpty then none else some 1
  | .group r => r.least?
  | .seq a b => do return (← a.least?) + (← b.least?)
  | .or a b => do return min (← a.least?) (← b.least?)
  | .repeated .plus _ r => r.least?
  | .repeated _ _ r => r.least?.map fun _ => 0

/-- The greatest number of characters of a match, if it is known and there is one. -/
def most? : Regex → Option Nat
  | .empty => some 0
  | .set s => if s.isEmpty then none else some 1
  | .group r => r.most?
  | .seq a b => do return (← a.most?) + (← b.most?)
  | .or a b => do return max (← a.most?) (← b.most?)
  | .repeated .optional _ r => r.most?
  | .repeated _ _ _ => none

/-- The characters that a match can start with. -/
def first : Regex → CharSet
  | .empty => .empty
  | .set s => s
  | .group r => r.first
  | .seq a b => if a.least? = some 0 then a.first.union b.first else a.first
  | .or a b => a.first.union b.first
  | .repeated _ _ r => r.first

/-! ## Lemmas -/

theorem least?_of_matches_nil {r : Regex} {s : List Char} (h : r.Matches s) (hs : s = []) :
    ∀ n, r.least? = some n → n = 0 := by
  induction h with
  | empty => intro n hn; simpa [least?] using hn.symm
  | set => simp at hs
  | group _ ih => intro n hn; exact ih hs n hn
  | seq _ _ iha ihb =>
    rw [List.append_eq_nil_iff] at hs
    intro n hn
    simp only [least?, bind, Option.bind_eq_some_iff, pure, Option.some.injEq] at hn
    obtain ⟨i, hi, j, hj, he⟩ := hn
    have := iha hs.1 i hi
    have := ihb hs.2 j hj
    omega
  | left _ ih =>
    intro n hn
    simp only [least?, bind, Option.bind_eq_some_iff, pure, Option.some.injEq] at hn
    obtain ⟨i, hi, j, _, he⟩ := hn
    have := ih hs i hi
    omega
  | right _ ih =>
    intro n hn
    simp only [least?, bind, Option.bind_eq_some_iff, pure, Option.some.injEq] at hn
    obtain ⟨i, _, j, hj, he⟩ := hn
    have := ih hs j hj
    omega
  | absent => intro n hn; simp [least?] at hn; omega
  | present => intro n hn; simp [least?] at hn; omega
  | stop => intro n hn; simp [least?] at hn; omega
  | next => intro n hn; simp [least?] at hn; omega
  | plus _ _ ih =>
    rw [List.append_eq_nil_iff] at hs
    intro n hn
    exact ih hs.1 n hn

end GrammarLab.Regex
