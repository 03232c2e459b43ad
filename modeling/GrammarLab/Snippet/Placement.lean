import GrammarLab.Snippet.Mark

/-!
# Rows of labels

All marks of a line are drawn on the row under it. Labels go behind their marks as long as there is
room, and otherwise to rows further down, those of marks at the right first.

    ((place ms).map (·.2)).Perm ms          (place_perm)
-/

namespace GrammarLab.Snippet

namespace Mark

/-- The label has no place behind the mark, since one of the marks at the left reaches under it.
One without a label that covers the same columns is no obstacle. -/
def isCrowded (m : Mark) (later : List Mark) : Bool :=
  m.hasLabel && later.any fun n =>
    n.overlaps 0 m && (n.start ≠ m.start || n.stop ≠ m.stop || n.hasLabel)

/-- The columns that a label takes besides its mark, counted in bytes. -/
def room (m : Mark) : Nat := if m.hasLabel then Text.byteLength m.label + 2 else 0

/-- The mark `n` at the left of `m` has to go to a lower row than `m`. -/
def displaces (m : Mark) (row : Nat) (n : Mark) : Bool :=
  let overlap := n.overlaps n.room m
  (overlap && m.hasLabel && n.hasLabel) ||
    (m.isJoined && n.hasLabel) ||
    (m.hasLabel && n.isJoined) ||
    (m.isJoined && n.isJoined) ||
    (overlap && n.stop ≤ m.stop && n.hasLabel && row = 0)

end Mark

/-- The rows for marks that are sorted from right to left. -/
def placeFrom (row : Nat) : List Mark → List (Nat × Mark)
  | [] => []
  | m :: later =>
    let row := if row = 0 && m.isCrowded later then 1 else row
    (row, m) :: placeFrom (if later.any (m.displaces row) then row + 1 else row) later

/-- The marks from right to left with their rows. -/
def place (ms : List Mark) : List (Nat × Mark) :=
  placeFrom 0 (ms.mergeSort fun a b => decide (b.start ≤ a.start))

/-- The rows that labels and joins take under the row of the marks. -/
def extraRows (placed : List (Nat × Mark)) : Nat :=
  let last := (placed.map (·.1)).foldl max 0
  if last = 0 then 0 else last + 1

/-! ## Lemmas -/

theorem map_snd_placeFrom (row : Nat) (ms : List Mark) : (placeFrom row ms).map (·.2) = ms := by
  induction ms generalizing row with
  | nil => rfl
  | cons m later ih => simp [placeFrom, ih]

theorem place_perm (ms : List Mark) : ((place ms).map (·.2)).Perm ms := by
  rw [place, map_snd_placeFrom]
  exact List.mergeSort_perm ms _

theorem le_of_mem_placeFrom (row : Nat) (ms : List Mark) :
    ∀ p ∈ placeFrom row ms, row ≤ p.1 := by
  induction ms generalizing row with
  | nil => simp [placeFrom]
  | cons m later ih =>
    intro p hp
    have hrow : row ≤ if row = 0 && m.isCrowded later then 1 else row := by
      split
      · rename_i h
        simp only [Bool.and_eq_true, decide_eq_true_eq] at h
        omega
      · exact Nat.le_refl row
    simp only [placeFrom, List.mem_cons] at hp
    rcases hp with rfl | hp
    · exact hrow
    · have hp := ih _ p hp
      generalize (if row = 0 && m.isCrowded later then 1 else row) = next at hrow hp
      split at hp <;> omega

end GrammarLab.Snippet
