import Mathlib.Data.List.Nodup

/-!
# Lists without repetitions

Of the members of a list that a relation takes for the same only the first stays.

    r a a → a ∈ xs → ∃ b ∈ xs.eraseDupsBy r, r a b                (exists_mem_eraseDupsBy)
-/

namespace GrammarLab

variable {β : Type} {r : β → β → Bool}

theorem eraseDupsBy_sublist : (xs : List β) → (xs.eraseDupsBy r).Sublist xs
  | [] => .slnil
  | x :: xs => by
    rw [List.eraseDupsBy_cons]
    exact ((eraseDupsBy_sublist _).trans List.filter_sublist).cons_cons x
termination_by xs => xs.length
decreasing_by exact Nat.lt_succ_of_le (List.length_filter_le _ _)

/-- What stays is related to nothing before it. -/
theorem pairwise_eraseDupsBy : (xs : List β) → (xs.eraseDupsBy r).Pairwise fun a b => r b a = false
  | [] => .nil
  | x :: xs => by
    rw [List.eraseDupsBy_cons, List.pairwise_cons]
    refine ⟨fun b hb => ?_, pairwise_eraseDupsBy _⟩
    simpa using (List.mem_filter.1 ((eraseDupsBy_sublist _).subset hb)).2
termination_by xs => xs.length
decreasing_by exact Nat.lt_succ_of_le (List.length_filter_le _ _)

/-- What is left out is related to something that stays. -/
theorem exists_mem_eraseDupsBy (hr : ∀ a, r a a = true) {a : β} :
    (xs : List β) → a ∈ xs → ∃ b ∈ xs.eraseDupsBy r, r a b = true
  | x :: xs, h => by
    rw [List.eraseDupsBy_cons]
    by_cases hx : r a x = true
    · exact ⟨x, List.mem_cons_self, hx⟩
    have hmem : a ∈ xs.filter fun b => r b x = false := by
      rcases List.mem_cons.1 h with rfl | h
      · exact absurd (hr a) hx
      · exact List.mem_filter.2 ⟨h, by simpa using hx⟩
    obtain ⟨b, hb, hab⟩ := exists_mem_eraseDupsBy hr _ hmem
    exact ⟨b, List.mem_cons_of_mem _ hb, hab⟩
termination_by xs => xs.length
decreasing_by exact Nat.lt_succ_of_le (List.length_filter_le _ _)

theorem nodup_eraseDups [DecidableEq β] (xs : List β) : xs.eraseDups.Nodup := by
  refine (pairwise_eraseDupsBy xs).imp fun {a b} hother hsame => ?_
  rw [hsame] at hother
  simp at hother

theorem eraseDups_of_nodup [DecidableEq β] {xs : List β} (hn : xs.Nodup) : xs.eraseDups = xs := by
  induction hn with
  | nil => rfl
  | @cons x xs hx _ ih =>
    have hall : xs.filter (fun b => !b == x) = xs :=
      List.filter_eq_self.2 fun b hb => by simpa using (hx b hb).symm
    rw [List.eraseDups_cons, hall, ih]

section Keys

variable {γ : Type} [DecidableEq γ] {f : β → γ}

/-- What one member contributes, when each contribution tells whose it is. -/
theorem filter_flatMap_eq {α : Type} {f : α → γ} {key : β → γ} {parts : α → List β} {xs : List α}
    {x : α} (hkey : ∀ y, ∀ b ∈ parts y, key b = f y) (hn : (xs.map f).Nodup) (hx : x ∈ xs) :
    (xs.flatMap parts).filter (key · = f x) = parts x := by
  have hown : (parts x).filter (key · = f x) = parts x :=
    List.filter_eq_self.2 fun b hb => by simpa using hkey x b hb
  have hother : ∀ y, f y ≠ f x → (parts y).filter (key · = f x) = [] := fun y hne =>
    List.filter_eq_nil_iff.2 fun b hb => by simpa [hkey y b hb] using hne
  induction xs with
  | nil => simp at hx
  | cons y ys ih =>
    rw [List.map_cons, List.nodup_cons] at hn
    rw [List.flatMap_cons, List.filter_append]
    rcases List.mem_cons.1 hx with rfl | hmem
    · have hrest : (ys.flatMap parts).filter (key · = f x) = [] := by
        rw [List.filter_flatMap, List.flatMap_eq_nil_iff]
        exact fun z hz => hother z fun heq => hn.1 (heq ▸ List.mem_map_of_mem hz)
      rw [hown, hrest, List.append_nil]
    · rw [hother y fun heq => hn.1 (heq ▸ List.mem_map_of_mem hmem), List.nil_append, ih hn.2 hmem]

/-- Of members with different keys exactly one has the key of a given one. -/
theorem filter_eq_singleton {xs : List β} {x : β} (hn : (xs.map f).Nodup) (hx : x ∈ xs) :
    xs.filter (f · = f x) = [x] := by
  have hone : (xs.flatMap fun y => [y]).filter (f · = f x) = [x] :=
    filter_flatMap_eq (by simp) hn hx
  simpa using hone

/-- Of the members with one key the first stays. -/
theorem filter_eraseDupsBy {k : γ} : (xs : List β) →
    (xs.eraseDupsBy (f · = f ·)).filter (f · = k) = (xs.find? (f · = k)).toList
  | [] => rfl
  | x :: xs => by
    rw [List.eraseDupsBy_cons]
    by_cases hx : f x = k
    · have hnone : ∀ b ∈ (xs.filter fun b => decide (f b = f x) = false).eraseDupsBy (f · = f ·),
          ¬decide (f b = k) = true := fun b hb => by
        have hother := (List.mem_filter.1 ((eraseDupsBy_sublist _).subset hb)).2
        simpa [hx] using hother
      rw [List.filter_cons_of_pos (by simpa using hx), List.find?_cons_of_pos (by simpa using hx),
        List.filter_eq_nil_iff.2 hnone, Option.toList_some]
    · have hsame : (xs.filter fun b => decide (f b = f x) = false).find? (f · = k) =
          xs.find? (f · = k) := by
        rw [List.find?_filter]
        congr 1
        funext b
        by_cases hb : f b = k <;> simp [hb, Ne.symm hx]
      rw [List.filter_cons_of_neg (by simpa using hx), List.find?_cons_of_neg (by simpa using hx),
        filter_eraseDupsBy, hsame]
termination_by xs => xs.length
decreasing_by exact Nat.lt_succ_of_le (List.length_filter_le _ _)

end Keys

end GrammarLab
