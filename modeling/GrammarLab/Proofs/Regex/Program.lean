import GrammarLab.Proofs.Regex.Language
import GrammarLab.Regex.Preferred

/-!
# Runs of programs

A run of a program from a place on takes a text and ends at an `accept`. The instructions of an
expression lead only to the place behind them, by a text that the expression matches, so that what
a program takes is a match.

    preferred? r.program s = some n → r.Matches (s.take n)          (matches_of_preferred?)
-/

namespace GrammarLab.Regex

/-- `Accepts p k i s`: from the place `i` on, `k` steps lead to an `accept` and take `s`. -/
inductive Accepts (p : Array Instruction) : Nat → Nat → List Char → Prop
  | accept {i} : p[i]? = some .accept → Accepts p 0 i []
  | take {k i next cs c s} : p[i]? = some (.take cs next) → cs.contains c = true →
      Accepts p k next s → Accepts p (k + 1) i (c :: s)
  | first {k i a b s} : p[i]? = some (.fork a b) → Accepts p k a s → Accepts p (k + 1) i s
  | second {k i a b s} : p[i]? = some (.fork a b) → Accepts p k b s → Accepts p (k + 1) i s
  | goto {k i a s} : p[i]? = some (.goto a) → Accepts p k a s → Accepts p (k + 1) i s

/-- The instructions stand in the program from the place `base` on. -/
def Placed (p : Array Instruction) (base : Nat) (xs : List Instruction) : Prop :=
  ∀ j x, xs[j]? = some x → p[base + j]? = some x

/-- From `i` on, a run leads to `next` by a text that satisfies `P`, in one step at least. -/
def LeadsTo (p : Array Instruction) (i next : Nat) (P : List Char → Prop) : Prop :=
  ∀ k s, Accepts p k i s → ∃ t u l, s = t ++ u ∧ P t ∧ l < k ∧ Accepts p l next u

/-! ## Places -/

section

variable {p : Array Instruction} {base : Nat}

theorem Placed.left {xs ys : List Instruction} (h : Placed p base (xs ++ ys)) : Placed p base xs := by
  intro j x hx
  obtain ⟨hlt, -⟩ := List.getElem?_eq_some_iff.1 hx
  exact h j x (by rw [List.getElem?_append_left hlt, hx])

theorem Placed.right {xs ys : List Instruction} (h : Placed p base (xs ++ ys)) :
    Placed p (base + xs.length) ys := by
  intro j x hx
  rw [Nat.add_assoc]
  exact h (xs.length + j) x (by rw [List.getElem?_append_right (Nat.le_add_right _ _),
    Nat.add_sub_cancel_left, hx])

theorem Placed.head {x : Instruction} {xs : List Instruction} (h : Placed p base (x :: xs)) :
    p[base]? = some x := h 0 x rfl

theorem Placed.tail {x : Instruction} {xs : List Instruction} (h : Placed p base (x :: xs)) :
    Placed p (base + 1) xs := by
  have hsplit : Placed p base ([x] ++ xs) := h
  exact hsplit.right

/-! ## Runs -/

variable {i next body exit : Nat} {P Q : List Char → Prop}

theorem LeadsTo.mono (h : LeadsTo p i next P) (hPQ : ∀ t, P t → Q t) : LeadsTo p i next Q := by
  intro k s hs
  obtain ⟨t, u, l, rfl, ht, hl, hu⟩ := h k s hs
  exact ⟨t, u, l, rfl, hPQ t ht, hl, hu⟩

theorem accepts_goto {k : Nat} {s : List Char} (hi : p[i]? = some (.goto next))
    (h : Accepts p k i s) : ∃ l, l < k ∧ Accepts p l next s := by
  cases h with
  | goto hg h =>
    obtain rfl := Instruction.goto.inj (Option.some.inj (hg.symm.trans hi))
    exact ⟨_, Nat.lt_succ_self _, h⟩
  | accept hg => simp [hi] at hg
  | take hg => simp [hi] at hg
  | first hg => simp [hi] at hg
  | second hg => simp [hi] at hg

theorem accepts_take {k : Nat} {s : List Char} {cs : CharSet}
    (hi : p[i]? = some (.take cs next)) (h : Accepts p k i s) :
    ∃ c t l, s = c :: t ∧ cs.contains c = true ∧ l < k ∧ Accepts p l next t := by
  cases h with
  | take ht hc h =>
    obtain ⟨rfl, rfl⟩ := Instruction.take.inj (Option.some.inj (ht.symm.trans hi))
    exact ⟨_, _, _, rfl, hc, Nat.lt_succ_self _, h⟩
  | accept ht => simp [hi] at ht
  | goto ht => simp [hi] at ht
  | first ht => simp [hi] at ht
  | second ht => simp [hi] at ht

theorem accepts_fork {k a b : Nat} {s : List Char} (hi : p[i]? = some (.fork a b))
    (h : Accepts p k i s) : ∃ l, l < k ∧ (Accepts p l a s ∨ Accepts p l b s) := by
  cases h with
  | first hf h =>
    obtain ⟨rfl, rfl⟩ := Instruction.fork.inj (Option.some.inj (hf.symm.trans hi))
    exact ⟨_, Nat.lt_succ_self _, .inl h⟩
  | second hf h =>
    obtain ⟨rfl, rfl⟩ := Instruction.fork.inj (Option.some.inj (hf.symm.trans hi))
    exact ⟨_, Nat.lt_succ_self _, .inr h⟩
  | accept hf => simp [hi] at hf
  | take hf => simp [hi] at hf
  | goto hf => simp [hi] at hf

theorem accepts_accept {k : Nat} {s : List Char} (hi : p[i]? = some .accept)
    (h : Accepts p k i s) : s = [] := by
  cases h with
  | accept => rfl
  | take hf => simp [hi] at hf
  | goto hf => simp [hi] at hf
  | first hf => simp [hi] at hf
  | second hf => simp [hi] at hf

theorem accepts_choice {k : Nat} {s : List Char} {isLazy : Bool}
    (hi : p[i]? = some (choice isLazy body exit)) (h : Accepts p k i s) :
    ∃ l, l < k ∧ (Accepts p l body s ∨ Accepts p l exit s) := by
  cases isLazy with
  | true =>
    obtain ⟨l, hl, h⟩ := accepts_fork hi h
    exact ⟨l, hl, h.symm⟩
  | false => exact accepts_fork hi h

/-- Rounds of a loop, each of which ends where it is decided about another one. -/
theorem leadsTo_rounds {round : Nat} {isLazy : Bool} (hbody : LeadsTo p body round P)
    (hround : p[round]? = some (choice isLazy body exit)) :
    LeadsTo p body exit fun t => ∃ v w, t = v ++ w ∧ P v ∧ Iterated P w := by
  intro k
  -- the next round begins after fewer steps
  induction k using Nat.strongRecOn with
  | _ k ih =>
    intro s hs
    obtain ⟨t, u, l, rfl, ht, hl, hu⟩ := hbody k s hs
    obtain ⟨m, hm, hu | hu⟩ := accepts_choice hround hu
    · obtain ⟨_, u', l', rfl, ⟨v, w, rfl, hv, hw⟩, hl', hu'⟩ := ih m (by omega) u hu
      exact ⟨t ++ (v ++ w), u', l', (List.append_assoc ..).symm, ⟨t, v ++ w, rfl, ht, .cons hv hw⟩,
        by omega, hu'⟩
    · exact ⟨t, u, m, rfl, ⟨t, [], (List.append_nil t).symm, ht, .nil⟩, by omega, hu⟩

/-- A loop that may be passed by. -/
theorem leadsTo_loop {round : Nat} {isLazy : Bool} (hi : p[i]? = some (choice isLazy body exit))
    (hbody : LeadsTo p body round P) (hround : p[round]? = some (choice isLazy body exit)) :
    LeadsTo p i exit (Iterated P) := by
  intro k s hs
  obtain ⟨l, hl, hs | hs⟩ := accepts_choice hi hs
  · obtain ⟨_, u, m, rfl, ⟨v, w, rfl, hv, hw⟩, hm, hu⟩ := leadsTo_rounds hbody hround l s hs
    exact ⟨v ++ w, u, m, rfl, .cons hv hw, by omega, hu⟩
  · exact ⟨[], s, l, rfl, .nil, hl, hs⟩

/-! ## Code -/

/-- The code of an expression leads behind it by a match. -/
theorem leadsTo_code (r : Regex) {base next : Nat} (h : Placed p base (code base next r)) :
    LeadsTo p base next r.Matches := by
  induction r generalizing base next with
  | empty =>
    intro k s hs
    obtain ⟨l, hl, hs⟩ := accepts_goto h.head hs
    exact ⟨[], s, l, rfl, .empty, hl, hs⟩
  | set cs =>
    intro k s hs
    obtain ⟨c, t, l, rfl, hc, hl, ht⟩ := accepts_take h.head hs
    exact ⟨[c], t, l, rfl, .set hc, hl, ht⟩
  | group r ih => exact (ih h).mono fun _ => .group
  | seq a b iha ihb =>
    intro k s hs
    obtain ⟨t, u, l, rfl, ht, hl, hu⟩ := iha h.left k s hs
    have hb := h.right
    rw [length_code] at hb
    obtain ⟨v, w, m, rfl, hv, hm, hw⟩ := ihb hb l u hu
    exact ⟨t ++ v, w, m, (List.append_assoc ..).symm, .seq ht hv, by omega, hw⟩
  | or a b iha ihb =>
    intro k s hs
    have hb := h.tail.right
    rw [length_code] at hb
    obtain ⟨l, hl, hs | hs⟩ := accepts_fork h.head hs
    · obtain ⟨t, u, m, rfl, ht, hm, hu⟩ := iha h.tail.left l s hs
      exact ⟨t, u, m, rfl, .left ht, by omega, hu⟩
    · obtain ⟨t, u, m, rfl, ht, hm, hu⟩ := ihb hb l s hs
      exact ⟨t, u, m, rfl, .right ht, by omega, hu⟩
  | repeated q isLazy r ih =>
    cases q with
    | optional =>
      intro k s hs
      obtain ⟨l, hl, hs | hs⟩ := accepts_choice h.head hs
      · obtain ⟨t, u, m, rfl, ht, hm, hu⟩ := ih h.tail l s hs
        exact ⟨t, u, m, rfl, .present ht, by omega, hu⟩
      · exact ⟨[], s, l, rfl, .absent, hl, hs⟩
    | plus =>
      have hround := h.right.head
      rw [length_code] at hround
      exact (leadsTo_rounds (ih h.left) hround).mono fun _ => matches_plus_iff.2
    | star =>
      simp only [code] at h
      split at h
      · exact (leadsTo_loop h.head (ih h.tail) h.head).mono fun _ => matches_star_iff.2
      · have hround := h.tail.right.head
        rw [length_code] at hround
        exact (leadsTo_loop h.head (ih h.tail.left) hround).mono fun _ => matches_star_iff.2

end

/-! ## Preferred runs -/

/-- From the instruction on, a run takes the text. -/
def Goes (p : Array Instruction) (x : Instruction) (s : List Char) : Prop :=
  match x with
  | .accept => s = []
  | .take cs next => ∃ c t k, s = c :: t ∧ cs.contains c = true ∧ Accepts p k next t
  | _ => False

theorem accepts_of_goes {p : Array Instruction} {i : Nat} {x : Instruction} {s : List Char}
    (hi : p[i]? = some x) (h : Goes p x s) : ∃ k, Accepts p k i s := by
  cases x with
  | accept =>
    obtain rfl : s = [] := h
    exact ⟨0, .accept hi⟩
  | take cs next =>
    obtain ⟨c, t, k, rfl, hc, ht⟩ := h
    exact ⟨k + 1, .take hi hc ht⟩
  | fork a b => exact h.elim
  | goto a => exact h.elim

/-- Whatever a closure leads to, one of its places does. -/
theorem accepts_of_mem_closure {p : Array Instruction} {fresh work : List Nat} {x : Instruction}
    {s : List Char} (hx : x ∈ closure p fresh work) (h : Goes p x s) :
    ∃ i ∈ work, ∃ k, Accepts p k i s := by
  fun_induction closure p fresh work with
  | case1 => simp at hx
  | case2 fresh i work hi a b hp ih =>
    obtain ⟨j, hj, k, hk⟩ := ih hx
    rcases List.mem_cons.1 hj with rfl | hj
    · exact ⟨i, List.mem_cons_self, k + 1, .first hp hk⟩
    rcases List.mem_cons.1 hj with rfl | hj
    · exact ⟨i, List.mem_cons_self, k + 1, .second hp hk⟩
    · exact ⟨j, List.mem_cons_of_mem _ hj, k, hk⟩
  | case3 fresh i work hi a hp ih =>
    obtain ⟨j, hj, k, hk⟩ := ih hx
    rcases List.mem_cons.1 hj with rfl | hj
    · exact ⟨i, List.mem_cons_self, k + 1, .goto hp hk⟩
    · exact ⟨j, List.mem_cons_of_mem _ hj, k, hk⟩
  | case4 fresh i work hi y _ _ hy ih =>
    rcases List.mem_cons.1 hx with rfl | hx
    · obtain ⟨k, hk⟩ := accepts_of_goes hy h
      exact ⟨i, List.mem_cons_self, k, hk⟩
    · obtain ⟨j, hj, k, hk⟩ := ih hx
      exact ⟨j, List.mem_cons_of_mem _ hj, k, hk⟩
  | case5 fresh i work hi hp ih =>
    obtain ⟨j, hj, k, hk⟩ := ih hx
    exact ⟨j, List.mem_cons_of_mem _ hj, k, hk⟩
  | case6 fresh i work hi ih =>
    obtain ⟨j, hj, k, hk⟩ := ih hx
    exact ⟨j, List.mem_cons_of_mem _ hj, k, hk⟩

theorem exists_goes_of_preferredFrom {p : Array Instruction} {xs : List Instruction}
    {s : List Char} {n : Nat} (h : preferredFrom p xs s = some n) :
    ∃ x ∈ xs, Goes p x (s.take n) := by
  induction s generalizing xs n with
  | nil =>
    simp only [preferredFrom] at h
    split at h
    · rename_i haccept
      exact ⟨.accept, by simpa [preferredTo] using haccept, by simp [Goes]⟩
    · simp at h
  | cons c s ih =>
    simp only [preferredFrom] at h
    split at h
    · rename_i m hnext
      obtain rfl : m + 1 = n := by simpa using h
      split at hnext
      · simp at hnext
      · obtain ⟨x, hx, hgoes⟩ := ih hnext
        obtain ⟨i, hi, k, hk⟩ := accepts_of_mem_closure hx hgoes
        obtain ⟨y, hy, hstep⟩ := List.mem_filterMap.1 hi
        have hmem : y ∈ xs := (List.takeWhile_sublist _).subset hy
        cases y with
        | take cs next =>
          simp only [Option.ite_none_right_eq_some, Option.some.injEq] at hstep
          obtain ⟨hc, rfl⟩ := hstep
          exact ⟨_, hmem, c, s.take m, k, rfl, hc, hk⟩
        | accept => simp at hstep
        | fork a b => simp at hstep
        | goto a => simp at hstep
    · split at h
      · rename_i haccept
        obtain rfl : 0 = n := by simpa using h
        exact ⟨.accept, by simpa [preferredTo] using haccept, by simp [Goes]⟩
      · simp at h

/-- What the program of an expression takes is a match. -/
theorem matches_of_preferred? {r : Regex} {s : List Char} {n : Nat}
    (h : preferred? r.program s = some n) : r.Matches (s.take n) := by
  obtain ⟨x, hx, hgoes⟩ := exists_goes_of_preferredFrom h
  obtain ⟨i, hi, k, hk⟩ := accepts_of_mem_closure hx hgoes
  obtain rfl := List.mem_singleton.1 hi
  have hplaced : Placed r.program 0 (code 0 r.codeSize r ++ [Instruction.accept]) := by
    intro j x hj
    simpa [program] using hj
  obtain ⟨t, u, l, ht, hmatch, -, hu⟩ := leadsTo_code r hplaced.left k _ hk
  have hend := hplaced.right.head
  rw [length_code, Nat.zero_add] at hend
  obtain rfl := accepts_accept hend hu
  rwa [ht, List.append_nil]

end GrammarLab.Regex
