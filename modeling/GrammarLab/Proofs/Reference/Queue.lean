import Mathlib.Data.List.Induction
import GrammarLab.Reference.Order

/-!
# Places taken one by one

A place is free when it is not taken and its dependencies are. The numbers that a queue keeps say
of each place how many of its dependencies have not been taken, less those that are being released.
So the places that are ready are just the free ones, and each place that is taken is the first of
them.

    u ∈ q.ready ↔ Free deps q.taken u                                 (Queue.Inv.mem_ready_iff)
    order = taken places of a run → each is the first free one, and none is free behind the last
                                                                       (Queue.firstFree_run)
-/

namespace GrammarLab

/-! ## Free places -/

/-- The place can come next: it is not taken, and its dependencies are. -/
structure Free (deps : List (List Nat)) (taken : List Nat) (i : Nat) : Prop where
  lt : i < deps.length
  new : i ∉ taken
  done : ∀ d ∈ dependenciesAt deps i, d ∈ taken

/-- The first place that can come next. -/
def FirstFree (deps : List (List Nat)) (taken : List Nat) (i : Nat) : Prop :=
  Free deps taken i ∧ ∀ j, Free deps taken j → i ≤ j

/-- With the places `taken` in front, each place of the list is one that may be next. -/
def InTurn (next : List Nat → Nat → Prop) (taken : List Nat) : List Nat → Prop
  | [] => True
  | i :: rest => next taken i ∧ InTurn next (taken ++ [i]) rest

section

variable {next : List Nat → Nat → Prop} {taken order p s : List Nat} {i : Nat}

theorem inTurn_append :
    InTurn next taken (p ++ s) ↔ InTurn next taken p ∧ InTurn next (taken ++ p) s := by
  induction p generalizing taken with
  | nil => simp [InTurn]
  | cons i p ih => simp [InTurn, ih, and_assoc]

theorem inTurn_snoc : InTurn next [] (order ++ [i]) ↔ InTurn next [] order ∧ next order i := by
  simp [inTurn_append, InTurn]

theorem inTurn_iff :
    InTurn next [] order ↔ ∀ p i s, order = p ++ i :: s → next p i := by
  constructor
  · rintro h p i s rfl
    obtain ⟨-, hnext⟩ := inTurn_append.1 h
    simpa using hnext.1
  · intro h
    induction order using List.reverseRecOn with
    | nil => trivial
    | append_singleton order i ih =>
      refine inTurn_snoc.2 ⟨ih fun p j s heq => ?_, h order i [] rfl⟩
      exact h p j (s ++ [i]) (by simp [heq])

end

/-! ## Ascending places -/

section

variable {i j : Nat} {places : List Nat}

theorem mem_insertPlace : j ∈ insertPlace i places ↔ j = i ∨ j ∈ places := by
  induction places with
  | nil => simp [insertPlace]
  | cons k rest ih =>
    unfold insertPlace
    split
    · simp
    split
    · rename_i heq
      simp [heq]
    · simp only [List.mem_cons, ih]
      tauto

theorem pairwise_insertPlace (h : places.Pairwise (· < ·)) :
    (insertPlace i places).Pairwise (· < ·) := by
  induction h with
  | nil => simp [insertPlace]
  | @cons k rest hk hrest ih =>
    unfold insertPlace
    split
    · rename_i hik
      refine .cons (fun j hj => ?_) (.cons hk hrest)
      rcases List.mem_cons.1 hj with rfl | hj
      · exact hik
      · exact Nat.lt_trans hik (hk j hj)
    split
    · exact .cons hk hrest
    · rename_i hik hne
      refine .cons (fun j hj => ?_) ih
      rcases mem_insertPlace.1 hj with rfl | hj
      · omega
      · exact hk j hj

end

/-! ## What is waited for -/

section

variable {deps : List (List Nat)} {taken users : List Nat} {i u : Nat}

theorem count_dependents (hu : u < deps.length) :
    (dependents deps i).count u = (dependenciesAt deps u).count i := by
  have hcount : ∀ n, ((List.range n).flatMap fun user =>
      List.replicate ((dependenciesAt deps user).count i) user).count u =
        if u < n then (dependenciesAt deps u).count i else 0 := by
    intro n
    induction n with
    | zero => simp
    | succ n ih =>
      rw [List.range_succ, List.flatMap_append, List.count_append, ih, List.flatMap_singleton]
      by_cases hn : u = n
      · subst hn
        simp
      · have hlt : u < n + 1 ↔ u < n := by omega
        simp only [hlt, List.count_replicate, beq_iff_eq, Ne.symm hn, if_false, Nat.add_zero]
  rw [dependents, hcount, if_pos hu]

theorem lt_of_mem_dependents (h : u ∈ dependents deps i) : u < deps.length := by
  simp only [dependents, List.mem_flatMap, List.mem_range, List.mem_replicate] at h
  obtain ⟨user, huser, -, rfl⟩ := h
  exact huser

/-- How many dependencies of a place have not been taken. -/
def missing (deps : List (List Nat)) (taken : List Nat) (u : Nat) : Nat :=
  (dependenciesAt deps u).countP (· ∉ taken)

theorem missing_eq_zero_iff :
    missing deps taken u = 0 ↔ ∀ d ∈ dependenciesAt deps u, d ∈ taken := by
  simp [missing, List.countP_eq_zero]

theorem missing_snoc (hi : i ∉ taken) :
    missing deps (taken ++ [i]) u + (dependenciesAt deps u).count i = missing deps taken u := by
  unfold missing
  induction dependenciesAt deps u with
  | nil => rfl
  | cons d ds ih =>
    by_cases hd : d = i
    · subst hd
      rw [List.countP_cons_of_neg (by simp), List.countP_cons_of_pos (by simpa using hi),
        List.count_cons_self, ← ih, Nat.add_assoc]
    · rw [List.count_cons_of_ne hd]
      by_cases ht : d ∈ taken
      · rw [List.countP_cons_of_neg (by simp [ht]), List.countP_cons_of_neg (by simp [ht]), ih]
      · rw [List.countP_cons_of_pos (by simp [ht, hd]), List.countP_cons_of_pos (by simp [ht]), ← ih]
        omega

/-- What a queue keeps while it releases the places `users`. -/
structure Queue.Inv (deps : List (List Nat)) (users : List Nat) (q : Queue) : Prop where
  length_waits : q.waits.length = deps.length
  waits : ∀ u < deps.length, q.waits[u]? = some (missing deps q.taken u + users.count u)
  mem_ready : ∀ u, u ∈ q.ready ↔ u ∉ q.taken ∧ q.waits[u]? = some 0
  ascending : q.ready.Pairwise (· < ·)
  taken : ∀ u ∈ q.taken, q.waits[u]? = some 0
  order : InTurn (FirstFree deps) [] q.taken

namespace Queue

variable {q : Queue} {n : Nat} {rest : List Nat}

theorem release_of_waits (h : q.waits[u]? = some (n + 1)) : q.release u =
    { q with
      waits := q.waits.set u n
      ready := if n = 0 then insertPlace u q.ready else q.ready } := by
  cases n <;> simp [release, h]

theorem Inv.release (h : q.Inv deps (u :: users)) (hu : u < deps.length) :
    (q.release u).Inv deps users := by
  have hwaits : q.waits[u]? = some (missing deps q.taken u + users.count u + 1) := by
    rw [h.waits u hu, List.count_cons_self, Nat.add_assoc]
  have hnew : u ∉ q.taken := fun hmem => by simp [h.taken u hmem] at hwaits
  have hlt : u < q.waits.length := h.length_waits ▸ hu
  rw [release_of_waits hwaits]
  refine ⟨by simpa using h.length_waits, fun v hv => ?_, fun v => ?_, ?_, fun v hv => ?_, h.order⟩
  · by_cases hvu : u = v
    · subst hvu
      simp [hlt]
    · simp only [List.getElem?_set_ne hvu, h.waits v hv, List.count_cons_of_ne hvu]
  · by_cases hvu : u = v
    · subst hvu
      have hold : u ∉ q.ready := fun hmem => by simp [((h.mem_ready u).1 hmem).2] at hwaits
      by_cases hzero : missing deps q.taken u + users.count u = 0
      · simp [hzero, mem_insertPlace, hnew, hlt]
      · simp only [List.getElem?_set_self hlt, Option.some.injEq, hzero, and_false]
        simpa using hold
    · have hsame : v ∈ (if missing deps q.taken u + users.count u = 0 then insertPlace u q.ready
          else q.ready) ↔ v ∈ q.ready := by
        split
        · simp [mem_insertPlace, Ne.symm hvu]
        · rfl
      rw [hsame, h.mem_ready v, List.getElem?_set_ne hvu]
  · show (if _ then _ else _ : List Nat).Pairwise _
    split
    · exact pairwise_insertPlace h.ascending
    · exact h.ascending
  · have hvu : u ≠ v := fun heq => hnew (heq ▸ hv)
    rw [List.getElem?_set_ne hvu]
    exact h.taken v hv

theorem Inv.foldl_release (h : q.Inv deps users) (husers : ∀ u ∈ users, u < deps.length) :
    (users.foldl Queue.release q).Inv deps [] := by
  induction users generalizing q with
  | nil => exact h
  | cons u users ih =>
    rw [List.forall_mem_cons] at husers
    exact ih (h.release husers.1) husers.2

theorem inv_start (deps : List (List Nat)) : (start deps).Inv deps [] where
  length_waits := by simp [start]
  waits := fun u hu => by simp [start, missing, dependenciesAt, hu]
  mem_ready := fun u => by
    simp only [start, List.mem_filter, List.mem_range, List.isEmpty_iff, List.not_mem_nil,
      not_false_eq_true, true_and, List.getElem?_map, Option.map_eq_some_iff,
      List.length_eq_zero_iff, exists_eq_right]
    constructor
    · rintro ⟨hu, hnil⟩
      simpa [dependenciesAt, hu] using hnil
    · intro h
      obtain ⟨hu, -⟩ := List.getElem?_eq_some_iff.1 h
      exact ⟨hu, by simp [dependenciesAt, h]⟩
  ascending := List.pairwise_lt_range.filter _
  taken := by simp [start]
  order := trivial

/-- With nothing left to release, the places that are ready are the free ones. -/
theorem Inv.mem_ready_iff (h : q.Inv deps []) : u ∈ q.ready ↔ Free deps q.taken u := by
  rw [h.mem_ready]
  constructor
  · rintro ⟨hnew, hzero⟩
    have hu : u < deps.length := by
      rw [← h.length_waits]
      exact (List.getElem?_eq_some_iff.1 hzero).1
    have hmissing : missing deps q.taken u = 0 := by simpa [h.waits u hu] using hzero
    exact ⟨hu, hnew, missing_eq_zero_iff.1 hmissing⟩
  · rintro ⟨hu, hnew, hdone⟩
    refine ⟨hnew, ?_⟩
    rw [h.waits u hu, missing_eq_zero_iff.2 hdone]
    rfl

/-- The first of the places that are ready is taken. -/
theorem Inv.firstFree (h : q.Inv deps []) (hready : q.ready = i :: rest) :
    FirstFree deps q.taken i := by
  refine ⟨h.mem_ready_iff.1 (hready ▸ List.mem_cons_self), fun j hj => ?_⟩
  have hmem := h.mem_ready_iff.2 hj
  have hascending := h.ascending
  rw [hready] at hmem hascending
  rcases List.mem_cons.1 hmem with rfl | hmem
  · exact Nat.le_refl _
  · exact Nat.le_of_lt ((List.pairwise_cons.1 hascending).1 j hmem)

theorem Inv.round (h : q.Inv deps []) : (q.round deps).Inv deps [] := by
  cases hready : q.ready with
  | nil => rwa [Queue.round, hready]
  | cons i rest =>
    have hfirst := h.firstFree hready
    obtain ⟨hlt, hnew, hdone⟩ := hfirst.1
    rw [Queue.round, hready]
    refine Inv.foldl_release ?_ fun u hu => lt_of_mem_dependents hu
    have hascending := hready ▸ h.ascending
    have hself : (dependenciesAt deps i).count i = 0 :=
      List.count_eq_zero.2 fun hmem => hnew (hdone i hmem)
    refine ⟨h.length_waits, fun u hu => ?_, fun u => ?_, (List.pairwise_cons.1 hascending).2,
      fun u hu => ?_, inTurn_snoc.2 ⟨h.order, hfirst⟩⟩
    · rw [h.waits u hu, count_dependents hu, missing_snoc hnew, List.count_nil, Nat.add_zero]
    · have hrest : u ∈ rest ↔ u ∈ q.ready ∧ u ≠ i := by
        rw [hready, List.mem_cons]
        have hless := (List.pairwise_cons.1 hascending).1
        exact ⟨fun hu => ⟨.inr hu, Nat.ne_of_gt (hless u hu)⟩, fun hu => hu.1.resolve_left hu.2⟩
      rw [hrest, h.mem_ready]
      simp only [List.mem_append, List.mem_singleton, not_or]
      tauto
    · rcases List.mem_append.1 hu with hu | hu
      · exact h.taken u hu
      · obtain rfl := List.mem_singleton.1 hu
        exact ((h.mem_ready u).1 (hready ▸ List.mem_cons_self)).2

theorem Inv.run (h : q.Inv deps []) : (q.run deps).Inv deps [] := by
  fun_induction Queue.run deps q with
  | case1 => exact h
  | case2 q _ ih => exact ih h.round

theorem ready_run (deps : List (List Nat)) (q : Queue) : (q.run deps).ready = [] := by
  fun_induction Queue.run deps q with
  | case1 q h => exact h
  | case2 q _ ih => exact ih

/-- A run takes the first free place each time, as long as one is free. -/
theorem firstFree_run (deps : List (List Nat)) :
    InTurn (FirstFree deps) [] ((start deps).run deps).taken ∧
      ∀ i, ¬Free deps ((start deps).run deps).taken i := by
  have hinv := (inv_start deps).run
  refine ⟨hinv.order, fun i hfree => ?_⟩
  have hmem := hinv.mem_ready_iff.2 hfree
  rw [ready_run] at hmem
  exact List.not_mem_nil hmem

end Queue

end

end GrammarLab
