import GrammarLab.Grammar

/-!
# Dependency order

Parser rules listed so that each comes after the rules that it names, itself not counted. Of the
rules that can come next, the first in the source does. Where there is a cycle the source order
stays.

Rules are known by their places in the source. A rule waits for as many places as it names, and is
released once for each of them that is taken; when it waits for no more it is ready.

    q.ready ≠ [] → (q.round deps).weight < q.weight                            (weight_round_lt)
-/

namespace GrammarLab

/-- For each rule of the list, the places of the rules that it names, its own place excepted. -/
def dependencies (rules : List Rule) : List (List Nat) :=
  rules.mapIdx fun i r =>
    (r.referencedRules.filterMap fun name => rules.findIdx? (·.name = name)).filter (· ≠ i)

/-- The dependencies of a place. -/
def dependenciesAt (deps : List (List Nat)) (i : Nat) : List Nat := deps[i]?.getD []

/-- The places that depend on a place, each as often as it does. -/
def dependents (deps : List (List Nat)) (i : Nat) : List Nat :=
  (List.range deps.length).flatMap fun user =>
    List.replicate ((dependenciesAt deps user).count i) user

/-- Adds a place to others in ascending order. -/
def insertPlace (i : Nat) : List Nat → List Nat
  | [] => [i]
  | j :: rest =>
    if i < j then i :: j :: rest else if i = j then j :: rest else j :: insertPlace i rest

/-- Places on the way into an order. -/
structure Queue where
  /-- Of each place, how many dependencies have not been taken. -/
  waits : List Nat
  /-- Places that wait for no other and have not been taken, in ascending order. -/
  ready : List Nat
  /-- The places taken. -/
  taken : List Nat := []
deriving DecidableEq, Repr

namespace Queue

/-- Nothing is taken yet. -/
def start (deps : List (List Nat)) : Queue :=
  { waits := deps.map (·.length)
    ready := (List.range deps.length).filter fun i => (dependenciesAt deps i).isEmpty }

/-- A place waits for one other less. -/
def release (q : Queue) (user : Nat) : Queue :=
  match q.waits[user]? with
  | none | some 0 => q
  | some 1 => { q with waits := q.waits.set user 0, ready := insertPlace user q.ready }
  | some (n + 2) => { q with waits := q.waits.set user (n + 1) }

/-! ## Termination -/

/-- What is waited for and the places that are ready. -/
def weight (q : Queue) : Nat := q.waits.foldr (· + ·) 0 + q.ready.length

theorem length_insertPlace_le (i : Nat) (places : List Nat) :
    (insertPlace i places).length ≤ places.length + 1 := by
  induction places with
  | nil => simp [insertPlace]
  | cons j rest ih =>
    unfold insertPlace
    split
    · simp
    split
    · simp
    · simpa using ih

theorem foldr_set {waits : List Nat} {i n : Nat} (h : waits[i]? = some (n + 1)) :
    (waits.set i n).foldr (· + ·) 0 + 1 = waits.foldr (· + ·) 0 := by
  induction waits generalizing i with
  | nil => simp at h
  | cons m waits ih =>
    cases i with
    | zero =>
      obtain rfl : m = n + 1 := by simpa using h
      simp only [List.set_cons_zero, List.foldr_cons]
      omega
    | succ i =>
      have hrest := ih (i := i) (by simpa using h)
      simp only [List.set_cons_succ, List.foldr_cons]
      omega

theorem weight_release_le (q : Queue) (user : Nat) : (q.release user).weight ≤ q.weight := by
  unfold release
  split
  · exact Nat.le_refl _
  · exact Nat.le_refl _
  · rename_i hwaits
    have hsum := foldr_set hwaits
    have hready := length_insertPlace_le user q.ready
    simp only [weight]
    omega
  · rename_i hwaits
    have hsum := foldr_set hwaits
    simp only [weight]
    omega

theorem weight_foldl_release_le (users : List Nat) (q : Queue) :
    (users.foldl release q).weight ≤ q.weight := by
  induction users generalizing q with
  | nil => exact Nat.le_refl _
  | cons user users ih => exact Nat.le_trans (ih _) (weight_release_le q user)

/-- Takes the first of the places that are ready and releases those that depend on it. -/
def round (deps : List (List Nat)) (q : Queue) : Queue :=
  match q.ready with
  | [] => q
  | i :: rest =>
    (dependents deps i).foldl release { q with ready := rest, taken := q.taken ++ [i] }

theorem weight_round_lt {deps : List (List Nat)} {q : Queue} (h : q.ready ≠ []) :
    (q.round deps).weight < q.weight := by
  unfold round
  split
  · rename_i hready
    exact absurd hready h
  · rename_i i rest hready
    refine Nat.lt_of_le_of_lt (weight_foldl_release_le _ _) ?_
    simp only [weight, hready, List.length_cons]
    exact Nat.lt_succ_self _

/-- Takes places until none is ready. -/
def run (deps : List (List Nat)) (q : Queue) : Queue :=
  if q.ready = [] then q else run deps (q.round deps)
termination_by q.weight
decreasing_by exact weight_round_lt ‹_›

end Queue

/-- The names of the parser rules in dependency order. -/
def Grammar.dependencyOrder (g : Grammar) : List String :=
  let rules := g.parserRules
  let deps := dependencies rules
  let order := ((Queue.start deps).run deps).taken
  if order.length < rules.length then rules.map (·.name)
  else order.filterMap fun i => (rules[i]?).map (·.name)

end GrammarLab
