import Mathlib.Order.WellFoundedSet
import GrammarLab.Proofs.List.Distinct
import GrammarLab.Proofs.Reference.Queue

/-!
# The least dependency order

In a grammar whose parser rules have different names and do not depend on each other in a cycle, the
dependency order lists each rule after those that it names, and of all such lists it is the first
one in the lexicographic order of the places in the source. Where there is a cycle it is the source
order.

    each place of xs is the first free one → each place of ys is free →
      xs = ys or xs comes before ys                                               (InTurn.lex)
    g.dependencyOrder is the least order, or there is a cycle and it is the source order
                                                                    (dependencyOrder_least)
-/

namespace GrammarLab

/-! ## Orders of places -/

section

variable {deps : List (List Nat)} {taken order xs ys : List Nat} {i d : Nat}

/-- Taking the first free place each time gives the least of all orders of free places. -/
theorem InTurn.lex (hxs : InTurn (FirstFree deps) taken xs) (hys : InTurn (Free deps) taken ys)
    (hlength : xs.length = ys.length) : xs = ys ∨ List.Lex (· < ·) xs ys := by
  induction xs generalizing taken ys with
  | nil => exact .inl (List.eq_nil_of_length_eq_zero hlength.symm).symm
  | cons i xs ih =>
    obtain _ | ⟨j, ys⟩ := ys
    · simp at hlength
    obtain ⟨⟨hi, hleast⟩, hxs⟩ := hxs
    obtain ⟨hj, hys⟩ := hys
    rcases Nat.lt_or_eq_of_le (hleast j hj) with hlt | rfl
    · exact .inr (.rel hlt)
    · exact (ih hxs hys (by simpa using hlength)).imp (congrArg _) .cons

theorem InTurn.free (h : InTurn (FirstFree deps) taken order) :
    InTurn (Free deps) taken order := by
  induction order generalizing taken with
  | nil => trivial
  | cons i order ih => exact ⟨h.1.1, ih h.2⟩

theorem InTurn.nodup (h : InTurn (Free deps) [] order) : order.Nodup := by
  induction order using List.reverseRecOn with
  | nil => exact .nil
  | append_singleton order i ih =>
    obtain ⟨horder, hfree⟩ := inTurn_snoc.1 h
    exact List.nodup_append.2 ⟨ih horder, by simp, fun a ha b hb heq =>
      hfree.new (List.mem_singleton.1 hb ▸ heq ▸ ha)⟩

theorem InTurn.lt (h : InTurn (Free deps) [] order) (hi : i ∈ order) : i < deps.length := by
  obtain ⟨p, s, heq⟩ := List.append_of_mem hi
  exact (inTurn_iff.1 h p i s heq).lt

/-- An order of free places that lists as many as there are lists all of them. -/
theorem InTurn.perm (h : InTurn (Free deps) [] order) (hlength : deps.length ≤ order.length) :
    order.Perm (List.range deps.length) :=
  (h.nodup.subperm fun _ hi => List.mem_range.2 (h.lt hi)).perm_of_length_le
    (by simpa using hlength)

/-- Where no place depends on itself, directly or through others, some place is free until all are
taken. -/
theorem mem_of_stuck (hacyclic : ∀ i, ¬Relation.TransGen (fun d i => d ∈ dependenciesAt deps i) i i)
    (hdeps : ∀ i, ∀ d ∈ dependenciesAt deps i, d < deps.length)
    (hstuck : ∀ i, ¬Free deps taken i) (hi : i < deps.length) : i ∈ taken := by
  have : IsStrictOrder Nat (Relation.TransGen fun d i => d ∈ dependenciesAt deps i) :=
    { irrefl := hacyclic, trans := fun _ _ _ => Relation.TransGen.trans }
  have hwf : (Set.Iio deps.length).WellFoundedOn
      (Relation.TransGen fun d i => d ∈ dependenciesAt deps i) :=
    (Set.finite_Iio _).wellFoundedOn
  refine hwf.induction (Set.mem_Iio.2 hi) fun i hi ih => ?_
  by_contra hnew
  exact hstuck i ⟨hi, hnew, fun d hd => ih d (hdeps i d hd) (.single hd)⟩

end

theorem idxOf_lt_idxOf_iff {p s : List String} {a b : String} (hn : (p ++ a :: s).Nodup) :
    (p ++ a :: s).idxOf b < (p ++ a :: s).idxOf a ↔ b ∈ p := by
  have ha : a ∉ p := fun ha => (List.nodup_append.1 hn).2.2 a ha a List.mem_cons_self rfl
  rw [List.idxOf_append_of_notMem ha, List.idxOf_cons_self, Nat.add_zero]
  by_cases hb : b ∈ p
  · rw [List.idxOf_append_of_mem hb]
    simpa [hb] using List.idxOf_lt_length_iff.2 hb
  · rw [List.idxOf_append_of_notMem hb]
    simp [hb]

/-! ## Dependencies of rules -/

namespace Grammar

/-- The names of the parser rules in source order. -/
def parserNames (g : Grammar) : List String := g.parserRules.map (·.name)

/-- The parser rule `a` names the parser rule `b`, another one. -/
def DependsOn (g : Grammar) (a b : String) : Prop :=
  a ≠ b ∧ b ∈ g.parserNames ∧ ∃ r ∈ g.parserRules, r.name = a ∧ b ∈ r.referencedRules

/-- The parser rules, each after those that it depends on. -/
structure IsDependencyOrder (g : Grammar) (order : List String) : Prop where
  perm : order.Perm g.parserNames
  after : ∀ a b, g.DependsOn a b → order.idxOf b < order.idxOf a

/-- The places of names in the source. -/
def places (g : Grammar) (names : List String) : List Nat := names.map g.parserNames.idxOf

/-- The name at a place in the source. -/
def nameAt (g : Grammar) (i : Nat) : String := g.parserNames.getD i ""

variable {g : Grammar} {a b : String} {order : List Nat} {names : List String} {i d : Nat}

theorem length_dependencies : (dependencies g.parserRules).length = g.parserNames.length := by
  simp [dependencies, parserNames]

theorem nameAt_idxOf (ha : a ∈ g.parserNames) : g.nameAt (g.parserNames.idxOf a) = a := by
  have hlt := List.idxOf_lt_length_iff.2 ha
  simp [nameAt, List.getElem?_eq_getElem hlt]

theorem map_nameAt_places (h : names ⊆ g.parserNames) : (g.places names).map g.nameAt = names := by
  rw [places, List.map_map]
  exact (List.map_congr_left fun a ha => nameAt_idxOf (h ha)).trans (List.map_id' _)

theorem map_nameAt_range (g : Grammar) :
    (List.range g.parserNames.length).map g.nameAt = g.parserNames := by
  refine List.ext_getElem (by simp) fun i hi _ => ?_
  have hlt : i < g.parserNames.length := by simpa using hi
  simp [nameAt, hlt]

theorem lt_of_mem_dependenciesAt (hd : d ∈ dependenciesAt (dependencies g.parserRules) i) :
    i < g.parserNames.length := by
  by_contra hi
  simp [dependenciesAt, List.getElem?_eq_none (length_dependencies (g := g) ▸ Nat.le_of_not_lt hi)]
    at hd

section

variable (hn : g.parserNames.Nodup)

include hn

theorem idxOf_nameAt (hi : i < g.parserNames.length) : g.parserNames.idxOf (g.nameAt i) = i := by
  rw [nameAt, List.getD_eq_getElem?_getD, List.getElem?_eq_getElem hi, Option.getD_some]
  exact hn.idxOf_getElem i hi

theorem nameAt_inj {j : Nat} (hi : i < g.parserNames.length) (hj : j < g.parserNames.length) :
    g.nameAt i = g.nameAt j ↔ i = j :=
  ⟨fun h => by rw [← idxOf_nameAt hn hi, h, idxOf_nameAt hn hj], congrArg _⟩

theorem findIdx?_parserRules :
    g.parserRules.findIdx? (·.name = b) = some d ↔ d < g.parserNames.length ∧ g.nameAt d = b := by
  have hname : ∀ (j : Nat) (hj : j < g.parserRules.length), g.nameAt j = g.parserRules[j].name :=
    fun j hj => by simp [nameAt, parserNames, hj]
  have hlength : g.parserNames.length = g.parserRules.length := by simp [parserNames]
  rw [List.findIdx?_eq_some_iff_getElem]
  constructor
  · rintro ⟨hd, hb, -⟩
    exact ⟨hlength ▸ hd, by rw [hname d hd]; simpa using hb⟩
  · rintro ⟨hd, rfl⟩
    refine ⟨hlength ▸ hd, by simp [hname d (hlength ▸ hd)], fun j hj => ?_⟩
    have hne : g.nameAt j ≠ g.nameAt d := fun heq =>
      absurd ((nameAt_inj hn (by omega) hd).1 heq) (Nat.ne_of_lt hj)
    simpa [hname j (by omega)] using hne

/-- The dependencies of a place are the places of the names that its rule depends on. -/
theorem mem_dependenciesAt (hi : i < g.parserNames.length) :
    d ∈ dependenciesAt (dependencies g.parserRules) i ↔
      d < g.parserNames.length ∧ g.DependsOn (g.nameAt i) (g.nameAt d) := by
  have hlength : g.parserNames.length = g.parserRules.length := by simp [parserNames]
  have hrule : i < g.parserRules.length := hlength ▸ hi
  have hname : g.nameAt i = g.parserRules[i].name := by simp [nameAt, parserNames, hrule]
  have hat : dependenciesAt (dependencies g.parserRules) i =
      (g.parserRules[i].referencedRules.filterMap fun name =>
        g.parserRules.findIdx? (·.name = name)).filter (· ≠ i) := by
    simp [dependenciesAt, dependencies, hrule]
  simp only [hat, List.mem_filter, List.mem_filterMap, findIdx?_parserRules hn, decide_eq_true_eq]
  constructor
  · rintro ⟨⟨_, href, hd, rfl⟩, hne⟩
    refine ⟨hd, fun heq => hne ((nameAt_inj hn hi hd).1 heq).symm, ?_, _,
      List.getElem_mem hrule, hname.symm, href⟩
    simp [nameAt, hd]
  · rintro ⟨hd, hne, -, r, hr, heq, href⟩
    obtain rfl : r = g.parserRules[i] :=
      List.inj_on_of_nodup_map hn hr (List.getElem_mem hrule) (heq.trans hname)
    exact ⟨⟨_, href, hd, rfl⟩, fun heq => hne (heq ▸ rfl)⟩

/-! ## Orders of names -/

/-- In a dependency order each name stands where its place is free. -/
theorem IsDependencyOrder.inTurn (h : g.IsDependencyOrder names) :
    InTurn (Free (dependencies g.parserRules)) [] (g.places names) := by
  refine inTurn_iff.2 fun p i s heq => ?_
  obtain ⟨before, behind, rfl, rfl, hbehind⟩ := List.map_eq_append_iff.1 heq
  obtain ⟨a, rest, rfl, rfl, rfl⟩ := List.map_eq_cons_iff.1 hbehind
  have hnames : ∀ b ∈ before ++ a :: rest, b ∈ g.parserNames := fun b hb => h.perm.mem_iff.1 hb
  have hnodup : (before ++ a :: rest).Nodup := h.perm.nodup_iff.2 hn
  have ha : a ∈ g.parserNames := hnames a (by simp)
  have hlt := List.idxOf_lt_length_iff.2 ha
  refine ⟨length_dependencies ▸ hlt, fun hmem => ?_, fun d hd => ?_⟩
  · obtain ⟨b, hb, hplace⟩ := List.mem_map.1 hmem
    have hsame : b = a := by
      rw [← nameAt_idxOf (hnames b (List.mem_append_left _ hb)), hplace, nameAt_idxOf ha]
    exact (List.nodup_append.1 hnodup).2.2 b hb a List.mem_cons_self hsame
  · obtain ⟨hdlt, hdepends⟩ := (mem_dependenciesAt hn hlt).1 hd
    rw [nameAt_idxOf ha] at hdepends
    have hbefore := (idxOf_lt_idxOf_iff hnodup).1 (h.after a _ hdepends)
    exact List.mem_map.2 ⟨_, hbefore, idxOf_nameAt hn hdlt⟩

/-- Where all places are taken when they are free, their names are a dependency order. -/
theorem isDependencyOrder_of_inTurn (h : InTurn (Free (dependencies g.parserRules)) [] order)
    (hlength : g.parserNames.length ≤ order.length) : g.IsDependencyOrder (order.map g.nameAt) := by
  have hperm : order.Perm (List.range g.parserNames.length) :=
    length_dependencies (g := g) ▸ h.perm (length_dependencies ▸ hlength)
  have hnames : (order.map g.nameAt).Perm g.parserNames := map_nameAt_range g ▸ hperm.map _
  refine ⟨hnames, fun a b hdepends => ?_⟩
  obtain ⟨-, hb, r, hr, rfl, -⟩ := id hdepends
  have ha : r.name ∈ g.parserNames := List.mem_map_of_mem hr
  have hlt := List.idxOf_lt_length_iff.2 ha
  have hmem : g.parserNames.idxOf r.name ∈ order := hperm.mem_iff.2 (List.mem_range.2 hlt)
  obtain ⟨p, s, rfl⟩ := List.append_of_mem hmem
  have hdone := (inTurn_iff.1 h p _ s rfl).done (g.parserNames.idxOf b)
    ((mem_dependenciesAt hn hlt).2 ⟨List.idxOf_lt_length_iff.2 hb, by
      rwa [nameAt_idxOf ha, nameAt_idxOf hb]⟩)
  have hnodup := hnames.nodup_iff.2 hn
  rw [List.map_append, List.map_cons, nameAt_idxOf ha] at hnodup ⊢
  exact (idxOf_lt_idxOf_iff hnodup).2 (List.mem_map.2 ⟨_, hdone, nameAt_idxOf hb⟩)

/-- Parser rules that do not depend on themselves are all taken. -/
theorem length_le_of_acyclic (hacyclic : ∀ a, ¬Relation.TransGen g.DependsOn a a)
    (hstuck : ∀ i, ¬Free (dependencies g.parserRules) order i) :
    g.parserNames.length ≤ order.length := by
  have hdeps : ∀ i, ∀ d ∈ dependenciesAt (dependencies g.parserRules) i,
      d < g.parserNames.length ∧ g.DependsOn (g.nameAt i) (g.nameAt d) := fun i d hd =>
    (mem_dependenciesAt hn (lt_of_mem_dependenciesAt hd)).1 hd
  have hplaces : ∀ i, ¬Relation.TransGen
      (fun d i => d ∈ dependenciesAt (dependencies g.parserRules) i) i i := fun i hcycle =>
    hacyclic (g.nameAt i) (Relation.transGen_swap.1
      (hcycle.lift g.nameAt fun d i hd => (hdeps i d hd).2))
  have hall : List.range g.parserNames.length ⊆ order := fun i hi =>
    mem_of_stuck hplaces (fun i d hd => length_dependencies ▸ (hdeps i d hd).1) hstuck
      (length_dependencies ▸ List.mem_range.1 hi)
  simpa using (List.nodup_range.subperm hall).length_le

end

/-- No rule depends on itself, directly or through others, where an order exists. -/
theorem IsDependencyOrder.acyclic (h : g.IsDependencyOrder names) (a : String) :
    ¬Relation.TransGen g.DependsOn a a := by
  have hless : ∀ a b, Relation.TransGen g.DependsOn a b → names.idxOf b < names.idxOf a := by
    intro a b hway
    induction hway with
    | single hab => exact h.after _ _ hab
    | tail _ hbc ih => exact Nat.lt_trans (h.after _ _ hbc) ih
  exact fun hcycle => Nat.lt_irrefl _ (hless a a hcycle)

/-- The order is the source order, or the names of the places taken if these are all. -/
theorem dependencyOrder_cases (g : Grammar) :
    ∃ order, InTurn (FirstFree (dependencies g.parserRules)) [] order ∧
      (∀ i, ¬Free (dependencies g.parserRules) order i) ∧
      g.dependencyOrder =
        if order.length < g.parserNames.length then g.parserNames else order.map g.nameAt := by
  obtain ⟨hinTurn, hstuck⟩ := Queue.firstFree_run (dependencies g.parserRules)
  refine ⟨_, hinTurn, hstuck, ?_⟩
  have hlength : g.parserRules.length = g.parserNames.length := by simp [parserNames]
  rw [dependencyOrder, hlength]
  congr 1
  rw [← List.filterMap_eq_map]
  refine List.filterMap_congr fun i hi => ?_
  have hlt : i < g.parserNames.length := length_dependencies ▸ hinTurn.free.lt hi
  rw [← List.getElem?_map]
  simp [nameAt, parserNames, List.getElem?_eq_getElem (hlength ▸ hlt)]

end Grammar

open Grammar

/-- Of parser rules with different names the dependency order lists each one. Where none depends on
itself, directly or through others, each comes after those that it depends on, and any other such
order comes behind in the lexicographic order of the places in the source. Where one does, it is the
source order. -/
theorem dependencyOrder_least {g : Grammar} (hn : g.parserNames.Nodup) :
    g.dependencyOrder.Perm g.parserNames ∧
    ((∀ a, ¬Relation.TransGen g.DependsOn a a) →
      g.IsDependencyOrder g.dependencyOrder ∧
      ∀ other, g.IsDependencyOrder other →
        other = g.dependencyOrder ∨ List.Lex (· < ·) (g.places g.dependencyOrder) (g.places other)) ∧
    ((∃ a, Relation.TransGen g.DependsOn a a) → g.dependencyOrder = g.parserNames) := by
  obtain ⟨order, hinTurn, hstuck, heq⟩ := dependencyOrder_cases g
  by_cases hlength : order.length < g.parserNames.length
  · rw [if_pos hlength] at heq
    rw [heq]
    refine ⟨.rfl, fun hacyclic => ?_, fun _ => rfl⟩
    exact absurd (length_le_of_acyclic hn hacyclic hstuck) (Nat.not_le_of_lt hlength)
  · rw [if_neg hlength] at heq
    have horder := isDependencyOrder_of_inTurn hn hinTurn.free (Nat.le_of_not_lt hlength)
    have hplaces : g.places (order.map g.nameAt) = order := by
      rw [places, List.map_map]
      exact (List.map_congr_left fun i hi =>
        idxOf_nameAt hn (length_dependencies ▸ hinTurn.free.lt hi)).trans (List.map_id' _)
    rw [heq]
    refine ⟨horder.perm, fun _ => ⟨horder, fun other hother => ?_⟩,
      fun ⟨a, hcycle⟩ => absurd hcycle (horder.acyclic a)⟩
    have hsame : order.length = (g.places other).length := by
      rw [places, List.length_map, hother.perm.length_eq, ← horder.perm.length_eq, List.length_map]
    rw [hplaces]
    refine (hinTurn.lex (hother.inTurn hn) hsame).imp_left fun hall => ?_
    rw [hall, map_nameAt_places hother.perm.subset]

/-- Two rules that name a third one behind them, and a fourth that names a token. -/
def tieGrammar : Grammar where
  rules := [("a", "c"), ("b", "c"), ("c", "ID"), ("d", "ID")].map fun (name, body) =>
    { name, isFragment := false, definition := body.toList, lineNumber := 1, bodyLine := 1
      endLine := 1, referencedRules := [body], mode := none }

theorem dependencyOrder_tieGrammar :
    tieGrammar.parserNames.Nodup ∧ (∀ a, ¬Relation.TransGen tieGrammar.DependsOn a a) ∧
      tieGrammar.dependencyOrder = ["c", "a", "b", "d"] ∧
      ∀ other, tieGrammar.IsDependencyOrder other →
        other = ["c", "a", "b", "d"] ∨ List.Lex (· < ·) [2, 0, 1, 3] (tieGrammar.places other) := by
  have hn : tieGrammar.parserNames.Nodup := by decide +kernel
  have horder : tieGrammar.dependencyOrder = ["c", "a", "b", "d"] := by decide +kernel
  have hplaces : tieGrammar.places ["c", "a", "b", "d"] = [2, 0, 1, 3] := by decide +kernel
  have hafter : ∀ r ∈ tieGrammar.parserRules, ∀ b ∈ r.referencedRules, b ∈ tieGrammar.parserNames →
      ["c", "a", "b", "d"].idxOf b < ["c", "a", "b", "d"].idxOf r.name := by decide +kernel
  have hdependency : tieGrammar.IsDependencyOrder ["c", "a", "b", "d"] :=
    ⟨by decide +kernel, fun a b ⟨_, hb, r, hr, hname, href⟩ => hname ▸ hafter r hr b href hb⟩
  have hleast := ((dependencyOrder_least hn).2.1 hdependency.acyclic).2
  rw [horder, hplaces] at hleast
  exact ⟨hn, hdependency.acyclic, horder, hleast⟩

end GrammarLab
