import Mathlib.Data.List.Chain
import Mathlib.Data.List.Forall2
import Mathlib.Logic.Relation
import GrammarLab.Cycle
import GrammarLab.Proofs.List.Distinct

/-!
# Walks

Every cycle that a depth-first walk closes consists of edges, and since each step of the walk goes
to a node that is not on its path, the cycle goes through no node twice. Of the cycles through the
same nodes one is kept.

    c ∈ cycles edges nodes → IsSimpleCycle edges c                (isSimpleCycle_of_mem_cycles)
    c ∈ cs → ∃ c' ∈ distinct cs, c' goes through nodes of c only             (exists_mem_distinct)
    no two of distinct cs go through the same nodes                           (pairwise_distinct)
-/

namespace GrammarLab

variable {α : Type}

/-! ## Paths and cycles -/

/-- Each step of the path, the latest one first, leads to the next node, the latest to `node`. -/
def LeadsTo (edges : String → List (String × α)) : List (Step α) → String → Prop
  | [], _ => True
  | s :: path, node => (node, s.label) ∈ edges s.source ∧ LeadsTo edges path s.source

/-- Each step leads to the source of the next one, and the last one to that of the first. -/
def IsCycle (edges : String → List (String × α)) (c : Cycle α) : Prop :=
  ∃ s rest, c = s :: rest ∧ LeadsTo edges c.reverse s.source

/-- A cycle that goes through no node twice. -/
structure IsSimpleCycle (edges : String → List (String × α)) (c : Cycle α) : Prop where
  isCycle : IsCycle edges c
  nodup : c.members.Nodup

/-- A path that a walk from `start` is on at `node`: it goes through no node twice. -/
structure IsPath (edges : String → List (String × α)) (start : String) (path : List (Step α))
    (node : String) : Prop where
  leadsTo : LeadsTo edges path node
  nodup : (node :: path.map (·.source)).Nodup
  starts : (node :: path.map (·.source)).getLast? = some start

/-- Some edge leads from the one node to the other. -/
def Joined (edges : String → List (String × α)) (a b : String) : Prop := ∃ e ∈ edges a, e.1 = b

/-- The two nodes are in one strongly connected component. -/
def Connected (edges : String → List (String × α)) (a b : String) : Prop :=
  Relation.ReflTransGen (Joined edges) a b ∧ Relation.ReflTransGen (Joined edges) b a

section

variable {edges : String → List (String × α)} {path p q : List (Step α)} {start node : String}
  {c : Cycle α} {s t : Step α}

theorem Connected.trans {a b c : String} (h : Connected edges a b) (h' : Connected edges b c) :
    Connected edges a c :=
  ⟨h.1.trans h'.1, h'.2.trans h.2⟩

theorem LeadsTo.of_append (h : LeadsTo edges (p ++ q) node) : LeadsTo edges p node := by
  induction p generalizing node with
  | nil => trivial
  | cons s p ih => exact ⟨h.1, ih h.2⟩

/-- Every step leads to the source of a later step or to the end. -/
theorem LeadsTo.exists_edge (h : LeadsTo edges path node) (ht : t ∈ path) :
    ∃ e ∈ edges t.source, e.2 = t.label ∧ (e.1 = node ∨ ∃ s ∈ path, e.1 = s.source) := by
  induction path generalizing node with
  | nil => simp at ht
  | cons s path ih =>
    rcases List.mem_cons.1 ht with rfl | ht
    · exact ⟨_, h.1, rfl, .inl rfl⟩
    · obtain ⟨e, he, hlabel, heq | ⟨s', hs', heq⟩⟩ := ih h.2 ht
      · exact ⟨e, he, hlabel, .inr ⟨s, List.mem_cons_self, heq⟩⟩
      · exact ⟨e, he, hlabel, .inr ⟨s', List.mem_cons_of_mem _ hs', heq⟩⟩

/-- Every step of a path reaches its end. -/
theorem LeadsTo.reaches (h : LeadsTo edges path node) (ht : t ∈ path) :
    Relation.ReflTransGen (Joined edges) t.source node := by
  induction path generalizing node with
  | nil => simp at ht
  | cons s path ih =>
    have hlast : Joined edges s.source node := ⟨_, h.1, rfl⟩
    rcases List.mem_cons.1 ht with rfl | ht
    · exact .single hlast
    · exact (ih h.2 ht).tail hlast

/-- The first step of a path reaches all others. -/
theorem LeadsTo.reaches_from (h : LeadsTo edges (p ++ [s]) node) (ht : t ∈ p ++ [s]) :
    Relation.ReflTransGen (Joined edges) s.source t.source := by
  induction p generalizing node with
  | nil =>
    obtain rfl : t = s := by simpa using ht
    exact .refl
  | cons u p ih =>
    rcases List.mem_cons.1 ht with rfl | ht
    · exact (h.2 : LeadsTo edges (p ++ [s]) t.source).reaches (by simp)
    · exact ih h.2 ht

theorem LeadsTo.isChain (h : LeadsTo edges path node) :
    (node :: path.map (·.source)).IsChain fun b a => Joined edges a b := by
  induction path generalizing node with
  | nil => exact .singleton _
  | cons s path ih => exact .cons_cons ⟨_, h.1, rfl⟩ (ih h.2)

/-- Nodes that are joined one after the other are those of a path. -/
theorem exists_leadsTo {nodes : List String}
    (h : (node :: nodes).IsChain fun b a => Joined edges a b) :
    ∃ path, path.map (·.source) = nodes ∧ LeadsTo edges path node := by
  induction nodes generalizing node with
  | nil => exact ⟨[], rfl, trivial⟩
  | cons a nodes ih =>
    obtain ⟨⟨⟨_, label⟩, he, rfl⟩, hrest⟩ := List.isChain_cons_cons.1 h
    obtain ⟨path, rfl, hleads⟩ := ih hrest
    exact ⟨⟨a, label⟩ :: path, rfl, he, hleads⟩

/-- All members of a cycle are in one component. -/
theorem IsCycle.connected (h : IsCycle edges c) {a b : String} (ha : a ∈ c.members)
    (hb : b ∈ c.members) : Connected edges a b := by
  obtain ⟨s, rest, rfl, hleads⟩ := h
  rw [List.reverse_cons] at hleads
  have hreach : ∀ x ∈ Cycle.members (s :: rest),
      Relation.ReflTransGen (Joined edges) x s.source ∧
        Relation.ReflTransGen (Joined edges) s.source x := by
    intro x hx
    obtain ⟨t, ht, rfl⟩ := List.mem_map.1 hx
    have ht' : t ∈ rest.reverse ++ [s] := by
      rcases List.mem_cons.1 ht with rfl | ht
      · simp
      · simp [ht]
    exact ⟨hleads.reaches ht', hleads.reaches_from ht'⟩
  exact ⟨(hreach a ha).1.trans (hreach b hb).2, (hreach b hb).1.trans (hreach a ha).2⟩

/-- A cycle goes on behind each of its members. -/
theorem IsCycle.exists_next (h : IsCycle edges c) {a : String} (ha : a ∈ c.members) :
    ∃ e ∈ edges a, e.1 ∈ c.members := by
  obtain ⟨s, rest, rfl, hleads⟩ := h
  obtain ⟨t, ht, rfl⟩ := List.mem_map.1 ha
  obtain ⟨e, he, -, heq | ⟨s', hs', heq⟩⟩ := hleads.exists_edge (List.mem_reverse.2 ht)
  · exact ⟨e, he, List.mem_map.2 ⟨s, List.mem_cons_self, heq.symm⟩⟩
  · exact ⟨e, he, List.mem_map.2 ⟨s', List.mem_reverse.1 hs', heq.symm⟩⟩

theorem IsCycle.members_ne_nil (h : IsCycle edges c) : c.members ≠ [] := by
  obtain ⟨s, rest, rfl, -⟩ := h
  simp [Cycle.members]

/-- Each member of a cycle is joined to the next one, and the last one to the first. -/
theorem IsCycle.isChain_chain (h : IsCycle edges c) : c.chain.IsChain (Joined edges) := by
  obtain ⟨s, rest, rfl, hleads⟩ := h
  have hchain := List.isChain_reverse.2 hleads.isChain
  rwa [List.reverse_cons, List.map_reverse, List.reverse_reverse] at hchain

theorem LeadsTo.forall₂_take (h : LeadsTo edges path node) :
    List.Forall₂ (fun s target => (target, s.label) ∈ edges s.source) path
      ((node :: path.map (·.source)).take path.length) := by
  induction path generalizing node with
  | nil => exact .nil
  | cons s path ih => exact .cons h.1 (ih h.2)

/-- Each step of a cycle is an edge to the next member of its chain. -/
theorem IsCycle.forall₂_chain (h : IsCycle edges c) :
    List.Forall₂ (fun s target => (target, s.label) ∈ edges s.source) c (c.chain.drop 1) := by
  obtain ⟨s, rest, rfl, hleads⟩ := h
  have hsteps := hleads.forall₂_take
  rw [← List.forall₂_reverse_iff, List.reverse_reverse] at hsteps
  have htargets : (s.source :: (s :: rest).reverse.map (·.source)).take (s :: rest).reverse.length =
      (Cycle.chain (s :: rest)).reverse.take (s :: rest).length := by
    rw [Cycle.chain, Cycle.members, List.reverse_append, List.map_reverse, List.length_reverse]
    rfl
  rw [htargets, List.take_reverse, List.reverse_reverse] at hsteps
  have hlength : (Cycle.chain (s :: rest)).length - (s :: rest).length = 1 := by
    simp [Cycle.chain, Cycle.members]
  rwa [hlength] at hsteps

/-- Names that are joined around are the members of a cycle. -/
theorem exists_isCycle {nodes : List String} (hne : nodes ≠ [])
    (h : (nodes ++ nodes.take 1).IsChain (Joined edges)) :
    ∃ c : Cycle α, c.members = nodes ∧ IsCycle edges c := by
  obtain ⟨a, nodes, rfl⟩ := List.exists_cons_of_ne_nil hne
  have hreverse : (a :: (a :: nodes).reverse).IsChain fun b a => Joined edges a b := by
    rw [← List.isChain_reverse, List.reverse_cons, List.reverse_reverse]
    exact h
  obtain ⟨path, hpath, hleads⟩ := exists_leadsTo hreverse
  have hmembers : Cycle.members path.reverse = a :: nodes := by
    rw [Cycle.members, List.map_reverse, hpath, List.reverse_reverse]
  refine ⟨path.reverse, hmembers, ?_⟩
  cases hsteps : path.reverse with
  | nil => simp [hsteps, Cycle.members] at hmembers
  | cons s rest =>
    rw [hsteps, Cycle.members, List.map_cons, List.cons.injEq] at hmembers
    refine ⟨s, rest, rfl, ?_⟩
    rw [← hsteps, List.reverse_reverse, hmembers.1]
    exact hleads

theorem isPath_nil (edges : String → List (String × α)) (start : String) :
    IsPath edges start [] start :=
  ⟨trivial, by simp, rfl⟩

theorem IsPath.follow {edge : String × α} (h : IsPath edges start path node)
    (hedge : edge ∈ edges node)
    (hnew : edge.1 ∉ (⟨node, edge.2⟩ :: path : List (Step α)).map (·.source)) :
    IsPath edges start (⟨node, edge.2⟩ :: path) edge.1 where
  leadsTo := ⟨hedge, h.leadsTo⟩
  nodup := List.nodup_cons.2 ⟨hnew, h.nodup⟩
  starts := by
    rw [List.map_cons, List.getLast?_cons_cons]
    exact h.starts

end

/-! ## Closing a cycle -/

namespace Walk

/-- The steps from a node on are those of the path since it was last left. -/
theorem stepsFrom_eq {path : List (Step α)} {node : String}
    (h : path.any (·.source = node) = true) :
    ∃ p s q, path = p ++ s :: q ∧ s.source = node ∧ stepsFrom node path = s :: p.reverse := by
  induction path with
  | nil => simp at h
  | cons t path ih =>
    rw [stepsFrom]
    split
    · rename_i ht
      exact ⟨[], t, path, rfl, ht, rfl⟩
    · rename_i ht
      have hrest : path.any (·.source = node) = true := by simpa [ht] using h
      obtain ⟨p, s, q, rfl, hs, hsteps⟩ := ih hrest
      exact ⟨t :: p, s, q, rfl, hs, by rw [hsteps, List.reverse_cons, List.cons_append]⟩

section

variable {edges : String → List (String × α)} {path : List (Step α)} {node : String}

/-- An edge back to a node of the path closes a cycle through that node. -/
theorem isSimpleCycle_stepsFrom (hleads : LeadsTo edges path node)
    (hnodup : (path.map (·.source)).Nodup) (h : path.any (·.source = node) = true) :
    IsSimpleCycle edges (stepsFrom node path) ∧ node ∈ (stepsFrom node path).members := by
  obtain ⟨p, s, q, rfl, rfl, hsteps⟩ := stepsFrom_eq h
  rw [hsteps]
  rw [← List.singleton_append, ← List.append_assoc] at hleads hnodup
  rw [List.map_append] at hnodup
  refine ⟨⟨⟨s, p.reverse, rfl, ?_⟩, ?_⟩, by simp [Cycle.members]⟩
  · rw [List.reverse_cons, List.reverse_reverse]
    exact hleads.of_append
  · have hmembers : Cycle.members (s :: p.reverse) = ((p ++ [s]).map (·.source)).reverse := by
      simp [Cycle.members]
    rw [hmembers, List.nodup_reverse]
    exact hnodup.of_append_left

end

/-! ## Steps of a walk -/

/-- What following one edge of `node` adds to the cycles and the finished nodes. -/
def follow (edges : String → List (String × α)) (depth : Nat) (path : List (Step α)) (node : String)
    (found : List (Cycle α) × List String) (edge : String × α) :
    List (Cycle α) × List String :=
  let path := ⟨node, edge.2⟩ :: path
  if path.any (·.source = edge.1) then (found.1 ++ [stepsFrom edge.1 path], found.2)
  else if edge.1 ∈ found.2 then found
  else
    let more := visit edges depth path edge.1 found.2
    (found.1 ++ more.1, more.2)

theorem visit_succ (edges : String → List (String × α)) (depth : Nat) (path : List (Step α))
    (node : String) (finished : List String) :
    visit edges (depth + 1) path node finished =
      (((edges node).foldl (follow edges depth path node) ([], finished)).1,
        node :: ((edges node).foldl (follow edges depth path node) ([], finished)).2) := rfl

/-- What starting from one more node adds. -/
def restart (edges : String → List (String × α)) (found : List (Cycle α) × List String)
    (node : String) : List (Cycle α) × List String :=
  if node ∈ found.2 then found
  else
    let more := visit edges maxWalkDepth [] node found.2
    (found.1 ++ more.1, more.2)

theorem cycles_eq (edges : String → List (String × α)) (nodes : List String) :
    cycles edges nodes = (nodes.foldl (restart edges) ([], [])).1 := rfl

section

variable {edges : String → List (String × α)} {depth : Nat} {path : List (Step α)}
  {start node : String} {finished : List String} {found : List (Cycle α) × List String}
  {edge : String × α}

/-- One edge closes a cycle, leads to a finished node or goes on. -/
theorem follow_cases (edges : String → List (String × α)) (depth : Nat) (path : List (Step α))
    (node : String) (found : List (Cycle α) × List String) (edge : String × α) :
    ((⟨node, edge.2⟩ :: path).any (·.source = edge.1) = true ∧
        follow edges depth path node found edge =
          (found.1 ++ [stepsFrom edge.1 (⟨node, edge.2⟩ :: path)], found.2)) ∨
      (edge.1 ∈ found.2 ∧ follow edges depth path node found edge = found) ∨
      (edge.1 ∉ (⟨node, edge.2⟩ :: path).map (·.source) ∧
        follow edges depth path node found edge =
          (found.1 ++ (visit edges depth (⟨node, edge.2⟩ :: path) edge.1 found.2).1,
            (visit edges depth (⟨node, edge.2⟩ :: path) edge.1 found.2).2)) := by
  unfold follow
  simp only
  split
  · rename_i hback
    exact .inl ⟨hback, rfl⟩
  split
  · rename_i hdone
    exact .inr (.inl ⟨hdone, rfl⟩)
  · rename_i hback _
    refine .inr (.inr ⟨fun hmem => hback ?_, rfl⟩)
    obtain ⟨s, hs, hsource⟩ := List.mem_map.1 hmem
    exact List.any_eq_true.2 ⟨s, hs, by simpa using hsource⟩

/-! ## Only simple cycles -/

theorem isSimpleCycle_of_mem_visit (hpath : IsPath edges start path node) :
    ∀ c ∈ (visit edges depth path node finished).1, IsSimpleCycle edges c := by
  induction depth generalizing path node finished with
  | zero => simp [visit]
  | succ depth ih =>
    rw [visit_succ]
    refine List.foldlRecOn (motive := fun found : List (Cycle α) × List String =>
      ∀ c ∈ found.1, IsSimpleCycle edges c) _ _ (by simp) fun found hfound edge hedge => ?_
    obtain ⟨hback, heq⟩ | ⟨-, heq⟩ | ⟨hnew, heq⟩ := follow_cases edges depth path node found edge
    · have hleads : LeadsTo edges (⟨node, edge.2⟩ :: path) edge.1 := ⟨hedge, hpath.leadsTo⟩
      rw [heq, List.forall_mem_append]
      exact ⟨hfound, by simpa using (isSimpleCycle_stepsFrom hleads hpath.nodup hback).1⟩
    · rw [heq]
      exact hfound
    · rw [heq, List.forall_mem_append]
      exact ⟨hfound, ih (hpath.follow hedge hnew)⟩

/-- A walk closes nothing but simple cycles. -/
theorem isSimpleCycle_of_mem_cycles {nodes : List String} :
    ∀ c ∈ cycles edges nodes, IsSimpleCycle edges c := by
  rw [cycles_eq]
  refine List.foldlRecOn (motive := fun found : List (Cycle α) × List String =>
    ∀ c ∈ found.1, IsSimpleCycle edges c) _ _ (by simp) fun found hfound node _ => ?_
  unfold restart
  split
  · exact hfound
  · rw [List.forall_mem_append]
    exact ⟨hfound, isSimpleCycle_of_mem_visit (isPath_nil edges node)⟩

theorem finished_subset_visit : finished ⊆ (visit edges depth path node finished).2 := by
  induction depth generalizing path node finished with
  | zero => exact List.Subset.refl _
  | succ depth ih =>
    rw [visit_succ]
    refine List.Subset.trans ?_ (List.subset_cons_self _ _)
    refine List.foldlRecOn (motive := fun found : List (Cycle α) × List String =>
      finished ⊆ found.2) _ _ (List.Subset.refl _) fun found hfound edge _ => ?_
    obtain ⟨-, heq⟩ | ⟨-, heq⟩ | ⟨-, heq⟩ := follow_cases edges depth path node found edge
    · rw [heq]
      exact hfound
    · rw [heq]
      exact hfound
    · rw [heq]
      exact List.Subset.trans hfound ih

theorem finished_subset_follow : found.2 ⊆ (follow edges depth path node found edge).2 := by
  obtain ⟨-, heq⟩ | ⟨-, heq⟩ | ⟨-, heq⟩ := follow_cases edges depth path node found edge
  · rw [heq]
    exact List.Subset.refl _
  · rw [heq]
    exact List.Subset.refl _
  · rw [heq]
    exact finished_subset_visit

theorem cycles_subset_follow : found.1 ⊆ (follow edges depth path node found edge).1 := by
  obtain ⟨-, heq⟩ | ⟨-, heq⟩ | ⟨-, heq⟩ := follow_cases edges depth path node found edge
  · rw [heq]
    exact List.subset_append_left _ _
  · rw [heq]
    exact List.Subset.refl _
  · rw [heq]
    exact List.subset_append_left _ _

theorem cycles_subset_restart : found.1 ⊆ (restart edges found node).1 := by
  unfold restart
  split
  · exact List.Subset.refl _
  · exact List.subset_append_left _ _

/-! ## Only what is reached -/

/-- What a visit finishes is reached from its node. -/
theorem reaches_of_mem_visit : ∀ a ∈ (visit edges depth path node finished).2,
    a ∈ finished ∨ Relation.ReflTransGen (Joined edges) node a := by
  induction depth generalizing path node finished with
  | zero => exact fun a ha => .inl ha
  | succ depth ih =>
    rw [visit_succ, List.forall_mem_cons]
    refine ⟨.inr .refl, ?_⟩
    refine List.foldlRecOn (motive := fun found : List (Cycle α) × List String =>
      ∀ a ∈ found.2, a ∈ finished ∨ Relation.ReflTransGen (Joined edges) node a) _ _
      (fun a ha => .inl ha) fun found hfound edge hedge => ?_
    obtain ⟨-, heq⟩ | ⟨-, heq⟩ | ⟨-, heq⟩ := follow_cases edges depth path node found edge
    · rw [heq]
      exact hfound
    · rw [heq]
      exact hfound
    · rw [heq]
      intro a ha
      rcases ih a ha with ha | hreach
      · exact hfound a ha
      · exact .inr (.head ⟨edge, hedge, rfl⟩ hreach)

/-- What a walk has finished is reached from a node that it started at. -/
theorem exists_reaches_of_mem_finished {nodes : List String} :
    ∀ a ∈ (nodes.foldl (restart edges) ([], [])).2,
      ∃ b ∈ nodes, Relation.ReflTransGen (Joined edges) b a := by
  refine List.foldlRecOn (motive := fun found : List (Cycle α) × List String =>
    ∀ a ∈ found.2, ∃ b ∈ nodes, Relation.ReflTransGen (Joined edges) b a) _ _ (by simp)
    fun found hfound node hnode => ?_
  unfold restart
  split
  · exact hfound
  · intro a ha
    rcases reaches_of_mem_visit a ha with ha | hreach
    · exact hfound a ha
    · exact ⟨node, hnode, hreach⟩

end

end Walk

/-! ## One cycle through the same nodes -/

namespace Cycle

variable {c d : Cycle α} {cs : List (Cycle α)}

theorem hasMembersOf_iff : c.hasMembersOf d = true ↔ ∀ m, m ∈ c.members ↔ m ∈ d.members := by
  simp only [hasMembersOf, Bool.and_eq_true, List.all_eq_true, List.contains_iff_mem]
  exact ⟨fun h m => ⟨h.1 m, h.2 m⟩, fun h => ⟨fun m => (h m).1, fun m => (h m).2⟩⟩

theorem mem_of_mem_distinct (h : c ∈ distinct cs) : c ∈ cs := (eraseDupsBy_sublist cs).subset h

/-- Of the cycles through the same nodes one stays. -/
theorem exists_mem_distinct (h : c ∈ cs) : ∃ c' ∈ distinct cs, ∀ m, m ∈ c.members ↔ m ∈ c'.members := by
  obtain ⟨c', hc', hsame⟩ := exists_mem_eraseDupsBy (fun _ => hasMembersOf_iff.2 fun _ => .rfl) cs h
  exact ⟨c', hc', hasMembersOf_iff.1 hsame⟩

theorem pairwise_distinct (cs : List (Cycle α)) :
    (distinct cs).Pairwise fun c d => ¬∀ m, m ∈ c.members ↔ m ∈ d.members := by
  refine (pairwise_eraseDupsBy cs).imp fun hother hsame => ?_
  rw [hasMembersOf_iff.2 fun m => (hsame m).symm] at hother
  exact absurd hother (by decide)

end Cycle

end GrammarLab
