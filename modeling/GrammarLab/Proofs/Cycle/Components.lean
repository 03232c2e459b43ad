import Mathlib.Data.List.Perm.Subperm
import GrammarLab.Proofs.Cycle.Walk

/-!
# Components with a cycle

A walk does not find all cycles, since it enters no node twice. But as long as its depth lasts, it
does not pass by a set of nodes with a cycle in it: the node of that cycle that is finished first
would lead to one that is finished before it.

Where the depth ends a node is passed by, and the nodes in front of it are finished all the same.
So what counts is how long the trails to the cycle are that start at the first node of the walk
from which it is reached.

    all trails from there to the component of d have at most maxWalkDepth nodes →
      ∃ c ∈ cycles edges nodes, c is in the component of d        (exists_mem_cycles_of_trails)
    there are at most maxWalkDepth nodes →
      ∃ c ∈ cycles edges nodes, c is in the component of d                  (exists_mem_cycles)
-/

namespace GrammarLab

variable {α : Type}

/-! ## Trails -/

/-- A way from `start`, the latest node first, through no node twice. -/
structure Trail (edges : String → List (String × α)) (start : String) (nodes : List String) :
    Prop where
  nodup : nodes.Nodup
  joined : nodes.IsChain fun b a => Joined edges a b
  starts : nodes.getLast? = some start

/-- Some way leads from the node to the cycle. -/
def Reaches (edges : String → List (String × α)) (a : String) (d : Cycle α) : Prop :=
  ∃ m ∈ d.members, Relation.ReflTransGen (Joined edges) a m

section

variable {edges : String → List (String × α)} {path : List (Step α)} {start a b x : String}
  {nodes names p q : List String}

theorem IsPath.trail (h : IsPath edges start path a) :
    Trail edges start (a :: path.map (·.source)) :=
  ⟨h.nodup, h.leadsTo.isChain, h.starts⟩

theorem Trail.of_append (h : Trail edges start (p ++ x :: q)) : Trail edges start (x :: q) where
  nodup := h.nodup.of_append_right
  joined := h.joined.right_of_append
  starts := by simpa using h.starts

/-- Another trail to one of the nodes takes the place of the one that led there. -/
theorem Trail.exchange (h : Trail edges start (p ++ x :: q)) (hx : Trail edges start (x :: nodes))
    (hnew : ∀ a ∈ p, a ∉ x :: nodes) : Trail edges start (p ++ x :: nodes) where
  nodup := List.nodup_append.2 ⟨h.nodup.of_append_left, hx.nodup,
    fun a ha b hb heq => hnew a ha (heq ▸ hb)⟩
  joined := by
    obtain ⟨hp, -, hlast⟩ := List.isChain_append.1 h.joined
    exact List.isChain_append.2 ⟨hp, hx.joined, by simpa using hlast⟩
  starts := by simpa using hx.starts

/-- Where a way leads, a trail does: when the way comes back to a node, what lies between is
left out. -/
theorem exists_trail (h : Relation.ReflTransGen (Joined edges) a b) :
    ∃ nodes, Trail edges a (b :: nodes) := by
  induction h with
  | refl => exact ⟨[], by simp, .singleton _, rfl⟩
  | @tail b c _ hjoined ih =>
    obtain ⟨nodes, htrail⟩ := ih
    by_cases hc : c ∈ b :: nodes
    · obtain ⟨p, q, hsplit⟩ := List.append_of_mem hc
      rw [hsplit] at htrail
      exact ⟨q, htrail.of_append⟩
    · exact ⟨b :: nodes, List.nodup_cons.2 ⟨hc, htrail.nodup⟩, .cons_cons hjoined htrail.joined,
        by simpa using htrail.starts⟩

theorem Trail.reaches (h : Trail edges start (b :: nodes)) (ha : a ∈ b :: nodes) :
    Relation.ReflTransGen (Joined edges) a b :=
  h.joined.induction (Relation.ReflTransGen (Joined edges) · b) _
    (fun _ _ hjoined hreach => .head hjoined hreach) (fun _ => .refl) a ha

theorem Trail.subset (h : Trail edges start nodes) (hstart : start ∈ names)
    (hknown : ∀ a, ∀ e ∈ edges a, e.1 ∈ names) : nodes ⊆ names := by
  refine h.joined.backwards_induction (· ∈ names) _ ?_ fun hne => ?_
  · rintro _ a ⟨e, he, rfl⟩ -
    exact hknown a e he
  · have hlast := h.starts
    rw [List.getLast?_eq_some_getLast hne, Option.some_inj] at hlast
    rwa [hlast]

end

namespace Walk

/-! ## Folds -/

/-- Goes through a list by steps that keep `P` and lose nothing: what each member gives is there in
the end. -/
theorem foldl_forall {β γ : Type} {P : γ → Prop} {Q : β → γ → Prop} (f : γ → β → γ) (xs : List β)
    (found : γ) (hfound : P found) (hkept : ∀ x y found, Q x found → Q x (f found y))
    (hstep : ∀ x ∈ xs, ∀ found, P found → P (f found x) ∧ Q x (f found x)) :
    P (xs.foldl f found) ∧ ∀ x ∈ xs, Q x (xs.foldl f found) := by
  induction xs generalizing found with
  | nil => exact ⟨hfound, by simp⟩
  | cons x xs ih =>
    rw [List.forall_mem_cons] at hstep
    obtain ⟨hP, hQ⟩ := hstep.1 found hfound
    rw [List.foldl_cons, List.forall_mem_cons]
    obtain ⟨hend, hall⟩ := ih _ hP hstep.2
    exact ⟨hend, List.foldlRecOn (motive := Q x) _ _ hQ fun found hQ y _ => hkept x y found hQ, hall⟩

/-! ## The component that the walk gets to -/

/-- A cycle within `S` has been found. -/
def Caught (S : String → Prop) (found : List (Cycle α) × List String) : Prop :=
  ∃ c ∈ found.1, ∀ m ∈ c.members, S m

/-- Edges into `S` lead from a finished node to nodes that were finished before it. The latest one
stands first. -/
def Settled (edges : String → List (String × α)) (S : String → Prop) : List String → Prop
  | [] => True
  | node :: rest => (∀ e ∈ edges node, S e.1 → e.1 ∈ rest) ∧ Settled edges S rest

/-- A cycle that touches `S` is within it. -/
def Keeps (edges : String → List (String × α)) (S : String → Prop) : Prop :=
  ∀ c, IsCycle edges c → ∀ m ∈ c.members, S m → ∀ m' ∈ c.members, S m'

/-- The depth of a walk from `start` lasts for all trails into `S`. -/
def Lasts (edges : String → List (String × α)) (S : String → Prop) (start : String) : Prop :=
  ∀ nodes node, Trail edges start (node :: nodes) → S node → nodes.length < maxWalkDepth

section

variable {edges : String → List (String × α)} {S : String → Prop} {depth : Nat}
  {path : List (Step α)} {start node : String} {finished : List String}
  {found : List (Cycle α) × List String} {edge : String × α} {d : Cycle α}

theorem Caught.mono {found' : List (Cycle α) × List String} (h : Caught S found)
    (hsub : found.1 ⊆ found'.1) : Caught S found' :=
  let ⟨c, hc, hmembers⟩ := h
  ⟨c, hsub hc, hmembers⟩

/-- Following an edge does what a visit does. -/
theorem settled_follow (hkeeps : Keeps edges S) (hpath : IsPath edges start path node)
    (hedge : edge ∈ edges node) (hfound : Settled edges S found.2)
    (hvisit : IsPath edges start (⟨node, edge.2⟩ :: path) edge.1 →
      Caught S (visit edges depth (⟨node, edge.2⟩ :: path) edge.1 found.2) ∨
        Settled edges S (visit edges depth (⟨node, edge.2⟩ :: path) edge.1 found.2).2 ∧
          (S edge.1 → edge.1 ∈ (visit edges depth (⟨node, edge.2⟩ :: path) edge.1 found.2).2)) :
    Caught S (follow edges depth path node found edge) ∨
      Settled edges S (follow edges depth path node found edge).2 ∧
        (S edge.1 → edge.1 ∈ (follow edges depth path node found edge).2) := by
  obtain ⟨hback, heq⟩ | ⟨hdone, heq⟩ | ⟨hnew, heq⟩ := follow_cases edges depth path node found edge
  · have hleads : LeadsTo edges (⟨node, edge.2⟩ :: path) edge.1 := ⟨hedge, hpath.leadsTo⟩
    obtain ⟨hcycle, hmem⟩ := isSimpleCycle_stepsFrom hleads hpath.nodup hback
    rw [heq]
    by_cases hS : S edge.1
    · exact .inl ⟨_, by simp, hkeeps _ hcycle.isCycle _ hmem hS⟩
    · exact .inr ⟨hfound, fun h => absurd h hS⟩
  · rw [heq]
    exact .inr ⟨hfound, fun _ => hdone⟩
  · rw [heq]
    exact (hvisit (hpath.follow hedge hnew)).imp_left
      fun ⟨c, hc, hmembers⟩ => ⟨c, List.mem_append_right _ hc, hmembers⟩

/-- A visit catches a cycle within `S`, or it finishes its node if that is in `S`, and keeps what
is settled. -/
theorem settled_visit (hkeeps : Keeps edges S) (hlasts : Lasts edges S start)
    (hpath : IsPath edges start path node) (hdepth : depth + path.length = maxWalkDepth)
    (hfinished : Settled edges S finished) :
    Caught S (visit edges depth path node finished) ∨
      Settled edges S (visit edges depth path node finished).2 ∧
        (S node → node ∈ (visit edges depth path node finished).2) := by
  induction depth generalizing path node finished with
  | zero =>
    -- the depth does not end in front of a node of `S`
    refine .inr ⟨hfinished, fun hS => absurd (hlasts _ _ hpath.trail hS) ?_⟩
    rw [List.length_map]
    omega
  | succ depth ih =>
    rw [visit_succ]
    have hstep : ∀ edge ∈ edges node, ∀ found, Caught S found ∨ Settled edges S found.2 →
        (Caught S (follow edges depth path node found edge) ∨
            Settled edges S (follow edges depth path node found edge).2) ∧
          (Caught S (follow edges depth path node found edge) ∨
            (S edge.1 → edge.1 ∈ (follow edges depth path node found edge).2)) := by
      rintro edge hedge found (hcaught | hfound)
      · have hmore : Caught S (follow edges depth path node found edge) :=
          hcaught.mono cycles_subset_follow
        exact ⟨.inl hmore, .inl hmore⟩
      · rw [← or_and_left]
        refine settled_follow hkeeps hpath hedge hfound fun hpath' => ih hpath' ?_ hfound
        rw [List.length_cons]
        omega
    obtain ⟨hend, hall⟩ := foldl_forall (P := fun found => Caught S found ∨ Settled edges S found.2)
      (Q := fun e found => Caught S found ∨ (S e.1 → e.1 ∈ found.2))
      (follow edges depth path node) (edges node) ([], finished) (.inr hfinished)
      (fun _ _ _ hfound => hfound.imp (·.mono cycles_subset_follow)
        fun hmem hS => finished_subset_follow (hmem hS)) hstep
    by_cases hcaught : Caught S ((edges node).foldl (follow edges depth path node) ([], finished))
    · exact .inl hcaught
    · exact .inr ⟨⟨fun e he => (hall e he).resolve_left hcaught, hend.resolve_left hcaught⟩,
        fun _ => List.mem_cons_self⟩

/-- What is settled has no cycle within `S`: the member that was finished first would lead to one
that was finished before it. -/
theorem Settled.not_mem (h : Settled edges S finished) (hd : IsCycle edges d)
    (hS : ∀ m ∈ d.members, S m) : ∀ m ∈ d.members, m ∉ finished := by
  induction finished with
  | nil => simp
  | cons node rest ih =>
    intro m hm hmem
    rcases List.mem_cons.1 hmem with rfl | hmem
    · obtain ⟨e, he, hnext⟩ := hd.exists_next hm
      exact ih h.2 e.1 hnext (h.1 e he (hS _ hnext))
    · exact ih h.2 m hm hmem

/-- Nodes that lead to no node of `S` are settled. -/
theorem settled_of_forall (h : ∀ a ∈ finished, ∀ e ∈ edges a, ¬S e.1) :
    Settled edges S finished := by
  induction finished with
  | nil => trivial
  | cons a finished ih =>
    rw [List.forall_mem_cons] at h
    exact ⟨fun e he hS => absurd hS (h.1 e he), ih h.2⟩

end

/-! ## Where the depth ends -/

/-- Each edge of `a` leads to one of the `known` nodes, or the depth ended at `a`. -/
def Followed (edges : String → List (String × α)) (start : String) (known : List String)
    (a : String) : Prop :=
  ∀ e ∈ edges a, e.1 ∈ known ∨
    ∃ nodes, Trail edges start (a :: nodes) ∧ a :: nodes ⊆ known ∧ nodes.length + 1 = maxWalkDepth

/-- What a walk from `start` has finished since `before` it has followed to finished nodes and to
those that it is still on. -/
def Explored (edges : String → List (String × α)) (start : String)
    (before on finished : List String) : Prop :=
  ∀ a ∈ finished, a ∈ before ∨ Followed edges start (finished ++ on) a

section

variable {edges : String → List (String × α)} {depth : Nat} {path : List (Step α)}
  {start node a b : String} {before on finished known known' : List String}
  {found : List (Cycle α) × List String} {edge : String × α}

theorem Followed.mono (h : Followed edges start known a) (hsub : known ⊆ known') :
    Followed edges start known' a := fun e he =>
  (h e he).imp (hsub ·) fun ⟨nodes, htrail, hknown, hlen⟩ =>
    ⟨nodes, htrail, List.Subset.trans hknown hsub, hlen⟩

theorem Explored.enter (h : Explored edges start before on finished) :
    Explored edges start before (node :: on) finished := fun a ha =>
  (h a ha).imp_right fun hfollowed => hfollowed.mono (by simp)

/-- A node that the walk leaves is finished once it has been followed. -/
theorem Explored.leave (h : Explored edges start before (node :: on) finished)
    (hnode : Followed edges start (finished ++ node :: on) node) :
    Explored edges start before on (node :: finished) := by
  have hsame : finished ++ node :: on ⊆ (node :: finished) ++ on := by
    intro a ha
    simpa [or_left_comm] using ha
  intro a ha
  rcases List.mem_cons.1 ha with rfl | ha
  · exact .inr (hnode.mono hsame)
  · exact (h a ha).imp_right fun hfollowed => hfollowed.mono hsame

theorem explored_follow (hpath : IsPath edges start path node) (hedge : edge ∈ edges node)
    (h : Explored edges start before (node :: path.map (·.source)) found.2)
    (hvisit : IsPath edges start (⟨node, edge.2⟩ :: path) edge.1 →
      Explored edges start before (node :: path.map (·.source))
          (visit edges depth (⟨node, edge.2⟩ :: path) edge.1 found.2).2 ∧
        (0 < depth → edge.1 ∈ (visit edges depth (⟨node, edge.2⟩ :: path) edge.1 found.2).2)) :
    Explored edges start before (node :: path.map (·.source))
        (follow edges depth path node found edge).2 ∧
      (0 < depth → edge.1 ∈
        (follow edges depth path node found edge).2 ++ node :: path.map (·.source)) := by
  obtain ⟨hback, heq⟩ | ⟨hdone, heq⟩ | ⟨hnew, heq⟩ := follow_cases edges depth path node found edge
  · obtain ⟨s, hs, hsource⟩ := List.any_eq_true.1 hback
    rw [decide_eq_true_eq] at hsource
    rw [heq, ← hsource]
    exact ⟨h, fun _ => List.mem_append_right _ (List.mem_map_of_mem hs)⟩
  · rw [heq]
    exact ⟨h, fun _ => List.mem_append_left _ hdone⟩
  · rw [heq]
    obtain ⟨hexplored, hmem⟩ := hvisit (hpath.follow hedge hnew)
    exact ⟨hexplored, fun hdepth => List.mem_append_left _ (hmem hdepth)⟩

/-- A visit finishes its node and keeps what is explored. -/
theorem explored_visit (hpath : IsPath edges start path node)
    (hdepth : depth + path.length = maxWalkDepth)
    (h : Explored edges start before (path.map (·.source)) finished) :
    Explored edges start before (path.map (·.source)) (visit edges depth path node finished).2 ∧
      (0 < depth → node ∈ (visit edges depth path node finished).2) := by
  induction depth generalizing path node finished with
  | zero => exact ⟨h, fun hpos => absurd hpos (Nat.lt_irrefl 0)⟩
  | succ depth ih =>
    rw [visit_succ]
    have hstep : ∀ edge ∈ edges node, ∀ found : List (Cycle α) × List String,
        Explored edges start before (node :: path.map (·.source)) found.2 →
        Explored edges start before (node :: path.map (·.source))
            (follow edges depth path node found edge).2 ∧
          (0 < depth → edge.1 ∈
            (follow edges depth path node found edge).2 ++ node :: path.map (·.source)) := by
      intro edge hedge found hfound
      refine explored_follow hpath hedge hfound fun hpath' => ih hpath' ?_ hfound
      rw [List.length_cons]
      omega
    obtain ⟨hend, hall⟩ := foldl_forall
      (P := fun found => Explored edges start before (node :: path.map (·.source)) found.2)
      (Q := fun e found => 0 < depth → e.1 ∈ found.2 ++ node :: path.map (·.source))
      (follow edges depth path node) (edges node) ([], finished) h.enter
      (fun _ _ _ hmem hpos => List.mem_append.2
        ((List.mem_append.1 (hmem hpos)).imp_left (finished_subset_follow ·))) hstep
    refine ⟨hend.leave fun e he => ?_, fun _ => List.mem_cons_self⟩
    rcases Nat.eq_zero_or_pos depth with rfl | hpos
    · refine .inr ⟨_, hpath.trail, List.subset_append_right _ _, ?_⟩
      rw [List.length_map]
      omega
    · exact .inl (hall e he hpos)

/-- A node that is reached but not finished in the end is behind more nodes than a walk goes
deep. -/
theorem exists_long_trail (h : Explored edges start before [] finished) (hstart : start ∈ finished)
    (hreach : Relation.ReflTransGen (Joined edges) start b)
    (hbefore : ∀ a ∈ before, ¬Relation.ReflTransGen (Joined edges) a b) (hb : b ∉ finished) :
    ∃ nodes, Trail edges start (b :: nodes) ∧ maxWalkDepth ≤ nodes.length := by
  obtain ⟨nodes, htrail⟩ := exists_trail hreach
  -- the finished node that the trail goes through last
  obtain ⟨a, ha⟩ : ∃ a, (b :: nodes).find? (· ∈ finished) = some a := by
    have hmem := List.mem_of_getLast? htrail.starts
    rw [← Option.isSome_iff_exists, List.find?_isSome]
    exact ⟨start, hmem, by simpa using hstart⟩
  obtain ⟨hfinished, p, q, hsplit, hnew⟩ := List.find?_eq_some_iff_append.1 ha
  simp only [decide_eq_true_eq, Bool.not_eq_true', decide_eq_false_iff_not] at hfinished hnew
  cases p with
  | nil =>
    obtain ⟨rfl, -⟩ : b = a ∧ nodes = q := by simpa using hsplit
    exact absurd hfinished hb
  | cons b' p =>
    obtain ⟨rfl, -⟩ : b = b' ∧ nodes = p ++ a :: q := by simpa using hsplit
    have hmem : a ∈ b :: nodes := by rw [hsplit]; simp
    rcases h a hfinished with hmembers | hfollowed
    · exact absurd (htrail.reaches hmem) (hbefore a hmembers)
    rw [hsplit] at htrail
    obtain ⟨-, -, hlast⟩ := List.isChain_append.1 htrail.joined
    obtain ⟨e, he, hnext⟩ := hlast _ (List.getLast_mem_getLast? (List.cons_ne_nil b p)) a rfl
    have hnext' : e.1 ∉ finished ++ [] := by
      rw [hnext, List.append_nil]
      exact hnew _ (List.getLast_mem _)
    -- the depth ended at `a`, and the rest of the trail lies behind
    obtain ⟨more, hmore, hknown, hlen⟩ := (hfollowed e he).resolve_left hnext'
    rw [List.append_nil] at hknown
    refine ⟨p ++ a :: more, htrail.exchange hmore fun x hx hx' => hnew x hx (hknown hx'), ?_⟩
    rw [List.length_append, List.length_cons]
    omega

end

/-! ## No component is passed by -/

section

variable {edges : String → List (String × α)} {before behind names : List String}
  {start : String} {d : Cycle α}

theorem cycles_subset_cycles_append : (names.foldl (restart edges) ([], [])).1 ⊆
    cycles edges (names ++ behind) := by
  rw [cycles_eq, List.foldl_append]
  exact List.foldlRecOn (motive := fun found : List (Cycle α) × List String =>
    (names.foldl (restart edges) ([], [])).1 ⊆ found.1) _ _ (List.Subset.refl _)
    fun found hfound node _ => List.Subset.trans hfound cycles_subset_restart

/-- Where there is a cycle a walk closes one in the same component, as long as its depth lasts for
the trails to that component from the first node that reaches it. -/
theorem exists_mem_cycles_of_trails (hd : IsCycle edges d)
    (hnames : names = before ++ start :: behind) (hbefore : ∀ a ∈ before, ¬Reaches edges a d)
    (hstart : Reaches edges start d)
    (hlasts : Lasts edges (fun m => ∀ m' ∈ d.members, Connected edges m m') start) :
    ∃ c ∈ cycles edges names, ∀ m ∈ c.members, ∀ m' ∈ d.members, Connected edges m m' := by
  let S : String → Prop := fun m => ∀ m' ∈ d.members, Connected edges m m'
  have hkeeps : Keeps edges S := fun c hc m hm hS m' hm' a ha =>
    (hc.connected hm' hm).trans (hS a ha)
  have hdS : ∀ m ∈ d.members, S m := fun m hm m' hm' => hd.connected hm hm'
  have hfirst : ∀ a ∈ (before.foldl (restart edges) ([], [])).2, ¬Reaches edges a d := by
    rintro a ha ⟨m, hm, hreach⟩
    obtain ⟨b, hb, hreach'⟩ := exists_reaches_of_mem_finished a ha
    exact hbefore b hb ⟨m, hm, hreach'.trans hreach⟩
  generalize hfound : before.foldl (restart edges) ([], []) = found at hfirst
  suffices hcaught : Caught S (visit edges maxWalkDepth [] start found.2) by
    obtain ⟨c, hc, hmembers⟩ := hcaught
    rw [hnames, List.append_cons]
    refine ⟨c, cycles_subset_cycles_append ?_, hmembers⟩
    rw [List.foldl_append, hfound, List.foldl_cons, List.foldl_nil, restart,
      if_neg fun hmem => hfirst _ hmem hstart]
    exact List.mem_append_right _ hc
  by_contra hcaught
  have hsettled : Settled edges S found.2 := by
    obtain ⟨m, hm⟩ := List.exists_mem_of_ne_nil _ hd.members_ne_nil
    exact settled_of_forall fun a ha e he hS =>
      hfirst a ha ⟨m, hm, .head ⟨e, he, rfl⟩ (hS m hm).1⟩
  obtain ⟨hsettled', -⟩ := (settled_visit hkeeps hlasts (isPath_nil edges start) (Nat.add_zero _)
    hsettled).resolve_left hcaught
  have hexplored : Explored edges start found.2 [] found.2 := fun a ha => .inl ha
  obtain ⟨hexplored', hmem⟩ := explored_visit (isPath_nil edges start) (Nat.add_zero _) hexplored
  obtain ⟨m, hm, hreach⟩ := hstart
  obtain ⟨nodes, htrail, hlen⟩ := exists_long_trail hexplored' (hmem (by decide)) hreach
    (fun a ha hreach' => hfirst a ha ⟨m, hm, hreach'⟩) (hsettled'.not_mem hd hdS m hm)
  exact absurd (hlasts nodes m htrail (hdS m hm)) (Nat.not_lt.2 hlen)

end

end Walk

end GrammarLab
