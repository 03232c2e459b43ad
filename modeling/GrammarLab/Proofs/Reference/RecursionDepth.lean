import GrammarLab.Proofs.Cycle.Components
import GrammarLab.Proofs.Reference.Views
import GrammarLab.Reference.Recursion

/-!
# Shortest cycles of references

The search for the way back to a rule ends, and what it found last is the shortest cycle through the
rule, if that is within the cap. Each number of steps that it keeps is that of a way, so a cycle it
finds is one. It passes by no shorter cycle: a rule that was reached is pending still, or all its
references are settled for the steps it was reached in.

    nothing is pending → rule leads back to itself in n ≤ cap steps → s.FoundWithin n
                                                                  (Search.Complete.foundWithin)
    g.recursionDepth rule cap = the length of a shortest cycle through the rule, if at most cap
                                                                  (recursionDepth_eq_girth)
-/

namespace GrammarLab

namespace ReferenceGraph

/-! ## Ways and cycles -/

/-- One rule names another one, or itself. -/
def Refers (g : ReferenceGraph) (a b : String) : Prop := b ∈ g.successors a

/-- `g.Leads a n b`: some way of `n` references leads from `a` to `b`. -/
inductive Leads (g : ReferenceGraph) (a : String) : Nat → String → Prop
  | here : Leads g a 0 a
  | next {n b c} : Leads g a n b → g.Refers b c → Leads g a (n + 1) c

/-- A cycle of references through the rule: other rules once each, from the rule on and back. -/
structure IsCycleFrom (g : ReferenceGraph) (rule : String) (c : List String) : Prop where
  starts : c.head? = some rule
  nodup : c.Nodup
  refers : (c ++ [rule]).IsChain g.Refers

section

variable {g : ReferenceGraph} {a b rule : String} {n : Nat} {c : List String}

theorem isSelfReferencing_iff : g.isSelfReferencing rule = true ↔ g.Refers rule rule := by
  simp [isSelfReferencing, Refers]

theorem Leads.of_isChain {names : List String} (h : (a :: names).IsChain g.Refers) :
    g.Leads a names.length ((a :: names).getLast (by simp)) := by
  induction names using List.reverseRecOn with
  | nil => exact .here
  | append_singleton names b ih =>
    rw [← List.cons_append, List.isChain_append] at h
    obtain ⟨hnames, -, hlast⟩ := h
    have hrefers := hlast _ (List.getLast_mem_getLast? (by simp)) b rfl
    simpa using (ih hnames).next hrefers

theorem IsCycleFrom.leads (h : g.IsCycleFrom rule c) : g.Leads rule c.length rule := by
  obtain ⟨names, rfl⟩ : ∃ names, c = rule :: names := by
    cases c with
    | nil => simpa using h.starts
    | cons a names => exact ⟨names, by simpa using h.starts⟩
  have hway := Leads.of_isChain (by simpa using h.refers)
  simpa using hway

/-- A way that goes through no rule twice, the latest rule first, is not longer. -/
theorem Leads.exists_nodup (h : g.Leads a n b) : ∃ names, (b :: names).Nodup ∧
    (b :: names).IsChain (fun b a => g.Refers a b) ∧ (b :: names).getLast? = some a ∧
      names.length ≤ n := by
  induction h with
  | here => exact ⟨[], by simp, .singleton _, rfl, Nat.le_refl _⟩
  | @next n b c _ hrefers ih =>
    obtain ⟨names, hnodup, hchain, hlast, hlength⟩ := ih
    by_cases hc : c ∈ b :: names
    · -- the way comes back to a rule: what lies between is left out
      obtain ⟨p, q, hsplit⟩ := List.append_of_mem hc
      have hshort : p.length + (q.length + 1) = names.length + 1 := by
        rw [← List.length_cons, ← List.length_append, ← hsplit, List.length_cons]
      rw [hsplit] at hnodup hchain hlast
      exact ⟨q, hnodup.of_append_right, hchain.right_of_append, by simpa using hlast, by omega⟩
    · exact ⟨b :: names, List.nodup_cons.2 ⟨hc, hnodup⟩, .cons_cons hrefers hchain,
        by simpa using hlast, by simpa using hlength⟩

/-- Where a way leads back to the rule, a cycle does that is not longer. -/
theorem Leads.exists_isCycleFrom (h : g.Leads rule n rule) (hn : 0 < n) :
    ∃ c, g.IsCycleFrom rule c ∧ c.length ≤ n := by
  cases h with
  | here => omega
  | @next n b _ hway hback =>
    obtain ⟨names, hnodup, hchain, hlast, hlength⟩ := hway.exists_nodup
    refine ⟨(b :: names).reverse, ⟨?_, List.nodup_reverse.2 hnodup, ?_⟩, ?_⟩
    · rw [List.head?_reverse, hlast]
    · rw [← List.reverse_cons, List.isChain_reverse]
      exact .cons_cons hback hchain
    · simpa using hlength

end

/-! ## What a search knows -/

namespace Search

/-- A cycle of at most `n` steps is known. -/
def FoundWithin (s : Search) (n : Nat) : Prop := ∃ k ≤ n, s.shortest = some k

/-- The rule was reached in at most `n` steps. -/
def ReachedWithin (s : Search) (name : String) (n : Nat) : Prop := ∃ k ≤ n, s.steps? name = some k

/-- What the search keeps are lengths of ways, and of ways back to the rule within the cap. -/
structure Sound (g : ReferenceGraph) (rule : String) (cap : Nat) (s : Search) : Prop where
  pending : ∀ p ∈ s.pending, g.Leads rule p.2 p.1 ∧ (p.1 = rule ∨ p.2 < cap)
  shortest : ∀ n, s.shortest = some n → 0 < n ∧ n ≤ cap ∧ g.Leads rule n rule

/-- The rule is known to be `n` steps away. -/
def IsKnown (rule : String) (s : Search) (name : String) (n : Nat) : Prop :=
  (name = rule ∧ n = 0) ∨ (name ≠ rule ∧ s.steps? name = some n)

/-- Nothing is lost when the reference from `node` to `next` is not followed (again) in `n` steps. -/
def Settled (rule : String) (cap : Nat) (s : Search) (node : String) (n : Nat)
    (next : String) : Prop :=
  next = node ∨ s.FoundWithin n ∨ (next ≠ rule ∧ (cap ≤ n ∨ s.ReachedWithin next n))

/-- What is known is on the list, or all references from there are settled. -/
def Complete (g : ReferenceGraph) (rule : String) (cap : Nat) (s : Search)
    (todo : List (String × Nat)) : Prop :=
  ∀ name n, s.IsKnown rule name n → (name, n) ∈ todo ∨
    ∀ next, g.Refers name next → s.Settled rule cap name (n + 1) next

section

variable {g : ReferenceGraph} {rule node next name : String} {cap steps n : Nat} {s : Search}

/-! ## One reference -/

theorem prunes_iff : s.prunes cap name n = true ↔
    cap ≤ n ∨ s.FoundWithin n ∨ s.ReachedWithin name n := by
  simp [prunes, FoundWithin, ReachedWithin, Option.any_eq_true, or_assoc, and_comm]

/-- What following a reference comes to. -/
theorem follow_cases (rule : String) (cap : Nat) (node : String) (steps : Nat) (s : Search)
    (next : String) :
    (follow rule cap node steps s next = s ∧ s.Settled rule cap node (steps + 1) next) ∨
    (next = rule ∧ next ≠ node ∧ follow rule cap node steps s next = s.close (steps + 1)) ∨
    (next ≠ rule ∧ steps + 1 < cap ∧ ¬s.ReachedWithin next (steps + 1) ∧
      follow rule cap node steps s next = s.push next (steps + 1)) := by
  unfold follow
  split
  · exact .inl ⟨rfl, .inl ‹_›⟩
  rename_i hnode
  split
  · exact .inr (.inl ⟨‹_›, hnode, rfl⟩)
  rename_i hrule
  split
  · rename_i hprunes
    refine .inl ⟨rfl, .inr ?_⟩
    obtain hcap | hfound | hreached := prunes_iff.1 hprunes
    · exact .inr ⟨hrule, .inl hcap⟩
    · exact .inl hfound
    · exact .inr ⟨hrule, .inr hreached⟩
  · rename_i hprunes
    rw [prunes_iff, not_or, not_or, Nat.not_le] at hprunes
    exact .inr (.inr ⟨hrule, hprunes.1, hprunes.2.2, rfl⟩)

theorem foundWithin_close : (s.close n).FoundWithin n := by
  cases h : s.shortest <;> simp [FoundWithin, close, h]

theorem FoundWithin.close (h : s.FoundWithin n) (steps : Nat) : (s.close steps).FoundWithin n := by
  obtain ⟨k, hk, hs⟩ := h
  exact ⟨min k steps, by omega, by simp [Search.close, hs]⟩

/-- A rule that is reached again is reached in fewer steps. -/
theorem ReachedWithin.push {other : String} (h : s.ReachedWithin name n)
    (hnew : ¬s.ReachedWithin other steps) : (s.push other steps).ReachedWithin name n := by
  obtain ⟨k, hk, hs⟩ := h
  by_cases hname : name = other
  · subst hname
    have hless : steps < k := Nat.lt_of_not_le fun hle => hnew ⟨k, hle, hs⟩
    exact ⟨steps, by omega, by simp [steps?_push]⟩
  · exact ⟨k, hk, by simp [steps?_push, hname, hs]⟩

/-- What is settled stays so. -/
theorem Settled.follow {other source : String} {k : Nat} (h : s.Settled rule cap name n other)
    (next : String) : (follow rule cap source k s next).Settled rule cap name n other := by
  obtain ⟨heq, -⟩ | ⟨-, -, heq⟩ | ⟨-, -, hnew, heq⟩ := follow_cases rule cap source k s next
  · rwa [heq]
  · rw [heq]
    exact h.imp_right (Or.imp_left (·.close _))
  · rw [heq]
    exact h.imp_right (Or.imp_right (And.imp_right (Or.imp_right (·.push hnew))))

theorem settled_follow (rule : String) (cap : Nat) (node : String) (steps : Nat) (s : Search)
    (next : String) :
    (follow rule cap node steps s next).Settled rule cap node (steps + 1) next := by
  obtain ⟨heq, hsettled⟩ | ⟨-, -, heq⟩ | ⟨hrule, -, -, heq⟩ :=
    follow_cases rule cap node steps s next
  · rwa [heq]
  · rw [heq]
    exact .inr (.inl foundWithin_close)
  · rw [heq]
    exact .inr (.inr ⟨hrule, .inr ⟨steps + 1, Nat.le_refl _, by simp [steps?_push]⟩⟩)

theorem Sound.follow (h : s.Sound g rule cap) (hnode : g.Leads rule steps node)
    (hcap : node = rule ∨ steps < cap) (hnext : g.Refers node next) :
    (follow rule cap node steps s next).Sound g rule cap := by
  have hway : g.Leads rule (steps + 1) next := hnode.next hnext
  obtain ⟨heq, -⟩ | ⟨rfl, hne, heq⟩ | ⟨-, hless, -, heq⟩ := follow_cases rule cap node steps s next
  · rwa [heq]
  · rw [heq]
    refine ⟨h.pending, fun n hn => ?_⟩
    have hsteps : steps < cap := hcap.resolve_left (Ne.symm hne)
    cases hshortest : s.shortest with
    | none =>
      obtain rfl : steps + 1 = n := by simpa [close, hshortest] using hn
      exact ⟨by omega, by omega, hway⟩
    | some k =>
      obtain rfl : min k (steps + 1) = n := by simpa [close, hshortest] using hn
      rcases Nat.le_total k (steps + 1) with hle | hle
      · rw [Nat.min_eq_left hle]
        exact h.shortest k hshortest
      · rw [Nat.min_eq_right hle]
        exact ⟨by omega, by omega, hway⟩
  · rw [heq]
    exact ⟨List.forall_mem_cons.2 ⟨⟨hway, .inr hless⟩, h.pending⟩, h.shortest⟩

theorem Complete.follow (h : s.Complete g rule cap ((name, n) :: s.pending))
    (next : String) : (follow rule cap node steps s next).Complete g rule cap
      ((name, n) :: (follow rule cap node steps s next).pending) := by
  intro other k hknown
  have hold : s.IsKnown rule other k → (other, k) ∈ (name, n) :: s.pending ∨ ∀ next',
      g.Refers other next' →
        (Search.follow rule cap node steps s next).Settled rule cap other (k + 1) next' :=
    fun hk => (h other k hk).imp_right fun hsettled next' hnext' =>
      (hsettled next' hnext').follow next
  obtain ⟨heq, -⟩ | ⟨-, -, heq⟩ | ⟨hrule, -, -, heq⟩ := follow_cases rule cap node steps s next
  · rw [heq] at hknown hold ⊢
    exact hold hknown
  · rw [heq] at hknown hold ⊢
    exact hold hknown
  · rw [heq] at hknown hold ⊢
    by_cases hother : other = next
    · -- the rule that was just reached is pending
      subst hother
      obtain ⟨-, hsteps⟩ := hknown.resolve_left fun h => hrule h.1
      obtain rfl : steps + 1 = k := by simpa [steps?_push] using hsteps
      exact .inl (by simp [push])
    · have hsame : s.IsKnown rule other k := by
        simpa [IsKnown, steps?_push, hother] using hknown
      refine (hold hsame).imp_left fun hmem => ?_
      simp only [push, List.mem_cons] at hmem ⊢
      tauto

/-! ## A round -/

theorem round_of_pending {rest : List (String × Nat)} (h : s.pending = (node, steps) :: rest) :
    s.round g rule cap =
      (g.successors node).foldl (Search.follow rule cap node steps) { s with pending := rest } := by
  rw [round, h]

/-- What a search keeps from round to round. -/
structure Inv (g : ReferenceGraph) (rule : String) (cap : Nat) (s : Search) : Prop where
  sound : s.Sound g rule cap
  complete : s.Complete g rule cap s.pending

theorem inv_start (g : ReferenceGraph) (rule : String) (cap : Nat) :
    (start rule).Inv g rule cap where
  sound := ⟨by simp [start, Leads.here], by simp [start]⟩
  complete := by
    rintro name n (⟨rfl, rfl⟩ | ⟨-, hsteps⟩)
    · exact .inl (by simp [start])
    · simp [start, steps?] at hsteps

theorem Inv.round (h : s.Inv g rule cap) : (s.round g rule cap).Inv g rule cap := by
  cases hpending : s.pending with
  | nil => rwa [Search.round, hpending]
  | cons p rest =>
    obtain ⟨node, steps⟩ := p
    have hmem : (node, steps) ∈ s.pending := hpending ▸ List.mem_cons_self
    obtain ⟨hway, hcap⟩ := h.sound.pending _ hmem
    have hrest : Search.Sound g rule cap { s with pending := rest } :=
      ⟨fun p hp => h.sound.pending p (hpending ▸ List.mem_cons_of_mem _ hp), h.sound.shortest⟩
    have hall := Walk.foldl_forall
      (P := fun s => s.Sound g rule cap ∧ s.Complete g rule cap ((node, steps) :: s.pending))
      (Q := fun next s => s.Settled rule cap node (steps + 1) next)
      (Search.follow rule cap node steps) (g.successors node) { s with pending := rest }
      ⟨hrest, hpending ▸ h.complete⟩
      (fun next next' s hsettled => hsettled.follow next')
      (fun next hnext s ⟨hsound, hcomplete⟩ =>
        ⟨⟨hsound.follow hway hcap hnext, hcomplete.follow next⟩, settled_follow ..⟩)
    rw [← round_of_pending hpending] at hall
    obtain ⟨⟨hsound, hcomplete⟩, hsettled⟩ := hall
    refine ⟨hsound, fun name n hknown => ?_⟩
    rcases hcomplete name n hknown with hmem | hdone
    · rcases List.mem_cons.1 hmem with heq | hmem
      · obtain ⟨rfl, rfl⟩ := Prod.mk.inj heq
        exact .inr hsettled
      · exact .inl hmem
    · exact .inr hdone

/-! ## A run -/

theorem Inv.run (h : s.Inv g rule cap) : (s.run g rule cap).Inv g rule cap := by
  fun_induction Search.run g rule cap s with
  | case1 => exact h
  | case2 s _ ih => exact ih h.round

theorem pending_run (g : ReferenceGraph) (rule : String) (cap : Nat) (s : Search) :
    (s.run g rule cap).pending = [] := by
  fun_induction Search.run g rule cap s with
  | case1 s h => exact h
  | case2 s _ ih => exact ih

/-- A run is a number of rounds. -/
theorem exists_run_eq (g : ReferenceGraph) (rule : String) (cap : Nat) (s : Search) :
    ∃ rounds, s.run g rule cap = (Search.round g rule cap)^[rounds] s := by
  fun_induction Search.run g rule cap s with
  | case1 s => exact ⟨0, rfl⟩
  | case2 s _ ih =>
    obtain ⟨rounds, heq⟩ := ih
    exact ⟨rounds + 1, heq⟩

theorem FoundWithin.mono {k : Nat} (h : s.FoundWithin n) (hle : n ≤ k) : s.FoundWithin k :=
  let ⟨m, hm, hs⟩ := h
  ⟨m, Nat.le_trans hm hle, hs⟩

/-- Behind the last round a way of fewer than `k` steps leads to a rule that is known to be as near,
or a cycle of `k` steps has been found. -/
theorem Complete.isKnown_of_leads {k : Nat} (h : s.Complete g rule cap []) (hk : k ≤ cap)
    (hway : g.Leads rule n name) (hn : n < k) :
    s.FoundWithin k ∨ ∃ d ≤ n, s.IsKnown rule name d := by
  induction hway with
  | here => exact .inr ⟨0, Nat.le_refl _, .inl ⟨rfl, rfl⟩⟩
  | @next n b c _ hrefers ih =>
    obtain hfound | ⟨d, hd, hknown⟩ := ih (by omega)
    · exact .inl hfound
    have hall := (h b d hknown).resolve_left List.not_mem_nil
    obtain rfl | hfound | ⟨hrule, hcap | ⟨m, hm, hsteps⟩⟩ := hall c hrefers
    · exact .inr ⟨d, by omega, hknown⟩
    · exact .inl (hfound.mono (by omega))
    · omega
    · exact .inr ⟨m, by omega, .inr ⟨hrule, hsteps⟩⟩

theorem Complete.foundWithin (h : s.Complete g rule cap []) (hself : ¬g.Refers rule rule)
    (hway : g.Leads rule n rule) (hpos : 0 < n) (hn : n ≤ cap) : s.FoundWithin n := by
  cases hway with
  | here => omega
  | @next n b _ hway hback =>
    obtain hfound | ⟨d, hd, hknown⟩ := h.isKnown_of_leads hn hway (Nat.lt_succ_self n)
    · exact hfound
    have hall := (h b d hknown).resolve_left List.not_mem_nil
    obtain rfl | hfound | ⟨hrule, -⟩ := hall rule hback
    · exact absurd hback hself
    · exact hfound.mono (by omega)
    · exact absurd rfl hrule

end

end Search

/-! ## The depth of a rule -/

section

variable {g : ReferenceGraph} {rule : String} {cap : Nat}

theorem recursionDepth_of_isSelfReferencing (h : g.isSelfReferencing rule = true) :
    g.recursionDepth rule cap = cap := by
  rw [recursionDepth, if_pos h]

theorem recursionDepth_eq_getD (h : ¬g.Refers rule rule) :
    g.recursionDepth rule cap = ((Search.start rule).run g rule cap).shortest.getD 0 := by
  rw [recursionDepth, if_neg (mt isSelfReferencing_iff.1 h)]

theorem complete_run (g : ReferenceGraph) (rule : String) (cap : Nat) :
    ((Search.start rule).run g rule cap).Complete g rule cap [] := by
  have hinv := (Search.inv_start g rule cap).run
  rw [← Search.pending_run g rule cap (Search.start rule)]
  exact hinv.complete

/-- A cycle that no other is shorter than has the length that the search comes to. -/
theorem recursionDepth_of_isCycleFrom (hself : ¬g.Refers rule rule) {c : List String}
    (hc : g.IsCycleFrom rule c) (hcap : c.length ≤ cap)
    (hleast : ∀ c', g.IsCycleFrom rule c' → c.length ≤ c'.length) :
    g.recursionDepth rule cap = c.length := by
  have hpos : 0 < c.length := List.length_pos_iff.2 fun hnil => by simpa [hnil] using hc.starts
  obtain ⟨n, hn, hshortest⟩ := (complete_run g rule cap).foundWithin hself hc.leads hpos hcap
  obtain ⟨hnpos, -, hway⟩ := (Search.inv_start g rule cap).run.sound.shortest n hshortest
  obtain ⟨c', hc', hlength⟩ := hway.exists_isCycleFrom hnpos
  have hless := hleast c' hc'
  rw [recursionDepth_eq_getD hself, hshortest, Option.getD_some]
  omega

theorem recursionDepth_eq_zero (hself : ¬g.Refers rule rule)
    (hlong : ∀ c, g.IsCycleFrom rule c → cap < c.length) : g.recursionDepth rule cap = 0 := by
  rw [recursionDepth_eq_getD hself]
  cases hshortest : ((Search.start rule).run g rule cap).shortest with
  | none => rfl
  | some n =>
    obtain ⟨hpos, hn, hway⟩ := (Search.inv_start g rule cap).run.sound.shortest n hshortest
    obtain ⟨c, hc, hlength⟩ := hway.exists_isCycleFrom hpos
    have hless := hlong c hc
    omega

end

/-- The search for the way back to a rule ends. The depth of a rule that names itself is the cap;
that of another rule is the length of a shortest cycle through it, if this is at most the cap, and 0
if there is none so short. -/
theorem recursionDepth_eq_girth (g : ReferenceGraph) (rule : String) (cap : Nat) :
    (∃ rounds, ((Search.round g rule cap)^[rounds] (Search.start rule)).pending = []) ∧
    (g.Refers rule rule → g.recursionDepth rule cap = cap) ∧
    (¬g.Refers rule rule →
      (∀ c, g.IsCycleFrom rule c → c.length ≤ cap →
        (∀ c', g.IsCycleFrom rule c' → c.length ≤ c'.length) →
          g.recursionDepth rule cap = c.length) ∧
      ((∀ c, g.IsCycleFrom rule c → cap < c.length) → g.recursionDepth rule cap = 0)) := by
  refine ⟨?_, fun h => recursionDepth_of_isSelfReferencing (isSelfReferencing_iff.2 h),
    fun hself => ⟨fun c hc hcap hleast => recursionDepth_of_isCycleFrom hself hc hcap hleast,
      recursionDepth_eq_zero hself⟩⟩
  obtain ⟨rounds, heq⟩ := Search.exists_run_eq g rule cap (Search.start rule)
  exact ⟨rounds, heq ▸ Search.pending_run g rule cap _⟩

end ReferenceGraph

end GrammarLab
