import Mathlib.Data.List.Perm.Subperm
import Mathlib.Logic.Relation
import GrammarLab.Proofs.Pattern.Compiler
import GrammarLab.Proofs.Pattern.Identifiers

/-!
# What a compiler remembers

A compiler keeps what it finds out about rules. That changes no success: a rule has a spelling iff
every rule that it reaches is a lexer rule of the grammar with a translatable body and does not reach
itself, whatever the compiler was asked before. A success is the spelling of the rule at any time. A
failure depends on the rules in progress, so it is kept only where there are none.

    IsSpellable g name ↔ ∃ t, (spellRule g name c).1 = .ok t       for any state c between calls
                                                                  (spellRule_after_calls)
-/

namespace GrammarLab.Pattern

open Body Relation

/-! ## Rules that have a spelling -/

/-- The rule of the first name has the second one as an identifier. -/
def Refers (g : Grammar) (a b : String) : Prop :=
  ∃ r, g.rule? a = some r ∧ b ∈ identifiers r.definition

/-- A lexer rule of the grammar whose own tokens can be translated. -/
def IsReadable (g : Grammar) (name : String) : Prop :=
  ∃ r, g.rule? name = some r ∧ r.isLexer = true ∧ IsTranslatable r.definition

/-- All that the rule reaches is readable, the rule itself included, and none of it reaches
itself. -/
def IsSpellable (g : Grammar) (name : String) : Prop :=
  ∀ m, ReflTransGen (Refers g) name m → IsReadable g m ∧ ¬TransGen (Refers g) m m

section

variable {g : Grammar} {a b name : String} {ps : List Piece} {t : Spelling}

theorem IsSpellable.of_refers (h : IsSpellable g a) (hab : Refers g a b) : IsSpellable g b :=
  fun m hm => h m (hm.head hab)

theorem Assembled.not_failure (h : Assembled g ps t) : ∀ e, .failure e ∉ ps := by
  induction h with
  | nil => simp
  | text _ ih => simpa using ih
  | lazyText _ ih => simpa using ih
  | reference _ _ _ _ _ ih => simpa using ih

theorem Assembled.exists_isSpelling (h : Assembled g ps t) (hname : .reference name ∈ ps) :
    ∃ u, IsSpelling g name u := by
  induction h with
  | nil => simp at hname
  | text _ ih => exact ih (by simpa using hname)
  | lazyText _ ih => exact ih (by simpa using hname)
  | reference hr hl ht _ _ ih =>
    rcases List.mem_cons.1 hname with heq | hname
    · obtain rfl := Piece.reference.inj heq
      exact ⟨_, _, hr, hl, ht⟩
    · exact ih hname

theorem isReadable_of_isSpelling (h : IsSpelling g name t) : IsReadable g name := by
  obtain ⟨r, hr, hl, ht⟩ := h
  exact ⟨r, hr, hl, isTranslatable_iff.2 ht.not_failure⟩

/-- What a readable rule refers to stands in its pieces. -/
theorem reference_mem_pieces {r : Rule} (hr : g.rule? a = some r)
    (ht : IsTranslatable r.definition) (h : Refers g a b) :
    .reference b ∈ pieces (significant r.definition) := by
  obtain ⟨r', hr', hb⟩ := h
  obtain rfl := Option.some.inj (hr.symm.trans hr')
  exact (mem_identifiers_iff ht).1 hb

theorem exists_isSpelling_of_refers (h : IsSpelling g a t) (hab : Refers g a b) :
    ∃ u, IsSpelling g b u := by
  obtain ⟨r, hr, hl, ht⟩ := h
  exact ht.exists_isSpelling (reference_mem_pieces hr (isTranslatable_iff.2 ht.not_failure) hab)

theorem exists_isSpelling_of_reaches (h : IsSpelling g a t) (hab : ReflTransGen (Refers g) a b) :
    ∃ u, IsSpelling g b u := by
  induction hab with
  | refl => exact ⟨t, h⟩
  | tail _ hstep ih =>
    obtain ⟨u, hu⟩ := ih
    exact exists_isSpelling_of_refers hu hstep

/-- A spelling is put together from below, so references in it lead to an end. -/
theorem Assembled.acc (h : Assembled g ps t) :
    ∀ name, .reference name ∈ ps → Acc (fun b a => Refers g a b) name := by
  induction h with
  | nil => simp
  | text _ ih => simpa using ih
  | lazyText _ ih => simpa using ih
  | reference hr _ ht _ iht ihu =>
    intro name hname
    rcases List.mem_cons.1 hname with heq | hname
    · obtain rfl := Piece.reference.inj heq
      exact .intro _ fun b hb =>
        iht b (reference_mem_pieces hr (isTranslatable_iff.2 ht.not_failure) hb)
    · exact ihu name hname

theorem not_transGen_of_acc (h : Acc (fun b a => Refers g a b) name) :
    ¬TransGen (Refers g) name name := by
  induction h with
  | intro a _ ih =>
    intro hcycle
    obtain ⟨b, hab, hba⟩ := TransGen.head'_iff.1 hcycle
    exact ih b hab (.tail' hba hab)

theorem isSpellable_of_isSpelling (h : IsSpelling g name t) : IsSpellable g name := by
  intro m hm
  obtain ⟨u, hu⟩ := exists_isSpelling_of_reaches h hm
  have hread := isReadable_of_isSpelling hu
  obtain ⟨r, hr, -, ht⟩ := hu
  refine ⟨hread, not_transGen_of_acc (.intro _ fun b hb => ?_)⟩
  exact ht.acc b (reference_mem_pieces hr (isTranslatable_iff.2 ht.not_failure) hb)

end

/-! ## Runs that come back -/

/-- Failures are known only of rules that have no spelling. -/
def Honest (g : Grammar) (c : Compiler) : Prop :=
  ∀ name e, (name, .error e) ∈ c.known → ¬IsSpellable g name

/-- Begun with the rules `stack` in progress, the run ends so, keeps the compiler honest, and
succeeds if `P` holds. -/
def Settles (g : Grammar) (stack : List String) (P : Prop)
    (x : Compiling (Except PatternError Spelling)) : Prop :=
  ∀ c, c.inProgress = stack → Honest g c →
    ((x c).2.inProgress = stack ∧ Honest g (x c).2) ∧ (P → ∃ t, (x c).1 = .ok t)

section

variable {g : Grammar} {stack : List String} {P Q : Prop}
  {x : Compiling (Except PatternError Spelling)}

theorem Settles.imp (h : Settles g stack P x) (hPQ : Q → P) : Settles g stack Q x :=
  fun c hstack hc => ⟨(h c hstack hc).1, fun hQ => (h c hstack hc).2 (hPQ hQ)⟩

theorem settles_ok (t : Spelling) : Settles g stack P (pure (.ok t)) :=
  fun _ hstack hc => ⟨⟨hstack, hc⟩, fun _ => ⟨t, rfl⟩⟩

theorem settles_error (e : PatternError) (h : ¬P) : Settles g stack P (pure (.error e)) :=
  fun _ hstack hc => ⟨⟨hstack, hc⟩, fun hP => absurd hP h⟩

/-- A run that goes on behind a success. -/
theorem Settles.bind {f : Except PatternError Spelling → Compiling (Except PatternError Spelling)}
    (hx : Settles g stack P x) (hok : ∀ t, Settles g stack Q (f (.ok t)))
    (herror : ∀ e, f (.error e) = pure (.error e)) : Settles g stack (P ∧ Q) (x >>= f) := by
  intro c hstack hc
  obtain ⟨⟨hstack', hc'⟩, hsuccess⟩ := hx c hstack hc
  change (((f (x c).1) (x c).2).2.inProgress = stack ∧ Honest g ((f (x c).1) (x c).2).2) ∧
    (P ∧ Q → ∃ t, ((f (x c).1) (x c).2).1 = .ok t)
  cases hfirst : (x c).1 with
  | ok t => exact ((hok t).imp And.right) _ hstack' hc'
  | error e =>
    rw [herror e]
    refine ⟨⟨hstack', hc'⟩, fun h => ?_⟩
    obtain ⟨t, ht⟩ := hsuccess h.1
    simp [hfirst] at ht

variable {resolve : String → Compiling (Except PatternError Spelling)} {R : String → Prop}

theorem settles_spell_piece (hresolve : ∀ name, Settles g stack (R name) (resolve name))
    (p : Piece) :
    Settles g stack ((∀ e, p ≠ .failure e) ∧ ∀ name, p = .reference name → R name)
      (p.spell resolve) := by
  cases p with
  | text s => exact settles_ok _
  | lazyText s => exact settles_ok _
  | reference name =>
    have hrun : Settles g stack (R name ∧ True) (Piece.spell resolve (.reference name)) :=
      (hresolve name).bind (fun t => settles_ok _) fun e => rfl
    exact hrun.imp fun h => ⟨h.2 name rfl, trivial⟩
  | failure e => exact settles_error e fun h => h.1 e rfl

theorem settles_assemble (hresolve : ∀ name, Settles g stack (R name) (resolve name))
    (ps : List Piece) :
    Settles g stack ((∀ e, .failure e ∉ ps) ∧ ∀ name, .reference name ∈ ps → R name)
      (assemble resolve ps) := by
  induction ps with
  | nil => exact settles_ok _
  | cons p ps ih =>
    have hrun : Settles g stack (_ ∧ _ ∧ True) (assemble resolve (p :: ps)) :=
      (settles_spell_piece hresolve p).bind
        (fun t => ih.bind (fun u => settles_ok _) fun e => rfl) fun e => rfl
    refine hrun.imp fun ⟨hfailure, hreference⟩ => ⟨⟨?_, ?_⟩, ⟨?_, ?_⟩, trivial⟩
    · exact fun e he => hfailure e (he ▸ List.mem_cons_self)
    · exact fun name hname => hreference name (hname ▸ List.mem_cons_self)
    · exact fun e he => hfailure e (List.mem_cons_of_mem _ he)
    · exact fun name hname => hreference name (List.mem_cons_of_mem _ hname)

end

/-! ## Spelling a rule -/

/-- The rules in progress are different rules of the grammar, and the fuel lasts for all others. -/
structure Lasts (g : Grammar) (fuel : Nat) (stack : List String) : Prop where
  nodup : stack.Nodup
  known : stack ⊆ g.rules.map (·.name)
  length_lt : g.rules.length < fuel + stack.length

section

variable {g : Grammar} {fuel : Nat} {name : String} {c : Compiler} {stack : List String}

theorem lasts_start (g : Grammar) : Lasts g (g.rules.length + 1) [] := ⟨by simp, by simp, by simp⟩

theorem Lasts.fuel_pos (h : Lasts g fuel stack) : 0 < fuel := by
  have hle := (List.subperm_of_subset h.nodup h.known).length_le
  have hlt := h.length_lt
  rw [List.length_map] at hle
  omega

theorem Lasts.enter {r : Rule} (h : Lasts g (fuel + 1) stack) (hnew : name ∉ stack)
    (hr : g.rule? name = some r) : Lasts g fuel (name :: stack) where
  nodup := List.nodup_cons.2 ⟨hnew, h.nodup⟩
  known := List.cons_subset.2 ⟨List.mem_map.2 ⟨r, List.mem_of_find?_eq_some hr,
    Grammar.name_of_rule? hr⟩, h.known⟩
  length_lt := by
    have hlt := h.length_lt
    rw [List.length_cons]
    omega

/-- What is known is given away, a name that is refused fails, and any other is spelled between an
entrance and a leave. -/
theorem spellWith_succ (fuel : Nat) (name : String) (c : Compiler) :
    Compiler.spellWith g (fuel + 1) name c =
      match c.known.lookup name with
      | some x => (x, c)
      | none =>
        match c.body g name with
        | .error e => (.error e, c)
        | .ok definition =>
          let run := spell (Compiler.spellWith g fuel) definition (c.enter name)
          (run.1, run.2.leave name run.1) := by
  simp only [Compiler.spellWith, bind, StateT.bind, get, getThe, MonadStateOf.get, StateT.get, pure]
  cases c.known.lookup name with
  | some x => rfl
  | none => cases c.body g name <;> rfl

theorem not_mem_of_body {definition : List Char} (h : c.body g name = .ok definition) :
    name ∉ c.inProgress := by
  intro hmem
  simp [Compiler.body, hmem] at h

/-- Nothing but a cycle stands in the way of a readable rule. -/
theorem mem_of_refused {e : PatternError} (h : c.body g name = .error e) (hread : IsReadable g name) :
    name ∈ c.inProgress := by
  obtain ⟨r, hr, hl, -⟩ := hread
  by_contra hmem
  simp [Compiler.body, hmem, hr, hl] at h

theorem Honest.leave {x : Except PatternError Spelling} (hc : Honest g c)
    (hx : c.inProgress.tail = [] → ∀ e, x = .error e → ¬IsSpellable g name) :
    Honest g (c.leave name x) := by
  intro name' e' hmem
  simp only [Compiler.leave] at hmem
  split at hmem
  · rename_i hkept
    rcases List.mem_cons.1 hmem with heq | hmem
    · obtain ⟨rfl, rfl⟩ := Prod.mk.inj heq
      refine hx ?_ e' rfl
      simpa [Compiler.isSuccess] using hkept
    · exact hc name' e' hmem
  · exact hc name' e' hmem

/-- What a spellable rule refers to is spellable again and reaches no rule in progress. -/
theorem pieces_of_isSpellable {r : Rule} (hr : g.rule? name = some r) (h : IsSpellable g name)
    (hfree : ∀ k ∈ stack, ¬ReflTransGen (Refers g) name k) :
    (∀ e, .failure e ∉ pieces (significant r.definition)) ∧
      ∀ m, .reference m ∈ pieces (significant r.definition) →
        IsSpellable g m ∧ ∀ k ∈ name :: stack, ¬ReflTransGen (Refers g) m k := by
  obtain ⟨⟨r', hr', -, ht⟩, hcycle⟩ := h name .refl
  obtain rfl := Option.some.inj (hr.symm.trans hr')
  refine ⟨isTranslatable_iff.1 ht, fun m hm => ?_⟩
  have hrefers : Refers g name m := ⟨r, hr, (mem_identifiers_iff ht).2 hm⟩
  refine ⟨h.of_refers hrefers, List.forall_mem_cons.2 ⟨fun hback => ?_, fun k hk hreach => ?_⟩⟩
  · exact hcycle (.head' hrefers hback)
  · exact hfree k hk (hreach.head hrefers)

/-- A spellable rule that reaches none of the rules in progress gets its spelling. -/
theorem settles_spellWith (hlasts : Lasts g fuel stack) (name : String) :
    Settles g stack (IsSpellable g name ∧ ∀ k ∈ stack, ¬ReflTransGen (Refers g) name k)
      (Compiler.spellWith g fuel name) := by
  induction fuel generalizing stack name with
  | zero => exact absurd hlasts.fuel_pos (Nat.lt_irrefl 0)
  | succ fuel ih =>
    intro c hstack hc
    rw [spellWith_succ]
    cases hlook : c.known.lookup name with
    | some x =>
      refine ⟨⟨hstack, hc⟩, fun ⟨hspellable, _⟩ => ?_⟩
      cases x with
      | ok t => exact ⟨t, rfl⟩
      | error e =>
        obtain ⟨before, behind, hknown, -⟩ := List.lookup_eq_some_iff.1 hlook
        exact absurd hspellable (hc name e (by rw [hknown]; simp))
    | none =>
      cases hbody : c.body g name with
      | error e =>
        refine ⟨⟨hstack, hc⟩, fun ⟨hspellable, hfree⟩ => ?_⟩
        have hmem := mem_of_refused hbody (hspellable name .refl).1
        exact absurd .refl (hfree name (hstack ▸ hmem))
      | ok definition =>
        obtain ⟨r, hr, -, rfl⟩ := body_eq_ok hbody
        have hlasts' := hlasts.enter (hstack ▸ not_mem_of_body hbody) hr
        obtain ⟨⟨hstack', hc'⟩, hsuccess⟩ := settles_assemble (ih hlasts')
          (pieces (significant r.definition)) (c.enter name) (congrArg (name :: ·) hstack) hc
        have hsuccess' := fun h : IsSpellable g name ∧ ∀ k ∈ stack, ¬ReflTransGen (Refers g) name k =>
          hsuccess (pieces_of_isSpellable hr h.1 h.2)
        refine ⟨⟨?_, hc'.leave fun hempty e he hspellable => ?_⟩, hsuccess'⟩
        · exact congrArg List.tail hstack'
        · -- with nothing else in progress the rule has failed by itself
          obtain rfl : stack = [] := by simpa [hstack'] using hempty
          obtain ⟨t, ht⟩ := hsuccess' ⟨hspellable, by simp⟩
          exact absurd (he.symm.trans ht) (by simp)

end

/-! ## Calls -/

/-- What a compiler is asked for. -/
inductive Call
  | rule (name : String)
  | pattern (body : List Char)
  | compile (name : String)

/-- The state behind a call. -/
def Call.after (g : Grammar) (c : Compiler) : Call → Compiler
  | .rule name => (Compiler.spellRule g name c).2
  | .pattern body => (Compiler.spellPattern g body c).2
  | .compile name => (Compiler.compileRule g name c).2

section

variable {g : Grammar} {c : Compiler}

theorem settles_spellRule (name : String) :
    Settles g [] (IsSpellable g name) (Compiler.spellRule g name) :=
  (settles_spellWith (lasts_start g) name).imp fun h => ⟨h, by simp⟩

/-- The states between calls. -/
structure Idle (g : Grammar) (c : Compiler) : Prop where
  reached : Reached g c
  inProgress_eq : c.inProgress = []
  honest : Honest g c

theorem idle_start (g : Grammar) : Idle g {} := ⟨.start, rfl, by simp [Honest]⟩

theorem Idle.after (h : Idle g c) (call : Call) : Idle g (call.after g c) := by
  cases call with
  | rule name =>
    obtain ⟨⟨hstack, hc⟩, -⟩ := settles_spellRule name c h.inProgress_eq h.honest
    exact ⟨h.reached.rule name, hstack, hc⟩
  | compile name =>
    obtain ⟨⟨hstack, hc⟩, -⟩ := settles_spellRule name c h.inProgress_eq h.honest
    exact ⟨reached_compileRule name h.reached, hstack, hc⟩
  | pattern body =>
    obtain ⟨⟨hstack, hc⟩, -⟩ := settles_assemble settles_spellRule
      (pieces (significant body)) c h.inProgress_eq h.honest
    exact ⟨h.reached.pattern body, hstack, hc⟩

theorem Idle.foldl (h : Idle g c) (calls : List Call) : Idle g (calls.foldl (Call.after g) c) :=
  List.foldlRecOn (motive := Idle g) _ _ h fun _ hc call _ => hc.after call

/-- Between calls the compiler finds a spelling iff there is one. -/
theorem Idle.spellRule_eq_ok_iff (h : Idle g c) (name : String) (t : Spelling) :
    (Compiler.spellRule g name c).1 = .ok t ↔ IsSpelling g name t := by
  refine ⟨isSpelling_of_spellRule h.reached, fun ht => ?_⟩
  obtain ⟨u, hu⟩ := (settles_spellRule name c h.inProgress_eq h.honest).2
    (isSpellable_of_isSpelling ht)
  obtain ⟨r, hr, -, ht⟩ := ht
  obtain ⟨r', hr', -, ht'⟩ := isSpelling_of_spellRule h.reached hu
  obtain rfl := Option.some.inj (hr.symm.trans hr')
  rw [hu, ht.unique ht']

end

/-- Whatever a compiler was asked for before, nothing is left in progress, and a rule gets the
spelling that a new compiler gives it. It gets one iff all the rules that it reaches, itself
included, can be read and none of them reaches itself. -/
theorem spellRule_after_calls (g : Grammar) (calls : List Call) :
    let c := calls.foldl (Call.after g) {}
    c.inProgress = [] ∧
      (∀ name t, (Compiler.spellRule g name c).1 = .ok t ↔
        (Compiler.spellRule g name {}).1 = .ok t) ∧
      ∀ name, (∃ t, (Compiler.spellRule g name c).1 = .ok t) ↔ IsSpellable g name := by
  intro c
  have hc : Idle g c := (idle_start g).foldl calls
  refine ⟨hc.inProgress_eq, fun name t => ?_, fun name => ⟨?_, fun h => ?_⟩⟩
  · rw [hc.spellRule_eq_ok_iff, (idle_start g).spellRule_eq_ok_iff]
  · rintro ⟨t, ht⟩
    exact isSpellable_of_isSpelling ((hc.spellRule_eq_ok_iff name t).1 ht)
  · exact (settles_spellRule name c hc.inProgress_eq hc.honest).2 h

end GrammarLab.Pattern
