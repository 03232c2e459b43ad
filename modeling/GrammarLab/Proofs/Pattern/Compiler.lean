import GrammarLab.Pattern.Compiler

/-!
# What the compiler finds out

A rule has at most one spelling, that of its body with the spellings of other rules in it. The
compiler gives away and keeps no other, in whatever order it is asked for rules.

    (Compiler.spellRule g name c).1 = .ok t → IsSpelling g name t       (isSpelling_of_spellRule)
-/

namespace GrammarLab.Pattern

open Body

/-- `Assembled g ps t`: the pieces have the spelling `t`, where references stand for the bodies of
lexer rules. -/
inductive Assembled (g : Grammar) : List Piece → Spelling → Prop
  | nil : Assembled g [] ⟨[], false⟩
  | text {s ps u} : Assembled g ps u → Assembled g (.text s :: ps) ⟨s ++ u.text, u.isLazy⟩
  | lazyText {s ps u} : Assembled g ps u → Assembled g (.lazyText s :: ps) ⟨s ++ u.text, true⟩
  | reference {name r ps t u} : g.rule? name = some r → r.isLexer = true →
      Assembled g (pieces (significant r.definition)) t → Assembled g ps u →
      Assembled g (.reference name :: ps) ⟨grouped t.text ++ u.text, t.isLazy || u.isLazy⟩

/-- The rule of the name has the spelling. -/
def IsSpelling (g : Grammar) (name : String) (t : Spelling) : Prop :=
  ∃ r, g.rule? name = some r ∧ r.isLexer = true ∧ Assembled g (pieces (significant r.definition)) t

/-- A success that is the spelling of the rule, or a failure. -/
def Holds (g : Grammar) (name : String) (x : Except PatternError Spelling) : Prop :=
  ∀ t, x = .ok t → IsSpelling g name t

/-- All that the compiler knows holds. -/
def Sound (g : Grammar) (c : Compiler) : Prop := ∀ entry ∈ c.known, Holds g entry.1 entry.2

/-- The states that a compiler of the grammar goes through. -/
inductive Reached (g : Grammar) : Compiler → Prop
  | start : Reached g {}
  | rule {c} (name : String) : Reached g c → Reached g (Compiler.spellRule g name c).2
  | pattern {c} (body : List Char) : Reached g c → Reached g (Compiler.spellPattern g body c).2

variable {g : Grammar}

theorem reached_compileRule {c : Compiler} (name : String) (h : Reached g c) :
    Reached g (Compiler.compileRule g name c).2 := .rule name h

theorem Assembled.unique {ps : List Piece} {t u : Spelling} (ht : Assembled g ps t)
    (hu : Assembled g ps u) : t = u := by
  induction ht generalizing u with
  | nil =>
    cases hu
    rfl
  | text _ ih =>
    cases hu with
    | text hu => rw [ih hu]
  | lazyText _ ih =>
    cases hu with
    | lazyText hu => rw [ih hu]
  | reference hr _ _ _ iht ihu =>
    cases hu with
    | reference hr' _ ht hu =>
      obtain rfl := Option.some.inj (hr.symm.trans hr')
      rw [iht ht, ihu hu]

/-! ## Runs that keep the compiler sound -/

/-- From a sound state the run goes to a sound state, and its result satisfies `Q`. -/
def Ensures (g : Grammar) {α : Type} (x : Compiling α) (Q : α → Prop) : Prop :=
  ∀ c, Sound g c → Sound g (x c).2 ∧ Q (x c).1

section

variable {α β : Type}

theorem ensures_pure {Q : α → Prop} {a : α} (h : Q a) : Ensures g (pure a) Q := fun _ hc => ⟨hc, h⟩

theorem Ensures.bind {P : α → Prop} {Q : β → Prop} {x : Compiling α} {f : α → Compiling β}
    (hx : Ensures g x P) (hf : ∀ a, P a → Ensures g (f a) Q) : Ensures g (x >>= f) Q := by
  intro c hc
  obtain ⟨hs, ha⟩ := hx c hc
  exact hf (x c).1 ha (x c).2 hs

theorem ensures_get : Ensures g (get : Compiling Compiler) (Sound g) := fun _ hc => ⟨hc, hc⟩

theorem ensures_modify {f : Compiler → Compiler} (h : ∀ c, Sound g c → Sound g (f c)) :
    Ensures g (modify f : Compiling PUnit) fun _ => True := fun c hc => ⟨h c hc, trivial⟩

end

theorem sound_enter (name : String) {c : Compiler} (hc : Sound g c) : Sound g (c.enter name) := hc

theorem sound_leave {name : String} {x : Except PatternError Spelling} {c : Compiler}
    (hx : Holds g name x) (hc : Sound g c) : Sound g (c.leave name x) := by
  simp only [Compiler.leave]
  split
  · exact List.forall_mem_cons.2 ⟨hx, hc⟩
  · exact hc

theorem holds_lookup {name : String} {x : Except PatternError Spelling} {c : Compiler}
    (hc : Sound g c) (h : c.known.lookup name = some x) : Holds g name x := by
  obtain ⟨before, behind, hknown, -⟩ := List.lookup_eq_some_iff.1 h
  exact hc (name, x) (by rw [hknown]; simp)

theorem ensures_spell_piece {resolve : String → Compiling (Except PatternError Spelling)}
    (hr : ∀ name, Ensures g (resolve name) (Holds g name)) (p : Piece) :
    Ensures g (p.spell resolve) fun x => ∀ t, x = .ok t → ∀ ps u, Assembled g ps u →
      Assembled g (p :: ps) ⟨t.text ++ u.text, t.isLazy || u.isLazy⟩ := by
  cases p with
  | text s =>
    refine ensures_pure ?_
    rintro t ht ps u hu
    obtain rfl := Except.ok.inj ht
    exact .text hu
  | lazyText s =>
    refine ensures_pure ?_
    rintro t ht ps u hu
    obtain rfl := Except.ok.inj ht
    exact .lazyText hu
  | reference name =>
    refine (hr name).bind fun x hx => ?_
    cases x with
    | error e => exact ensures_pure (by simp)
    | ok t =>
      refine ensures_pure ?_
      rintro t' ht' ps u hu
      obtain rfl := Except.ok.inj ht'
      obtain ⟨r, hrule, hl, ht⟩ := hx t rfl
      exact .reference hrule hl ht hu
  | failure e => exact ensures_pure (by simp)

theorem ensures_assemble {resolve : String → Compiling (Except PatternError Spelling)}
    (hr : ∀ name, Ensures g (resolve name) (Holds g name)) (ps : List Piece) :
    Ensures g (assemble resolve ps) fun x => ∀ t, x = .ok t → Assembled g ps t := by
  induction ps with
  | nil =>
    refine ensures_pure ?_
    rintro t ht
    obtain rfl := Except.ok.inj ht
    exact .nil
  | cons p ps ih =>
    refine (ensures_spell_piece hr p).bind fun x hx => ?_
    cases x with
    | error e => exact ensures_pure (by simp)
    | ok t =>
      refine ih.bind fun y hy => ?_
      cases y with
      | error e => exact ensures_pure (by simp)
      | ok u =>
        refine ensures_pure ?_
        rintro v hv
        obtain rfl := Except.ok.inj hv
        exact hx t rfl ps u (hy u rfl)

theorem body_eq_ok {c : Compiler} {name : String} {definition : List Char}
    (h : c.body g name = .ok definition) :
    ∃ r, g.rule? name = some r ∧ r.isLexer = true ∧ r.definition = definition := by
  unfold Compiler.body at h
  split at h
  · simp at h
  split at h
  · simp at h
  · rename_i r hr
    split at h
    · rename_i hl
      exact ⟨r, hr, hl, Except.ok.inj h⟩
    · simp at h

theorem ensures_spellWith (fuel : Nat) (name : String) :
    Ensures g (Compiler.spellWith g fuel name) (Holds g name) := by
  induction fuel generalizing name with
  | zero => exact ensures_pure (by simp [Holds])
  | succ fuel ih =>
    refine ensures_get.bind fun c hc => ?_
    cases hlook : c.known.lookup name with
    | some x => exact ensures_pure (holds_lookup hc hlook)
    | none =>
      cases hbody : c.body g name with
      | error e => exact ensures_pure (by simp [Holds])
      | ok definition =>
        obtain ⟨r, hr, hl, rfl⟩ := body_eq_ok hbody
        refine (ensures_modify fun _ => sound_enter name).bind fun _ _ => ?_
        refine (ensures_assemble ih _).bind fun x hx => ?_
        have hholds : Holds g name x := fun t ht => ⟨r, hr, hl, hx t ht⟩
        exact (ensures_modify fun _ h => sound_leave hholds h).bind fun _ _ => ensures_pure hholds

theorem sound_of_reached {c : Compiler} (h : Reached g c) : Sound g c := by
  induction h with
  | start => simp [Sound]
  | rule name _ ih => exact (ensures_spellWith _ name _ ih).1
  | pattern body _ ih => exact (ensures_assemble (ensures_spellWith _) _ _ ih).1

/-! ## Results -/

theorem isSpelling_of_spellRule {c : Compiler} {name : String} {t : Spelling} (hc : Reached g c)
    (h : (Compiler.spellRule g name c).1 = .ok t) : IsSpelling g name t :=
  (ensures_spellWith _ name c (sound_of_reached hc)).2 t h

/-- A compiled rule has the expression of its spelling. -/
theorem exists_spelling_of_compileRule {c : Compiler} {name : String} {p : Pattern}
    (hc : Reached g c) (h : (Compiler.compileRule g name c).1 = .ok p) :
    ∃ t, IsSpelling g name t ∧ ofSpelling t = .ok p := by
  change (Compiler.spellRule g name c).1.bind ofSpelling = .ok p at h
  cases hx : (Compiler.spellRule g name c).1 with
  | error e => simp [hx, Except.bind] at h
  | ok t =>
    rw [hx] at h
    exact ⟨t, isSpelling_of_spellRule hc hx, h⟩

/-! ## Several rules -/

/-- The outcomes for several rules, from any state on. -/
def outcomes (g : Grammar) (rules : List Rule) (c : Compiler) :
    List (Except PatternError Pattern) :=
  ((rules.mapM fun r => Compiler.compileRule g r.name) c).1

theorem outcomes_cons (r : Rule) (rules : List Rule) (c : Compiler) :
    outcomes g (r :: rules) c = (Compiler.compileRule g r.name c).1 ::
      outcomes g rules (Compiler.compileRule g r.name c).2 := by
  rw [outcomes, List.mapM_cons]
  rfl

theorem length_outcomes (rules : List Rule) (c : Compiler) :
    (outcomes g rules c).length = rules.length := by
  induction rules generalizing c with
  | nil => rfl
  | cons r rules ih => rw [outcomes_cons, List.length_cons, ih, List.length_cons]

theorem map_fst_compileRules (rules : List Rule) : (g.compileRules rules).map (·.1) = rules := by
  rw [Grammar.compileRules, List.map_fst_zip]
  exact Nat.le_of_eq (length_outcomes rules {}).symm

/-- Each rule is compiled in one of the states gone through. -/
theorem exists_state_of_mem_compileRules {rules : List Rule} {entry : CompiledRule}
    (h : entry ∈ g.compileRules rules) :
    ∃ c, Reached g c ∧ (Compiler.compileRule g entry.1.name c).1 = entry.2 := by
  have key : ∀ c, Reached g c → entry ∈ rules.zip (outcomes g rules c) →
      ∃ c, Reached g c ∧ (Compiler.compileRule g entry.1.name c).1 = entry.2 := by
    clear h
    induction rules with
    | nil => simp
    | cons r rules ih =>
      intro c hc h
      rw [outcomes_cons, List.zip_cons_cons] at h
      rcases List.mem_cons.1 h with rfl | h
      · exact ⟨c, hc, rfl⟩
      · exact ih _ (reached_compileRule r.name hc) h
  exact key {} .start h

end GrammarLab.Pattern
