import GrammarLab.Proofs.Pattern.Layout
import GrammarLab.Proofs.Pattern.Matching

/-!
# The flag for lazy quantifiers

A pattern is flagged as lazy by the lazy quantifiers among the tokens of its body and of the bodies
that are inlined. Its expression has all of these, and besides them those that are made of two
tokens: the body `'a' * ?` is not flagged, but written as `(?:a)*?`.

    (Compiler.compileRule g name c).1 = .ok p →
      (p.regex.hasLazy = true ↔ p.isLazy = true ∨ FusesWithin g name)              (hasLazy_iff)
-/

namespace GrammarLab.Pattern

open Body Regex Relation

/-- Two tokens make one lazy quantifier in the body of a rule that the name reaches. -/
def FusesWithin (g : Grammar) (name : String) : Prop :=
  ∃ b r, ReflTransGen (Refers g) name b ∧ g.rule? b = some r ∧ Fuses r.definition

section

variable {g : Grammar} {c : Compiler} {name : String} {body : List Char} {t : Spelling}
  {xs : List Symbol} {q : Parsed}

theorem fusesWithin_iff {r : Rule} (hr : g.rule? name = some r) :
    FusesWithin g name ↔ Fuses r.definition ∨ ∃ b ∈ identifiers r.definition, FusesWithin g b := by
  constructor
  · rintro ⟨b, s, hreach, hs, hfuses⟩
    rcases ReflTransGen.cases_head_iff.1 hreach with rfl | ⟨m, ⟨r', hr', hm⟩, hmb⟩
    · obtain rfl := Option.some.inj (hr.symm.trans hs)
      exact .inl hfuses
    · obtain rfl := Option.some.inj (hr.symm.trans hr')
      exact .inr ⟨m, hm, b, s, hmb, hs, hfuses⟩
  · rintro (hfuses | ⟨m, hm, b, s, hmb, hs, hfuses⟩)
    · exact ⟨name, r, .refl, hr, hfuses⟩
    · exact ⟨b, s, .head ⟨r, hr, hm⟩ hmb, hs, hfuses⟩

/-- If the flags of the rules that a body refers to miss nothing but what is made of two tokens, so
does its own. -/
theorem lazy_iff_of_references (h : Assembled g (pieces (significant body)) t)
    (hx : symbols? t.text = some xs)
    (hreferences : ∀ b ∈ identifiers body, ∀ v ys, IsSpelling g b v → symbols? v.text = some ys →
      ((∃ q, .quantifier q true ∈ ys) ↔ v.isLazy = true ∨ FusesWithin g b)) :
    (∃ q, .quantifier q true ∈ xs) ↔
      t.isLazy = true ∨ Fuses body ∨ ∃ b ∈ identifiers body, FusesWithin g b := by
  have hinlined : (∃ b ∈ identifiers body, ∃ v, IsSpelling g b v ∧ ReadsLazy v.text) ↔
      (∃ b ∈ identifiers body, ∃ v, IsSpelling g b v ∧ v.isLazy = true) ∨
        ∃ b ∈ identifiers body, FusesWithin g b := by
    constructor
    · rintro ⟨b, hb, v, hv, ys, hy, hlazy⟩
      rcases (hreferences b hb v ys hv hy).1 hlazy with hflag | hfuses
      · exact .inl ⟨b, hb, v, hv, hflag⟩
      · exact .inr ⟨b, hb, hfuses⟩
    · intro hlazy
      obtain ⟨b, hb, hcause⟩ : ∃ b ∈ identifiers body,
          (∃ v, IsSpelling g b v ∧ v.isLazy = true) ∨ FusesWithin g b := by
        rcases hlazy with ⟨b, hb, hv⟩ | ⟨b, hb, hfuses⟩
        · exact ⟨b, hb, .inl hv⟩
        · exact ⟨b, hb, .inr hfuses⟩
      obtain ⟨v, ys, hv, hy, -⟩ := infix_of_identifier h hb hx
      refine ⟨b, hb, v, hv, ys, hy, (hreferences b hb v ys hv hy).2 ?_⟩
      rcases hcause with ⟨w, hw, hflag⟩ | hfuses
      · rw [hv.unique hw]
        exact .inl hflag
      · exact .inr hfuses
  rw [readsLazy_iff_of_body h hx, hinlined, isLazy_iff_of_body h, or_assoc]
  exact or_congr_right or_left_comm

/-- The induction goes down the references, which come to an end. -/
theorem lazy_iff_of_isSpelling (h : IsSpelling g name t) (hx : symbols? t.text = some xs) :
    (∃ q, .quantifier q true ∈ xs) ↔ t.isLazy = true ∨ FusesWithin g name := by
  induction acc_of_isSpelling h generalizing t xs with
  | intro name _ ih =>
    obtain ⟨r, hr, hl, ht⟩ := h
    rw [fusesWithin_iff hr]
    exact lazy_iff_of_references ht hx fun b hb v ys hv hy => ih b ⟨r, hr, hb⟩ hv hy

/-! ## Expressions -/

theorem hasLazy_iff_of_body (h : Assembled g (pieces (significant body)) t)
    (hq : parse? t.text = some q) : q.regex.hasLazy = true ↔
      t.isLazy = true ∨ Fuses body ∨ ∃ b ∈ identifiers body, FusesWithin g b := by
  obtain ⟨xs, hx, hassemble, -⟩ := parse?_eq_some_iff.1 hq
  rw [hasLazy_of_assemble? hassemble]
  exact lazy_iff_of_references h hx fun b _ v ys hv hy => lazy_iff_of_isSpelling hv hy

/-- The answer to a reference of a pattern that belongs to no grammar. -/
def unanswered (name : String) : Id (Except PatternError Spelling) :=
  pure (.error (.unsupported (.loose name)))

theorem assemble_cons_eq_ok {p : Piece} {ps : List Piece}
    (h : assemble unanswered (p :: ps) = .ok t) :
    ∃ v u, p.spell unanswered = .ok v ∧ assemble unanswered ps = .ok u ∧
      t = ⟨v.text ++ u.text, v.isLazy || u.isLazy⟩ := by
  simp only [assemble, bind, pure] at h
  cases hv : p.spell unanswered with
  | error e =>
    rw [hv] at h
    cases h
  | ok v =>
    cases hu : assemble unanswered ps with
    | error e =>
      rw [hv, hu] at h
      cases h
    | ok u =>
      rw [hv, hu] at h
      exact ⟨v, u, rfl, rfl, (Except.ok.inj h).symm⟩

/-- What is spelled without a grammar refers to nothing. -/
theorem assembled_of_unanswered {ps : List Piece} (h : assemble unanswered ps = .ok t) :
    Assembled g ps t ∧ ∀ name, .reference name ∉ ps := by
  induction ps generalizing t with
  | nil =>
    obtain rfl := Except.ok.inj h
    exact ⟨.nil, by simp⟩
  | cons p ps ih =>
    obtain ⟨v, u, hv, hu, rfl⟩ := assemble_cons_eq_ok h
    obtain ⟨hps, hnone⟩ := ih hu
    cases p with
    | text s =>
      obtain rfl := Except.ok.inj hv
      exact ⟨.text hps, by simpa using hnone⟩
    | lazyText s =>
      obtain rfl := Except.ok.inj hv
      exact ⟨.lazyText hps, by simpa using hnone⟩
    | reference name => cases hv
    | failure e => cases hv

theorem assembled_of_spellAlone (h : spellAlone body = .ok t) :
    Assembled g (pieces (significant body)) t ∧ identifiers body = [] := by
  obtain ⟨hassembled, hnone⟩ := assembled_of_unanswered (g := g) h
  refine ⟨hassembled, List.eq_nil_iff_forall_not_mem.2 fun name hname => ?_⟩
  exact hnone name ((mem_identifiers_iff (isTranslatable_iff.2 hassembled.not_failure)).1 hname)

end

/-- The expression of a pattern has a lazy quantifier iff the pattern is flagged as lazy or two
tokens make one, be it in the pattern itself or in a rule that is inlined. This holds of the rules
of a grammar whatever the compiler was asked before, of patterns written in the grammar, and of
those that stand alone. -/
theorem hasLazy_iff {g : Grammar} {c : Compiler} (hc : Reached g c) :
    (∀ name p, (Compiler.compileRule g name c).1 = .ok p →
      (p.regex.hasLazy = true ↔ p.isLazy = true ∨ FusesWithin g name)) ∧
    (∀ body p, (Compiler.spellPattern g body c).1.bind ofSpelling = .ok p →
      (p.regex.hasLazy = true ↔
        p.isLazy = true ∨ Fuses body ∨ ∃ b ∈ identifiers body, FusesWithin g b)) ∧
    ∀ body p, Pattern.compile body = .ok p →
      (p.regex.hasLazy = true ↔ p.isLazy = true ∨ Fuses body) := by
  refine ⟨fun name p hp => ?_, fun body p hp => ?_, fun body p hp => ?_⟩
  · obtain ⟨t, ⟨r, hr, -, ht⟩, hpattern⟩ := exists_spelling_of_compileRule hc hp
    obtain ⟨hlazy, hparse, -⟩ := ofSpelling_eq_ok hpattern
    rw [hlazy, fusesWithin_iff hr]
    exact hasLazy_iff_of_body ht hparse
  · obtain ⟨t, ht, hpattern⟩ := bind_eq_ok.1 hp
    obtain ⟨hlazy, hparse, -⟩ := ofSpelling_eq_ok hpattern
    rw [hlazy]
    have hassembled := (ensures_assemble (ensures_spellWith _) _ c (sound_of_reached hc)).2 t ht
    exact hasLazy_iff_of_body hassembled hparse
  · obtain ⟨t, ht, hpattern⟩ := bind_eq_ok.1 hp
    obtain ⟨hlazy, hparse, -⟩ := ofSpelling_eq_ok hpattern
    obtain ⟨hassembled, hnone⟩ := assembled_of_spellAlone (g := g) ht
    rw [hlazy, hasLazy_iff_of_body hassembled hparse, hnone]
    simp

/-- A rule with a star and a question mark next to each other, and a rule that inlines it. -/
def starGrammar : Grammar where
  rules := [
    { name := "WORD", isFragment := false, definition := "LETTERS '!'".toList,
      lineNumber := 1, bodyLine := 1, endLine := 1, referencedRules := ["LETTERS"], mode := none },
    { name := "LETTERS", isFragment := true, definition := "[a-z] * ?".toList,
      lineNumber := 2, bodyLine := 2, endLine := 2, referencedRules := [], mode := none }]

theorem hasLazy_starGrammar : ∃ p, (Compiler.compileRule starGrammar "WORD" {}).1 = .ok p ∧
    p.regex.hasLazy = true ∧ p.isLazy = false ∧ FusesWithin starGrammar "WORD" := by
  have hvalue : (Compiler.compileRule starGrammar "WORD" {}).1.toOption.map
      (fun p => (p.regex.hasLazy, p.isLazy)) = some (true, false) := by decide +kernel
  cases hp : (Compiler.compileRule starGrammar "WORD" {}).1 with
  | error e => simp [hp, Except.toOption] at hvalue
  | ok p =>
    have hlazy : p.regex.hasLazy = true ∧ p.isLazy = false := by
      simpa [hp, Except.toOption] using hvalue
    refine ⟨p, rfl, hlazy.1, hlazy.2, ?_⟩
    have hcause := ((hasLazy_iff .start).1 "WORD" p hp).1 hlazy.1
    simpa [hlazy.2] using hcause

end GrammarLab.Pattern
