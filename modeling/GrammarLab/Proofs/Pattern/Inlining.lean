import GrammarLab.Proofs.Pattern.Layout
import GrammarLab.Proofs.Pattern.Matching

/-!
# Rules that are inlined

The expression of a rule has the symbols of every rule that it reaches, each in a group. A rule
that closes the groups that it opens is an expression there as it is alone. One that does not can
still close the group around it and open another: behind `A : B ;` and `B : 'a' ) ( 'b' ;` the
first rule compiles and the second does not.

    g.compileRule a = .ok p → TransGen (Refers g) a b → (compiles alone ↔ its parentheses match)
-/

namespace GrammarLab.Pattern

open Body Regex Relation

section

variable {g : Grammar} {c : Compiler} {a b : String} {t u : Spelling} {xs ys : List Symbol}
  {r : Rule} {p : Pattern} {whole : Parsed}

/-- The symbols of a rule stand in those of every rule that reaches it. -/
theorem infix_of_reaches (ha : IsSpelling g a t) (hx : symbols? t.text = some xs)
    (hab : TransGen (Refers g) a b) :
    ∃ u ys, IsSpelling g b u ∧ symbols? u.text = some ys ∧
      (.groupOpen :: ys ++ [.groupClose]) <:+: xs := by
  induction hab with
  | single hab =>
    obtain ⟨r, hr, -, ht⟩ := ha
    obtain ⟨r', hr', hb⟩ := hab
    obtain rfl := Option.some.inj (hr.symm.trans hr')
    exact infix_of_identifier ht hb hx
  | tail _ hmb ih =>
    obtain ⟨v, zs, ⟨r, hr, -, hv⟩, hz, hin⟩ := ih
    obtain ⟨r', hr', hb⟩ := hmb
    obtain rfl := Option.some.inj (hr.symm.trans hr')
    obtain ⟨u, ys, hu, hy, hinner⟩ := infix_of_identifier hv hb hz
    have hzs : zs <:+: .groupOpen :: zs ++ [.groupClose] := ⟨[.groupOpen], [.groupClose], rfl⟩
    exact ⟨u, ys, hu, hy, (hinner.trans hzs).trans hin⟩

/-- All rules that the name reaches close the parentheses that they open. -/
def MatchBelow (g : Grammar) (name : String) : Prop :=
  ∀ b r, TransGen (Refers g) name b → g.rule? b = some r → ParensMatch r.definition

theorem MatchBelow.of_refers (h : MatchBelow g a) (hab : Refers g a b) : MatchBelow g b :=
  fun m r hbm hr => h m r (.head hab hbm) hr

theorem matchBelow_of_refers (h : ∀ m, Refers g b m →
    (∀ r, g.rule? m = some r → ParensMatch r.definition) ∧ MatchBelow g m) : MatchBelow g b := by
  intro m r hbm hr
  obtain ⟨k, hbk, hkm⟩ := TransGen.head'_iff.1 hbm
  obtain ⟨hk, hbelow⟩ := h k hbk
  rcases reflTransGen_iff_eq_or_transGen.1 hkm with rfl | hkm
  · exact hk r hr
  · exact hbelow m r hkm hr

/-- Below rules that match, the groups of a rule are its own parentheses. The induction goes down
the references, which come to an end. -/
theorem neutral_iff_parensMatch (hb : IsSpelling g b u) (hr : g.rule? b = some r)
    (hy : symbols? u.text = some ys) (hbelow : MatchBelow g b) :
    Neutral ys ↔ ParensMatch r.definition := by
  induction acc_of_isSpelling hb generalizing u r ys with
  | intro b _ ih =>
    obtain ⟨r', hr', -, hu⟩ := hb
    obtain rfl := Option.some.inj (hr.symm.trans hr')
    have hinner : ∀ m ∈ identifiers r.definition, ∀ v zs, IsSpelling g m v →
        symbols? v.text = some zs → Neutral zs := by
      intro m hm v zs hv hz
      have hbm : Refers g b m := ⟨r, hr, hm⟩
      obtain ⟨s, hs, -, -⟩ := id hv
      exact (ih m hbm hv hs hz (hbelow.of_refers hbm)).2 (hbelow m s (.single hbm) hs)
    have hnesting := nesting?_of_body hu hy hinner 0
    constructor
    · intro hneutral
      show (freeTokens (significant r.definition)).foldlM parenNest? 0 = some 0
      rw [← hnesting]
      exact hneutral 0
    · intro hmatch
      apply neutral_of_nesting?
      rw [hnesting]
      exact hmatch

/-- A group is an expression of its own iff it closes the groups that it opens. -/
theorem exists_parse?_iff (hwhole : assemble? xs = some whole) (hdepth : whole.depth ≤ maxDepth)
    (hy : symbols? u.text = some ys) (hin : (.groupOpen :: ys ++ [.groupClose]) <:+: xs) :
    (∃ q, parse? u.text = some q) ↔ Neutral ys := by
  constructor
  · rintro ⟨q, hq⟩
    obtain ⟨zs, hz, hassemble, -⟩ := parse?_eq_some_iff.1 hq
    obtain rfl := Option.some.inj (hy.symm.trans hz)
    exact neutral_of_assemble? hassemble
  · intro hneutral
    obtain ⟨q, hassemble, hlt⟩ := exists_assemble?_of_group hneutral hin hwhole
    exact ⟨q, parse?_eq_some_iff.2 ⟨ys, hy, hassemble, by omega⟩⟩

theorem exists_compileRule_iff (hc : Idle g c) :
    (∃ q, (Compiler.compileRule g b c).1 = .ok q) ↔
      ∃ u, IsSpelling g b u ∧ ∃ q, parse? u.text = some q := by
  constructor
  · rintro ⟨p, hp⟩
    obtain ⟨u, hu, hpattern⟩ := exists_spelling_of_compileRule hc.reached hp
    exact ⟨u, hu, _, (ofSpelling_eq_ok hpattern).2.1⟩
  · rintro ⟨u, hu, q, hq⟩
    have hpattern : ∃ p, ofSpelling u = .ok p := by
      unfold ofSpelling
      rw [hq]
      exact ⟨_, rfl⟩
    obtain ⟨p, hp⟩ := hpattern
    refine ⟨p, ?_⟩
    show (Compiler.spellRule g b c).1.bind ofSpelling = .ok p
    rw [(hc.spellRule_eq_ok_iff b u).2 hu]
    exact hp

/-- A rule below which all parentheses match compiles iff its own parentheses match, provided that
a rule that inlines it compiles. -/
theorem exists_compileRule_iff_parensMatch {d : Compiler} (hc : Idle g c) (hd : Idle g d)
    (ha : (Compiler.compileRule g a c).1 = .ok p) (hab : TransGen (Refers g) a b)
    (hr : g.rule? b = some r) (hbelow : MatchBelow g b) :
    (∃ q, (Compiler.compileRule g b d).1 = .ok q) ↔ ParensMatch r.definition := by
  obtain ⟨t, ht, hpattern⟩ := exists_spelling_of_compileRule hc.reached ha
  obtain ⟨-, hparse, -⟩ := ofSpelling_eq_ok hpattern
  obtain ⟨xs, hx, hassemble, hdepth⟩ := parse?_eq_some_iff.1 hparse
  obtain ⟨u, ys, hu, hy, hin⟩ := infix_of_reaches ht hx hab
  have hone : (∃ v, IsSpelling g b v ∧ ∃ q, parse? v.text = some q) ↔
      ∃ q, parse? u.text = some q := by
    constructor
    · rintro ⟨v, hv, hq⟩
      rwa [hu.unique hv]
    · exact fun hq => ⟨u, hu, hq⟩
  rw [exists_compileRule_iff hd, hone, exists_parse?_iff hassemble hdepth hy hin]
  exact neutral_iff_parensMatch hu hr hy hbelow

end

/-- If a rule compiles, then all the rules that it reaches compile iff the parentheses of each of
them match; and where a rule is the first whose parentheses do not match, seen from below, it does
not compile. It makes no difference what the compilers were asked before. -/
theorem inlined_compile_iff {g : Grammar} {c d : Compiler} {a : String} {p : Pattern}
    (hc : Idle g c) (hd : Idle g d) (ha : (Compiler.compileRule g a c).1 = .ok p) :
    ((∀ b, TransGen (Refers g) a b → ∃ q, (Compiler.compileRule g b d).1 = .ok q) ↔
      MatchBelow g a) ∧
    ∀ b r, TransGen (Refers g) a b → g.rule? b = some r → MatchBelow g b →
      ((∃ q, (Compiler.compileRule g b d).1 = .ok q) ↔ ParensMatch r.definition) := by
  have hsingle : ∀ b r, TransGen (Refers g) a b → g.rule? b = some r → MatchBelow g b →
      ((∃ q, (Compiler.compileRule g b d).1 = .ok q) ↔ ParensMatch r.definition) :=
    fun b r hab hr hbelow => exists_compileRule_iff_parensMatch hc hd ha hab hr hbelow
  refine ⟨⟨fun hall => ?_, fun hmatch b hab => ?_⟩, hsingle⟩
  · have hboth : ∀ b, TransGen (Refers g) a b →
        (∀ r, g.rule? b = some r → ParensMatch r.definition) ∧ MatchBelow g b := by
      intro b hab
      obtain ⟨q, hq⟩ := hall b hab
      obtain ⟨u, hu, -⟩ := exists_spelling_of_compileRule hd.reached hq
      -- when a rule has its turn, all rules that it reaches are known to match
      induction acc_of_isSpelling hu generalizing q u with
      | intro b _ ih =>
        have hbelow : MatchBelow g b := by
          apply matchBelow_of_refers
          intro m hbm
          obtain ⟨q', hq'⟩ := hall m (hab.tail hbm)
          obtain ⟨v, hv, -⟩ := exists_spelling_of_compileRule hd.reached hq'
          exact ih m hbm (hab.tail hbm) q' hq' v hv
        exact ⟨fun r hr => (hsingle b r hab hr hbelow).1 ⟨q, hq⟩, hbelow⟩
    intro b r hab hr
    exact (hboth b hab).1 r hr
  · obtain ⟨t, ht, -⟩ := exists_spelling_of_compileRule hc.reached ha
    obtain ⟨u, r, hr, -, -⟩ := exists_isSpelling_of_reaches ht hab.to_reflTransGen
    refine (hsingle b r hab hr fun m s hbm hs => ?_).2 (hmatch b r hab hr)
    exact hmatch m s (hab.trans hbm) hs

/-- A rule that closes the group around it and opens another, and a rule that inlines it. -/
def spilledGrammar : Grammar where
  rules := [
    { name := "A", isFragment := false, definition := "B".toList,
      lineNumber := 1, bodyLine := 1, endLine := 1, referencedRules := ["B"], mode := none },
    { name := "B", isFragment := false, definition := "'a' ) ( 'b'".toList,
      lineNumber := 2, bodyLine := 2, endLine := 2, referencedRules := [], mode := none }]

theorem compileRule_spilledGrammar : (∃ p, spilledGrammar.compileRule "A" = .ok p) ∧
    TransGen (Refers spilledGrammar) "A" "B" ∧
    ¬∃ q, spilledGrammar.compileRule "B" = .ok q := by
  have hvalue : (spilledGrammar.compileRule "A").toOption.isSome = true := by decide +kernel
  have hab : TransGen (Refers spilledGrammar) "A" "B" := .single ⟨_, rfl, by decide +kernel⟩
  have hB : ∃ r, spilledGrammar.rule? "B" = some r ∧ identifiers r.definition = [] ∧
      ¬ParensMatch r.definition := ⟨_, rfl, by decide +kernel, by decide +kernel⟩
  obtain ⟨r, hr, hnone, hmatch⟩ := hB
  have hbelow : MatchBelow spilledGrammar "B" := by
    apply matchBelow_of_refers
    rintro m ⟨r', hr', hm⟩
    obtain rfl := Option.some.inj (hr.symm.trans hr')
    rw [hnone] at hm
    cases hm
  cases hp : spilledGrammar.compileRule "A" with
  | error e => simp [hp, Except.toOption] at hvalue
  | ok p =>
    refine ⟨⟨p, rfl⟩, hab, fun hq => hmatch ?_⟩
    exact ((inlined_compile_iff (idle_start _) (idle_start _) hp).2 "B" r hab hr hbelow).1 hq

end GrammarLab.Pattern
