import GrammarLab.Proofs.Pattern.Compiler
import GrammarLab.Proofs.Pattern.Matching
import GrammarLab.Proofs.Pattern.Translation

/-!
# Patterns of rules match what the rules mean

The spelling of a rule is read back as an expression that matches what the rule means, provided
that the rule and all that it inlines are their own written form.

    IsSpelling g name t → Written g name → Good g name t.text          (good_of_isSpelling)
-/

namespace GrammarLab.Pattern

open Body Regex Text

/-- `Inlines g name r`: the pattern for the name is put together from the body of `r`, among
others. -/
inductive Inlines (g : Grammar) : String → Rule → Prop
  | self {name r} : g.rule? name = some r → Inlines g name r
  | step {name inner r s} : g.rule? name = some r →
      .reference inner ∈ pieces (significant r.definition) → Inlines g inner s → Inlines g name s

/-- The bodies of all inlined rules are the written forms of their structures. -/
def Written (g : Grammar) (name : String) : Prop :=
  ∀ r, Inlines g name r → r.structure.render = r.definition

/-- The text matches what the name means. -/
def Good (g : Grammar) (name : String) (t : List Char) : Prop :=
  isLexerName name = true ∧ Spells Follows (IsBranches (Means g (.content (.token name)))) t

theorem mem_of_inlines {g : Grammar} {name : String} {r : Rule} (h : Inlines g name r) :
    r ∈ g.rules := by
  induction h with
  | self hr => exact List.mem_of_find?_eq_some hr
  | step _ _ _ ih => exact ih

variable {g : Grammar}

/-- A rule matches what it means if the rules that it refers to do. -/
theorem good_of_spelled {name : String} {r : Rule} {t : List Char} (hr : g.rule? name = some r)
    (hl : r.isLexer = true) (hw : r.structure.render = r.definition)
    (ht : Spelled (Good g) (pieces (significant r.definition)) t) : Good g name t := by
  have hwritten : IsWritten r.definition r.structure.alternatives := isWritten_of_render hw
  have hfaithful : Faithful g (Good g) := fun _ _ h => h
  refine ⟨?_, ?_⟩
  · rw [← Grammar.name_of_rule? hr]
    exact hl
  · exact (spells_of_isWritten hfaithful hwritten ht).mono fun _ h =>
      h.congr fun _ => (means_token_iff hr).symm

/-- The induction goes through the bodies that references stand for. -/
theorem spelled_of_assembled {ps : List Piece} {t : Spelling} (h : Assembled g ps t)
    (hw : ∀ name, .reference name ∈ ps → Written g name) : Spelled (Good g) ps t.text := by
  induction h with
  | nil => exact .nil
  | text _ ih => exact .text (ih fun name hn => hw name (List.mem_cons_of_mem _ hn))
  | lazyText _ ih => exact .lazyText (ih fun name hn => hw name (List.mem_cons_of_mem _ hn))
  | @reference name r ps t u hr hl _ _ iht ihu =>
    have hname : Written g name := hw name List.mem_cons_self
    have hinner := iht fun inner hi s hs => hname s (.step hr hi hs)
    exact .reference (good_of_spelled hr hl (hname r (.self hr)) hinner)
      (ihu fun name hn => hw name (List.mem_cons_of_mem _ hn))

theorem good_of_isSpelling {name : String} {t : Spelling} (h : IsSpelling g name t)
    (hw : Written g name) : Good g name t.text := by
  obtain ⟨r, hr, hl, ht⟩ := h
  exact good_of_spelled hr hl (hw r (.self hr))
    (spelled_of_assembled ht fun inner hi s hs => hw s (.step hr hi hs))

/-! ## Results -/

/-- The expression of a rule matches what the rule means. -/
theorem matches_iff_of_compileRule {c : Compiler} {name : String} {r : Rule} {p : Pattern}
    (hc : Reached g c) (hr : g.rule? name = some r) (hw : Written g name)
    (hp : (Compiler.compileRule g name c).1 = .ok p) (s : List Char) :
    p.regex.Matches s ↔ Means g (.branches r.structure.alternatives) s := by
  obtain ⟨t, ht, hpattern⟩ := exists_spelling_of_compileRule hc hp
  obtain ⟨-, hparse, -⟩ := ofSpelling_eq_ok hpattern
  exact (matches_iff_of_spells (good_of_isSpelling ht hw).2 hparse s).trans (means_token_iff hr)

/-- Compiling preserves meaning. The pattern of a rule matches the texts that the structure of the
rule stands for, as a whole and, unless it is lazy, as the longest match at an offset. The only
texts that are missed are those of a lazy pattern within two levels of the limit on nesting. -/
theorem compileRule_preserves_meaning {c : Compiler} {name : String} {r : Rule} {p : Pattern}
    (hc : Reached g c) (hr : g.rule? name = some r)
    (hw : ∀ s, Inlines g name s → s.structure.render = s.definition)
    (hp : (Compiler.compileRule g name c).1 = .ok p) :
    let P := Means g (.branches r.structure.alternatives)
    (∀ s, p.matchesWhole s = true ↔
      s ≠ [] ∧ P s ∧ (p.isLazy = false ∨ p.depth + 2 ≤ maxDepth)) ∧
    (p.isLazy = false → ∀ s offset,
      (∀ n, p.matchAt s offset = some n ↔ IsLongestAt P s offset n) ∧
      (p.matchAt s offset = none ↔
        ∀ n t, 0 < n → slice? s offset (offset + n) = some t → ¬P t)) := by
  intro P
  have hP : p.regex.Matches = P := funext fun s => propext (matches_iff_of_compileRule hc hr hw hp s)
  rw [← hP]
  exact ⟨fun s => matchesWhole_iff,
    fun h s offset => ⟨fun n => matchAt_eq_some_iff h, matchAt_eq_none_iff h⟩⟩

/-- Words of letters with single dashes between them. -/
def wordGrammar : Grammar where
  rules := [
    { name := "WORD", isFragment := false, definition := "LETTER ( LETTER | '-' LETTER )*".toList,
      lineNumber := 1, bodyLine := 1, endLine := 1, referencedRules := ["LETTER"], mode := none },
    { name := "LETTER", isFragment := true, definition := "[a-z]".toList,
      lineNumber := 2, bodyLine := 2, endLine := 2, referencedRules := [], mode := none }]

theorem compileRule_wordGrammar : ∃ r p, wordGrammar.rule? "WORD" = some r ∧
    (Compiler.compileRule wordGrammar "WORD" {}).1 = .ok p ∧ p.isLazy = false ∧
    ∀ s, p.matchesWhole s = true ↔
      s ≠ [] ∧ Means wordGrammar (.branches r.structure.alternatives) s := by
  have hwritten : ∀ r ∈ wordGrammar.rules, r.structure.render = r.definition := by decide +kernel
  obtain ⟨r, hr⟩ : ∃ r, wordGrammar.rule? "WORD" = some r := Option.isSome_iff_exists.1 (by decide)
  have hlazy : (Compiler.compileRule wordGrammar "WORD" {}).1.toOption.map (·.isLazy) =
    some false := by decide +kernel
  cases hp : (Compiler.compileRule wordGrammar "WORD" {}).1 with
  | error e => simp [hp, Except.toOption] at hlazy
  | ok p =>
    have hgreedy : p.isLazy = false := by simpa [hp, Except.toOption] using hlazy
    refine ⟨r, p, hr, rfl, hgreedy, fun s => ?_⟩
    rw [(compileRule_preserves_meaning .start hr (fun s hs => hwritten s (mem_of_inlines hs)) hp).1]
    simp [hgreedy]

end GrammarLab.Pattern
