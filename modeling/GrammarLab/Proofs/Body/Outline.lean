import GrammarLab.Body.Outline
import GrammarLab.Proofs.Body.RoundTrip

/-!
# Outlines of written forms

The one pass over the tokens of a written form counts what the structure holds: its alternatives,
the elements with a modifier in them, and how deep its groups nest. The words of an element leave
as many parentheses open as they find, so the pass over them adds to the counts and goes on as if
they were not there.

    complexity (Structure.parse body).render =
      (Structure.parse body).modifiedElements + (Structure.parse body).alternatives.length
-/

namespace GrammarLab.Body

/-! ## Depth and modifiers -/

mutual

/-- The most groups that stand in one another, those of a negation included. -/
def Content.groupDepth : Content → Nat
  | .group branches => branchesDepth branches + 1
  | .negated inner => inner.groupDepth
  | _ => 0

def branchesDepth : List (AlternativeOf Content) → Nat
  | [] => 0
  | ⟨elements, _, _, _⟩ :: rest => max (elementsDepth elements) (branchesDepth rest)

def elementsDepth : List (ElementOf Content) → Nat
  | [] => 0
  | ⟨content, _, _⟩ :: rest => max content.groupDepth (elementsDepth rest)

end

def Structure.groupDepth (s : Structure) : Nat := branchesDepth s.alternatives

/-- The number of elements with a modifier in the alternatives, groups apart. -/
def modifiedElements (bs : List Branch) : Nat :=
  (bs.flatMap (·.elements)).countP (·.modifier ≠ .once)

/-- The number of elements with a modifier, those within groups not counted. -/
def Structure.modifiedElements (s : Structure) : Nat := Body.modifiedElements s.alternatives

namespace Outline

/-- The counts of two stretches next to each other. -/
def beside (o o' : Outline) : Outline where
  pipes := o.pipes + o'.pipes
  quantifiers := o.quantifiers + o'.quantifiers
  depth := max o.depth o'.depth

/-- The counts of a stretch that stands in `d` parentheses, where pipes and quantifiers do not
count. -/
def within (o : Outline) : Nat → Outline
  | 0 => o
  | d + 1 => { depth := d + 1 + o.depth }

/-! ## Counts -/

theorem beside_empty (o : Outline) : o.beside {} = o := by
  simp [beside]

theorem beside_assoc (o o' o'' : Outline) :
    (o.beside o').beside o'' = o.beside (o'.beside o'') := by
  simp [beside, Nat.add_assoc, Nat.max_assoc]

theorem within_beside (o o' : Outline) (d : Nat) :
    (o.beside o').within d = (o.within d).beside (o'.within d) := by
  cases d with
  | zero => rfl
  | succ d =>
    simp only [within, beside, mk.injEq, true_and]
    omega

theorem depth_within (o : Outline) (d : Nat) : (o.within d).depth = d + o.depth := by
  cases d with
  | zero => simp [within]
  | succ d => rfl

end Outline

/-- Whatever was counted before, the pass over the words adds their counts to it and ends with as
many parentheses open as it began with. -/
def CountedAs (ws : List Lexeme) (o : Outline) : Prop :=
  ∀ d ts rest before, ts.map Token.lexeme = ws → d ≤ before.depth →
    Outline.count before d false (ts ++ rest) =
      Outline.count (before.beside (o.within d)) d false rest

namespace CountedAs

variable {ws ws' : List Lexeme} {o o' : Outline}

theorem nil : CountedAs [] {} := by
  intro d ts rest before hts hd
  obtain rfl := List.map_eq_nil_iff.1 hts
  have hbeside : before.beside (Outline.within {} d) = before := by
    cases d with
    | zero => exact before.beside_empty
    | succ d =>
      simp only [Outline.beside, Outline.within]
      simp only [Nat.add_zero, Nat.max_eq_left hd]
  rw [hbeside, List.nil_append]

theorem append (h : CountedAs ws o) (h' : CountedAs ws' o') :
    CountedAs (ws ++ ws') (o.beside o') := by
  intro d ts rest before hts hd
  obtain ⟨us, vs, rfl, hus, hvs⟩ := List.map_eq_append_iff.1 hts
  have hd' : d ≤ (before.beside (o.within d)).depth := by
    unfold Outline.beside
    exact Nat.le_trans hd (Nat.le_max_left _ _)
  rw [List.append_assoc, h d us (vs ++ rest) before hus hd, h' d vs rest _ hvs hd',
    Outline.beside_assoc, Outline.within_beside]

/-- A word that opens and closes nothing, separates nothing and repeats nothing. -/
theorem plain {l : Lexeme} (hopen : l.kind ≠ .parenOpen) (hclose : l.kind ≠ .parenClose)
    (hpipe : l.kind ≠ .pipe) (hquant : l.kind.isQuantifier = false) (haction : l.kind ≠ .action) :
    CountedAs [l] {} := by
  intro d ts rest before hts hd
  obtain ⟨t, rfl, hk, -⟩ := exists_of_map_eq_singleton hts
  have hnil := nil d [] rest before rfl hd
  rw [List.nil_append] at hnil
  rw [List.singleton_append, Outline.count, ← hnil]
  simp [hk, hopen, hclose, hpipe, hquant, haction]

theorem pipe : CountedAs [pipeLexeme] { pipes := 1 } := by
  intro d ts rest before hts hd
  obtain ⟨t, rfl, hk, -⟩ := exists_of_map_eq_singleton hts
  have hk : t.kind = .pipe := hk
  rw [List.singleton_append, Outline.count]
  cases d with
  | zero => simp [hk, Outline.beside, Outline.within]
  | succ d =>
    simp [hk, Outline.beside, Outline.within, TokenKind.isQuantifier, TokenKind.isGreedy,
      TokenKind.isLazy, Nat.max_eq_left hd]

theorem quantifier {l : Lexeme} (hquant : l.kind.isQuantifier = true) :
    CountedAs [l] { quantifiers := 1 } := by
  intro d ts rest before hts hd
  obtain ⟨t, rfl, hk, -⟩ := exists_of_map_eq_singleton hts
  have hne : ∀ k : TokenKind, k.isQuantifier = false → l.kind ≠ k := by
    rintro k hkind rfl
    rw [hquant] at hkind
    cases hkind
  rw [List.singleton_append, Outline.count]
  cases d with
  | zero =>
    simp [hk, hquant, hne .parenOpen rfl, hne .parenClose rfl, hne .pipe rfl, hne .action rfl,
      Outline.beside, Outline.within]
  | succ d =>
    simp [hk, hne .parenOpen rfl, hne .parenClose rfl, hne .action rfl, Outline.beside,
      Outline.within, Nat.max_eq_left hd]

/-- A group adds nothing but its depth. -/
theorem group (h : CountedAs ws o) :
    CountedAs (openLexeme :: ws ++ [closeLexeme]) { depth := o.depth + 1 } := by
  intro d ts rest before hts hd
  obtain ⟨us, vs, rfl, hus, hvs⟩ := List.map_eq_append_iff.1 hts
  obtain ⟨p, us, rfl, hp, hus⟩ := List.map_eq_cons_iff.1 hus
  obtain ⟨c, rfl, hc, -⟩ := exists_of_map_eq_singleton hvs
  have hp : p.kind = .parenOpen := congrArg Lexeme.kind hp
  have hc : c.kind = .parenClose := hc
  have hin := h (d + 1) us (c :: rest) { before with depth := max before.depth (d + 1) } hus
    (Nat.le_max_right _ _)
  rw [List.append_assoc, List.cons_append, List.singleton_append, Outline.count]
  simp only [hp, if_true]
  show Outline.count _ (d + 1) false _ = _
  rw [hin, Outline.count]
  simp only [hc, if_true, reduceCtorEq, if_false, Nat.add_sub_cancel]
  show Outline.count _ d false _ = _
  congr 1
  cases d with
  | zero =>
    simp only [Outline.beside, Outline.within, Outline.mk.injEq, true_and]
    omega
  | succ d =>
    simp only [Outline.beside, Outline.within, Outline.mk.injEq, true_and]
    omega

end CountedAs

/-! ## Structures -/

theorem countedAs_modifier {m : Modifier} {greedy : Bool} (h : m ≠ .once ∨ greedy = true) :
    CountedAs (modifierScript m greedy) { quantifiers := if m = .once then 0 else 1 } := by
  cases m <;> cases greedy
  case once.false => simp at h
  case once.true => exact .nil
  all_goals exact .quantifier rfl

/-- The alternatives of a group or of a body, from the first of them and the others. -/
theorem countedAs_alternatives {b : Branch} {bs : List Branch}
    (hb : CountedAs (wordsIn (elementsScript b.elements))
      { quantifiers := b.elements.countP (·.modifier ≠ .once), depth := elementsDepth b.elements })
    (hbs : CountedAs (wordsIn (branchesScript false bs))
      ⟨bs.length, modifiedElements bs, branchesDepth bs⟩) :
    CountedAs (wordsIn (branchesScript true (b :: bs)))
      ⟨bs.length, modifiedElements (b :: bs), branchesDepth (b :: bs)⟩ := by
  have h := hb.append hbs
  rw [wordsIn_branchesScript_cons]
  simpa [Outline.beside, modifiedElements, branchesDepth] using h

mutual

theorem countedAs_content : ∀ c : Content, c.isProper = true →
    CountedAs (wordsIn c.script) { depth := c.groupDepth }
  | .token _, _ => .plain nofun nofun nofun rfl nofun
  | .rule _, _ => .plain nofun nofun nofun rfl nofun
  | .literal _, _ => .plain nofun nofun nofun rfl nofun
  | .charSet _, _ => .plain nofun nofun nofun rfl nofun
  | .range first last, _ => by
    have hliteral : ∀ text, CountedAs [⟨.literal, text⟩] {} := by
      intro text
      exact .plain nofun nofun nofun rfl nofun
    have hrange : CountedAs [⟨.range, ['.', '.']⟩] {} := .plain nofun nofun nofun rfl nofun
    exact (hliteral first).append (hrange.append (hliteral last))
  | .group [], hp => by simp [Content.isProper] at hp
  | .group (⟨elements, _, _, _⟩ :: rest), hp => by
    simp only [Content.isProper, properBranches, Bool.and_eq_true] at hp
    rw [wordsIn_group]
    exact .group (countedAs_alternatives (countedAs_elements elements hp.2.1)
      (countedAs_branches rest hp.2.2))
  | .wildcard, _ => .plain nofun nofun nofun rfl nofun
  | .negated inner, hp => by
    have htilde : CountedAs [⟨.tilde, ['~']⟩] {} := .plain nofun nofun nofun rfl nofun
    have h := htilde.append (countedAs_content inner hp)
    rw [Outline.beside] at h
    simp only [Nat.zero_max, Nat.add_zero] at h
    exact h
  | .endOfInput, _ => .plain nofun nofun nofun rfl nofun

theorem countedAs_branches : ∀ bs : List (AlternativeOf Content), properBranches bs = true →
    CountedAs (wordsIn (branchesScript false bs))
      ⟨bs.length, modifiedElements bs, branchesDepth bs⟩
  | [], _ => .nil
  | ⟨elements, label, commands, offset⟩ :: rest, hp => by
    rw [properBranches, Bool.and_eq_true] at hp
    have hrest := countedAs_alternatives (b := ⟨elements, label, commands, offset⟩)
      (countedAs_elements elements hp.1) (countedAs_branches rest hp.2)
    have h := CountedAs.pipe.append hrest
    rw [wordsIn_branchesScript_false]
    simpa [Outline.beside, Nat.add_comm 1] using h

theorem countedAs_elements : ∀ es : List (ElementOf Content), properElements es = true →
    CountedAs (wordsIn (elementsScript es))
      { quantifiers := es.countP (·.modifier ≠ .once), depth := elementsDepth es }
  | [], _ => .nil
  | ⟨content, modifier, greedy⟩ :: rest, hp => by
    simp only [properElements, Bool.and_eq_true, Bool.or_eq_true, decide_eq_true_eq] at hp
    have h := ((countedAs_content content hp.1.1).append
      (countedAs_modifier hp.1.2)).append (countedAs_elements rest hp.2)
    rw [wordsIn_elementsScript_cons, ElementOf.script, wordsIn_append, wordsIn_modifierScript]
    by_cases hm : modifier = .once
    · simpa [hm, Outline.beside, elementsDepth] using h
    · simpa [hm, Outline.beside, elementsDepth, Nat.add_comm 1] using h

end

/-! ## Written forms -/

theorem outline_render {s : Structure} (hne : s.alternatives ≠ [])
    (hp : properBranches s.alternatives = true) (hl : LegibleBranches s.alternatives) :
    outline s.render =
      { pipes := s.alternatives.length - 1, quantifiers := s.modifiedElements
        depth := s.groupDepth } := by
  have htokens := map_lexeme_significant_render_of_legible hl
  obtain ⟨b, bs, hbs⟩ := List.exists_cons_of_ne_nil hne
  rw [hbs] at hp htokens
  obtain ⟨hb, hbs'⟩ := Bool.and_eq_true_iff.1 hp
  have hcounted := countedAs_alternatives (countedAs_elements b.elements hb)
    (countedAs_branches bs hbs')
  have hcount := hcounted 0 (significant s.render) [] {} htokens (Nat.zero_le _)
  rw [List.append_nil] at hcount
  rw [outline, hcount]
  simp [Outline.count, Outline.beside, Outline.within, Structure.modifiedElements,
    Structure.groupDepth, hbs]

/-- The outline of a written form counts the alternatives of its structure, the elements with a
modifier in them and the depth of its groups; its complexity is the sum of the first two. -/
theorem outline_render_parse (body : List Char) :
    (outline (Structure.parse body).render).alternatives =
        (Structure.parse body).alternatives.length ∧
      (outline (Structure.parse body).render).depth = (Structure.parse body).groupDepth ∧
      (outline (Structure.parse body).render).quantifiers =
        (Structure.parse body).modifiedElements ∧
      complexity (Structure.parse body).render =
        (Structure.parse body).modifiedElements + (Structure.parse body).alternatives.length := by
  have hread := readsAll_parse body
  have hne : (Structure.parse body).alternatives ≠ [] := hread.nonempty
  have hpos := List.length_pos_iff.2 hne
  have houtline := outline_render hne hread.proper (legibleBranches_parse body)
  rw [complexity, houtline]
  refine ⟨?_, rfl, rfl, ?_⟩
  · show (Structure.parse body).alternatives.length - 1 + 1 = _
    omega
  · show 1 + ((Structure.parse body).alternatives.length - 1) +
      (Structure.parse body).modifiedElements = _
    omega

end GrammarLab.Body
