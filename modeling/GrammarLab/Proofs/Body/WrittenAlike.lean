import GrammarLab.Proofs.Body.RoundTrip

/-!
# Structures that are written alike

Of what is read from bodies, the written form keeps all but labels, commands and offsets: it has no
part in which these stand, and what it has reads back. So two alternatives have the same written
elements exactly if they are the same without labels, commands and offsets, and likewise for
contents.

    b.normalized = b'.normalized ↔ b.bare = b'.bare                        (normalized_eq_iff)
    c.render = c'.render ↔ c.bare = c'.bare                                     (render_eq_iff)
-/

namespace GrammarLab.Body

/-! ## Written forms without labels, commands and offsets -/

theorem isEmpty_bareElements :
    ∀ es : List (ElementOf Content), (bareElements es).isEmpty = es.isEmpty
  | [] => rfl
  | _ :: _ => rfl

mutual

theorem render_bare : ∀ c : Content, c.bare.render = c.render
  | .group branches => by
    rw [Content.bare, Content.render, Content.render, renderBranches_bare true branches]
  | .negated inner => by rw [Content.bare, Content.render, Content.render, render_bare inner]
  | .token _ => rfl
  | .rule _ => rfl
  | .literal _ => rfl
  | .charSet _ => rfl
  | .range _ _ => rfl
  | .wildcard => rfl
  | .endOfInput => rfl

theorem renderBranches_bare (first : Bool) : ∀ bs : List (AlternativeOf Content),
    renderBranches first (bareBranches bs) = renderBranches first bs
  | [] => rfl
  | ⟨elements, label, commands, offset⟩ :: rest => by
    rw [bareBranches, renderBranches, renderBranches, renderElements_bare elements,
      renderBranches_bare false rest, isEmpty_bareElements]

theorem renderElements_bare : ∀ es : List (ElementOf Content),
    renderElements (bareElements es) = renderElements es
  | [] => rfl
  | ⟨content, modifier, greedy⟩ :: rest => by
    rw [bareElements, renderElements, renderElements, render_bare content, renderElements_bare rest,
      isEmpty_bareElements]

end

theorem map_render_bareElements (es : List Element) :
    (bareElements es).map ElementOf.render = es.map ElementOf.render := by
  induction es with
  | nil => rfl
  | cons e es ih =>
    rw [bareElements, List.map_cons, List.map_cons, ih, ElementOf.render, render_bare]
    rfl

theorem renderElements_eq (es : List Element) :
    renderElements es = [' '].intercalate (es.map ElementOf.render) := by
  induction es with
  | nil => rfl
  | cons e es ih =>
    rw [renderElements, ih]
    cases es with
    | nil => simp [ElementOf.render]
    | cons e' es => simp [ElementOf.render, List.intercalate]

/-! ## What was read -/

/-- Elements such as a body is read to, so that their written form reads back. -/
structure ReadableElements (es : List Element) : Prop where
  proper : properElements es = true
  legible : LegibleElements es

structure Content.IsReadable (c : Content) : Prop where
  proper : c.isProper = true
  legible : c.IsLegible

section

variable {es fs : List Element} {c d : Content}

/-- The alternatives of a body at every level are readable. -/
theorem readableElements_of_mem {body : List Char} {b : Branch}
    (hb : b ∈ (Structure.parse body).allAlternatives) : ReadableElements b.elements := by
  obtain ⟨-, hproper, -⟩ := readsAll_parse body
  obtain ⟨hp, hl⟩ := readable_of_branches _ hproper (legibleBranches_parse body) b hb
  exact ⟨hp, hl⟩

theorem readableElements_cons {e : Element} :
    ReadableElements (e :: es) ↔ ReadableElements [e] ∧ ReadableElements es := by
  constructor
  · rintro ⟨hp, hl⟩
    simp only [properElements, Bool.and_eq_true] at hp
    exact ⟨⟨by simpa [properElements] using hp.1, hl.1, trivial⟩, hp.2, hl.2⟩
  · rintro ⟨⟨hp, hl⟩, hp', hl'⟩
    simp only [properElements, Bool.and_eq_true] at hp
    exact ⟨by simpa [properElements, hp'] using hp.1, hl.1, hl'⟩

theorem readableElements_iff : ReadableElements es ↔ ∀ e ∈ es, ReadableElements [e] := by
  induction es with
  | nil => simpa using ⟨rfl, trivial⟩
  | cons e es ih => rw [readableElements_cons, List.forall_mem_cons, ih]

theorem ReadableElements.of_subset (h : ReadableElements es) (hs : fs ⊆ es) :
    ReadableElements fs :=
  readableElements_iff.2 fun e he => readableElements_iff.1 h e (hs he)

theorem ReadableElements.content (h : ReadableElements es) : ∀ e ∈ es, e.content.IsReadable := by
  intro e he
  obtain ⟨hp, hl⟩ := readableElements_iff.1 h e he
  simp only [properElements, Bool.and_eq_true] at hp
  exact ⟨hp.1.1, hl.1⟩

theorem Content.IsReadable.elements (h : c.IsReadable) : ReadableElements [⟨c, .once, true⟩] :=
  ⟨by simp [properElements, h.proper], h.legible, trivial⟩

theorem bareElements_eq_of_render (he : ReadableElements es) (hf : ReadableElements fs)
    (h : renderElements es = renderElements fs) : bareElements es = bareElements fs := by
  have hes := bare_parse_render_alternative (b := { elements := es }) he.proper he.legible
  have hfs := bare_parse_render_alternative (b := { elements := fs }) hf.proper hf.legible
  have hrender :
      AlternativeOf.render { elements := es } = AlternativeOf.render { elements := fs } := h
  rw [hrender, hfs] at hes
  simpa [AlternativeOf.bare] using hes.symm

/-- Elements that are read are the same, but for what the written form leaves out, exactly if they
are written alike one by one. -/
theorem map_render_eq_iff (he : ReadableElements es) (hf : ReadableElements fs) :
    es.map ElementOf.render = fs.map ElementOf.render ↔ bareElements es = bareElements fs := by
  constructor
  · intro h
    exact bareElements_eq_of_render he hf (by rw [renderElements_eq, renderElements_eq, h])
  · intro h
    rw [← map_render_bareElements es, h, map_render_bareElements]

theorem render_eq_iff (hc : c.IsReadable) (hd : d.IsReadable) :
    c.render = d.render ↔ c.bare = d.bare := by
  constructor
  · intro h
    have helements := bareElements_eq_of_render hc.elements hd.elements
      (by simp [renderElements, h])
    simpa [bareElements] using helements
  · intro h
    rw [← render_bare c, h, render_bare]

end

theorem normalized_eq_iff {b b' : Branch} (hb : ReadableElements b.elements)
    (hb' : ReadableElements b'.elements) : b.normalized = b'.normalized ↔ b.bare = b'.bare := by
  rw [AlternativeOf.normalized, AlternativeOf.normalized, map_render_eq_iff hb hb',
    AlternativeOf.bare, AlternativeOf.bare, AlternativeOf.mk.injEq]
  simp

/-! ## Groups -/

/-- A group, or the negation of one. -/
def Content.isGroup : Content → Bool
  | .group _ => true
  | .negated inner => inner.isGroup
  | _ => false

theorem isGroup_bare : ∀ c : Content, c.bare.isGroup = c.isGroup
  | .group _ => rfl
  | .negated inner => by rw [Content.bare, Content.isGroup, Content.isGroup, isGroup_bare inner]
  | .token _ => rfl
  | .rule _ => rfl
  | .literal _ => rfl
  | .charSet _ => rfl
  | .range _ _ => rfl
  | .wildcard => rfl
  | .endOfInput => rfl

/-- Labels, commands and offsets stand in groups only. -/
theorem bare_eq_self : ∀ c : Content, c.isGroup = false → c.bare = c
  | .group _, h => by simp [Content.isGroup] at h
  | .negated inner, h => by rw [Content.bare, bare_eq_self inner h]
  | .token _, _ => rfl
  | .rule _, _ => rfl
  | .literal _, _ => rfl
  | .charSet _, _ => rfl
  | .range _ _, _ => rfl
  | .wildcard, _ => rfl
  | .endOfInput, _ => rfl

theorem eq_of_render {c d : Content} (hc : c.IsReadable) (hd : d.IsReadable)
    (hgroup : c.isGroup = false) (h : c.render = d.render) : c = d := by
  have hbare := (render_eq_iff hc hd).1 h
  have hgroup' : d.isGroup = false := by rw [← isGroup_bare d, ← hbare, isGroup_bare, hgroup]
  rw [← bare_eq_self c hgroup, hbare, bare_eq_self d hgroup']

end GrammarLab.Body
