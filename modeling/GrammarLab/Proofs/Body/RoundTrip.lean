import GrammarLab.Proofs.Body.Reading
import GrammarLab.Proofs.Body.Rendering

/-!
# Written forms read back

The written form of a structure that was read from a body, whatever the body, reads back as the
same structure, but for labels, commands and offsets; and so does each of its alternatives, those
inside groups included, by itself.

    (Structure.parse (Structure.parse body).render).bare = (Structure.parse body).bare
-/

namespace GrammarLab.Body

/-! ## What a written form keeps -/

mutual

/-- Without labels, commands and offsets, those inside included. -/
def Content.bare : Content → Content
  | .group branches => .group (bareBranches branches)
  | .negated inner => .negated inner.bare
  | content => content

def bareBranches : List (AlternativeOf Content) → List (AlternativeOf Content)
  | [] => []
  | ⟨elements, _, _, _⟩ :: rest => { elements := bareElements elements } :: bareBranches rest

def bareElements : List (ElementOf Content) → List (ElementOf Content)
  | [] => []
  | ⟨content, modifier, greedy⟩ :: rest => ⟨content.bare, modifier, greedy⟩ :: bareElements rest

end

def AlternativeOf.bare (b : Branch) : Branch := { elements := bareElements b.elements }

def Structure.bare (s : Structure) : Structure := ⟨bareBranches s.alternatives⟩

mutual

/-- The alternatives of the groups in a content. -/
def Content.branchesWithin : Content → List Branch
  | .group branches => branchesAmong branches
  | .negated inner => inner.branchesWithin
  | _ => []

/-- The alternatives and those of the groups in them. -/
def branchesAmong : List (AlternativeOf Content) → List Branch
  | [] => []
  | ⟨elements, label, commands, offset⟩ :: rest =>
    ⟨elements, label, commands, offset⟩ :: branchesOfElements elements ++ branchesAmong rest

def branchesOfElements : List (ElementOf Content) → List Branch
  | [] => []
  | ⟨content, _, _⟩ :: rest => content.branchesWithin ++ branchesOfElements rest

end

/-- The alternatives of a structure at every level. -/
def Structure.allAlternatives (s : Structure) : List Branch := branchesAmong s.alternatives

theorem branchesOfElements_eq (es : List Element) :
    branchesOfElements es = es.flatMap (·.content.branchesWithin) := by
  induction es with
  | nil => rfl
  | cons e es ih => rw [branchesOfElements, ih, List.flatMap_cons]

theorem branchesAmong_eq (bs : List Branch) :
    branchesAmong bs = bs.flatMap fun b => b :: branchesOfElements b.elements := by
  induction bs with
  | nil => rfl
  | cons b bs ih => rw [branchesAmong, ih, List.flatMap_cons]

theorem subset_branchesAmong (bs : List Branch) : bs ⊆ branchesAmong bs := by
  intro b hb
  rw [branchesAmong_eq]
  exact List.mem_flatMap.2 ⟨b, hb, List.mem_cons_self⟩

/-! ## Tokens in front -/

def TokenKind.beginsContent (k : TokenKind) : Bool :=
  k = ident || k = literal || k = charClass || k = dot || k = tilde || k = parenOpen

/-- The tokens end an alternative, or there are none. -/
def EndsBranch (ts : List Token) : Prop := ∀ t ∈ ts.head?, t.kind = .pipe ∨ t.kind = .parenClose

/-- The tokens go on with an element or end an alternative. -/
def EndsElement (ts : List Token) : Prop :=
  ∀ t ∈ ts.head?, t.kind.beginsContent = true ∨ t.kind = .pipe ∨ t.kind = .parenClose

/-- The tokens make nothing else of the content in front of them. -/
def EndsContent (ts : List Token) : Prop :=
  ∀ t ∈ ts.head?, t.kind ≠ .range ∧ t.kind ≠ .lt ∧ t.kind ≠ .equals ∧ t.kind ≠ .plusEquals

variable {ts rest : List Token}

theorem EndsBranch.endsElement (h : EndsBranch rest) : EndsElement rest :=
  fun t ht => .inr (h t ht)

theorem EndsElement.endsContent (h : EndsElement rest) : EndsContent rest := by
  intro t ht
  rcases h t ht with hk | hk | hk
  · cases hkind : t.kind <;> simp_all [TokenKind.beginsContent]
  · simp [hk]
  · simp [hk]

theorem exists_of_map_eq_singleton {l : Lexeme} (h : ts.map Token.lexeme = [l]) :
    ∃ t, ts = [t] ∧ t.kind = l.kind ∧ t.text = l.text := by
  obtain ⟨t, ts', rfl, rfl, hts⟩ := List.map_eq_cons_iff.1 h
  obtain rfl := List.map_eq_nil_iff.1 hts
  exact ⟨t, rfl, rfl, rfl⟩

theorem exists_wordsIn_script (c : Content) :
    ∃ l ls, wordsIn c.script = l :: ls ∧ l.kind.beginsContent = true := by
  cases c with
  | group bs => exact ⟨_, _, wordsIn_group bs, rfl⟩
  | negated inner => exact ⟨_, _, rfl, rfl⟩
  | _ => exact ⟨_, _, rfl, rfl⟩

theorem endsElement_elements {es : List Element}
    (h : ts.map Token.lexeme = wordsIn (elementsScript es)) (hrest : EndsBranch rest) :
    EndsElement (ts ++ rest) := by
  cases es with
  | nil =>
    obtain rfl := List.map_eq_nil_iff.1 h
    exact hrest.endsElement
  | cons e es =>
    obtain ⟨l, ls, hwords, hl⟩ := exists_wordsIn_script e.content
    rw [wordsIn_elementsScript_cons, ElementOf.script, wordsIn_append, hwords] at h
    obtain ⟨t, ts', rfl, rfl, -⟩ := List.map_eq_cons_iff.1 h
    intro u hu
    obtain rfl : t = u := by simpa using hu
    exact .inl hl

/-! ## Single readers -/

/-- A modifier is read back in front of the next element. -/
theorem quantified_modifierScript {ms : List Token} {m : Modifier} {greedy : Bool} (c : Content)
    (hms : ms.map Token.lexeme = modifierScript m greedy) (hproper : m ≠ .once ∨ greedy = true)
    (hrest : EndsElement rest) :
    EndsContent (ms ++ rest) ∧
      quantified c (passOptions (ms ++ rest)) = (⟨c, m, greedy⟩, rest) := by
  have hone {k : TokenKind} {text : List Char} (hms : ms.map Token.lexeme = [⟨k, text⟩])
      (hk : k.modifier? = some (m, greedy)) :
      EndsContent (ms ++ rest) ∧
        quantified c (passOptions (ms ++ rest)) = (⟨c, m, greedy⟩, rest) := by
    obtain ⟨t, rfl, hkind, -⟩ := exists_of_map_eq_singleton hms
    obtain rfl : t.kind = k := hkind
    have hne : t.kind ≠ .range ∧ t.kind ≠ .lt ∧ t.kind ≠ .equals ∧ t.kind ≠ .plusEquals := by
      refine ⟨?_, ?_, ?_, ?_⟩ <;> (intro he; simp [he, TokenKind.modifier?] at hk)
    constructor
    · intro u hu
      obtain rfl : t = u := by simpa using hu
      exact hne
    · simp [passOptions, hne.2.1, quantified, hk]
  cases m <;> cases greedy
  case once.false => simp at hproper
  case once.true =>
    obtain rfl := List.map_eq_nil_iff.1 hms
    refine ⟨hrest.endsContent, ?_⟩
    cases rest with
    | nil => rfl
    | cons t rest =>
      have hlt := (hrest.endsContent t rfl).2.1
      have hnone : t.kind.modifier? = none := by
        rcases hrest t rfl with hk | hk | hk
        · cases hkind : t.kind <;> simp_all [TokenKind.beginsContent, TokenKind.modifier?]
        · simp [hk, TokenKind.modifier?]
        · simp [hk, TokenKind.modifier?]
      simp [passOptions, hlt, quantified, hnone]
  all_goals exact hone hms rfl

/-- What begins a content begins an element. -/
theorem branch_content {c : Content} (last fuel : Nat) (b : Branch)
    (h : ts.map Token.lexeme = wordsIn c.script) (hrest : EndsContent rest) :
    branch last (fuel + 1) b (ts ++ rest) = branchElement last fuel b (ts ++ rest) := by
  have hassign : startsWithAssign rest = false := by
    cases rest with
    | nil => rfl
    | cons t rest => simp [startsWithAssign, hrest t rfl]
  have hname {name : List Char} (h : ts.map Token.lexeme = [⟨.ident, name⟩]) :
      branch last (fuel + 1) b (ts ++ rest) = branchElement last fuel b (ts ++ rest) := by
    obtain ⟨t, rfl, hk, -⟩ := exists_of_map_eq_singleton h
    rw [List.singleton_append, branch]
    simp [hk, hassign]
  have hother {l : Lexeme} {ls : List Lexeme} (h : ts.map Token.lexeme = l :: ls)
      (hl : l.kind.beginsContent = true) (hident : l.kind ≠ .ident) :
      branch last (fuel + 1) b (ts ++ rest) = branchElement last fuel b (ts ++ rest) := by
    obtain ⟨t, ts', rfl, rfl, -⟩ := List.map_eq_cons_iff.1 h
    rw [List.cons_append, branch]
    cases hk : t.kind <;> simp_all [Token.lexeme, TokenKind.beginsContent]
  cases c with
  | token name => exact hname h
  | rule name => exact hname h
  | endOfInput => exact hname h
  | group bs =>
    rw [wordsIn_group] at h
    exact hother h rfl (by decide)
  | _ => exact hother h rfl (by simp)

/-! ## The readers together -/

/-- The content is read back from its words. -/
def ReadsBack (c : Content) : Prop :=
  ∀ last fuel ts rest, ts.map Token.lexeme = wordsIn c.script → EndsContent rest →
    4 * (ts ++ rest).length + 1 ≤ fuel →
      ∃ c', atom last fuel (ts ++ rest) = (some c', rest) ∧ c'.bare = c.bare

def ElementsReadBack (es : List Element) : Prop :=
  ∀ last fuel b ts rest, ts.map Token.lexeme = wordsIn (elementsScript es) → EndsBranch rest →
    4 * (ts ++ rest).length + 3 ≤ fuel →
      ∃ es', branch last fuel b (ts ++ rest) = ({ b with elements := b.elements ++ es' }, rest) ∧
        bareElements es' = bareElements es

def BranchesReadBack (bs : List Branch) : Prop :=
  ∀ last fuel ts rest, ts.map Token.lexeme = wordsIn (branchesScript true bs) →
    (∀ t ∈ rest.head?, t.kind = .parenClose) → 4 * (ts ++ rest).length + 4 ≤ fuel →
      ∃ bs', branches last fuel (ts ++ rest) = (bs', rest) ∧ bareBranches bs' = bareBranches bs

theorem elementsReadBack_nil : ElementsReadBack [] := by
  intro last fuel b ts rest hts hrest hfuel
  obtain rfl := List.map_eq_nil_iff.1 hts
  obtain ⟨fuel, rfl⟩ : ∃ k, fuel = k + 1 := ⟨fuel - 1, by omega⟩
  refine ⟨[], ?_, rfl⟩
  rw [List.append_nil, List.nil_append]
  cases rest with
  | nil => rw [branch]
  | cons t rest =>
    rw [branch]
    rcases hrest t rfl with hk | hk <;> simp [hk]

theorem elementsReadBack_cons {c : Content} {m : Modifier} {greedy : Bool} {es : List Element}
    (hc : ReadsBack c) (hproper : m ≠ .once ∨ greedy = true) (hes : ElementsReadBack es) :
    ElementsReadBack (⟨c, m, greedy⟩ :: es) := by
  intro last fuel b ts rest hts hrest hfuel
  rw [wordsIn_elementsScript_cons, ElementOf.script, wordsIn_append, wordsIn_modifierScript] at hts
  obtain ⟨us, ts', rfl, hus, hts'⟩ := List.map_eq_append_iff.1 hts
  obtain ⟨cs, ms, rfl, hcs, hms⟩ := List.map_eq_append_iff.1 hus
  obtain ⟨hfollow, hquant⟩ := quantified_modifierScript c hms hproper
    (endsElement_elements hts' hrest)
  have hpos : 0 < cs.length := by
    obtain ⟨l, ls, hwords, -⟩ := exists_wordsIn_script c
    rw [← List.length_map Token.lexeme, hcs, hwords]
    exact Nat.succ_pos _
  obtain ⟨fuel, rfl⟩ : ∃ k, fuel = k + 2 := ⟨fuel - 2, by omega⟩
  simp only [List.length_append] at hfuel
  obtain ⟨c', hatom, hbare⟩ := hc last fuel cs (ms ++ (ts' ++ rest)) hcs hfollow
    (by simp only [List.length_append]; omega)
  obtain ⟨-, hquant⟩ := quantified_modifierScript c' hms hproper
    (endsElement_elements hts' hrest)
  obtain ⟨es', hbranch, hes'⟩ :=
    hes last fuel { b with elements := b.elements ++ [⟨c', m, greedy⟩] } ts' rest hts' hrest
      (by simp only [List.length_append]; omega)
  refine ⟨⟨c', m, greedy⟩ :: es', ?_, by rw [bareElements, bareElements, hbare, hes']⟩
  rw [List.append_assoc, List.append_assoc, branch_content last (fuel + 1) b hcs hfollow,
    branchElement]
  simp only [hatom, hquant, hbranch, List.append_assoc, List.singleton_append]

theorem branchesReadBack_cons {b : Branch} {bs : List Branch} (hb : ElementsReadBack b.elements)
    (hbs : bs = [] ∨ BranchesReadBack bs) : BranchesReadBack (b :: bs) := by
  intro last fuel ts rest hts hrest hfuel
  rw [wordsIn_branchesScript_cons] at hts
  obtain ⟨us, ts', rfl, hus, hts'⟩ := List.map_eq_append_iff.1 hts
  obtain ⟨fuel, rfl⟩ : ∃ k, fuel = k + 1 := ⟨fuel - 1, by omega⟩
  rw [List.append_assoc] at hfuel ⊢
  have hread (hend : EndsBranch (ts' ++ rest)) := hb last fuel
    { offset := startOffset last (us ++ (ts' ++ rest)) } us (ts' ++ rest) hus hend (by omega)
  rw [branches]
  cases bs with
  | nil =>
    obtain rfl := List.map_eq_nil_iff.1 hts'
    obtain ⟨es', hbranch, hes'⟩ := hread fun t ht => .inr (hrest t ht)
    rw [List.nil_append] at hbranch ⊢
    rw [hbranch]
    cases rest with
    | nil => exact ⟨_, rfl, by simp [bareBranches, hes']⟩
    | cons t rest =>
      have hk : t.kind ≠ .pipe := by simp [hrest t rfl]
      exact ⟨_, if_neg hk, by simp [bareBranches, hes']⟩
  | cons b' bs =>
    rw [wordsIn_branchesScript_false] at hts'
    obtain ⟨p, ts', rfl, hp, hts'⟩ := List.map_eq_cons_iff.1 hts'
    have hk : p.kind = .pipe := congrArg Lexeme.kind hp
    obtain ⟨es', hbranch, hes'⟩ := hread fun t ht => by
      obtain rfl : p = t := by simpa using ht
      exact .inl hk
    simp only [List.cons_append, List.length_append, List.length_cons] at hfuel
    obtain ⟨bs', hbranches, hbs'⟩ := (hbs.resolve_left (by simp)) last fuel ts' rest hts' hrest
      (by simp only [List.length_append]; omega)
    refine ⟨{ elements := es', offset := startOffset last (us ++ (p :: ts' ++ rest)) } :: bs',
      ?_, ?_⟩
    · rw [hbranch]
      simp only [List.cons_append, List.nil_append, hk, if_true, hbranches]
    · simp [bareBranches, hes', hbs']

/-! ## Contents -/

theorem exists_fuel {n fuel : Nat} (h : n + 1 ≤ fuel) : ∃ k, fuel = k + 1 ∧ n ≤ k :=
  ⟨fuel - 1, by omega, by omega⟩

theorem readsBack_name {c : Content} {name : String} (hname : Content.ofName name = c)
    (hwords : wordsIn c.script = [⟨.ident, name.toList⟩]) : ReadsBack c := by
  intro last fuel ts rest hts _ hfuel
  rw [hwords] at hts
  obtain ⟨t, rfl, hk, htext⟩ := exists_of_map_eq_singleton hts
  obtain ⟨fuel, rfl, -⟩ := exists_fuel hfuel
  have hn : t.name = name := by rw [Token.name, htext, String.ofList_toList]
  refine ⟨c, ?_, rfl⟩
  rw [List.singleton_append, atom]
  simp only [hk, hn, hname]

theorem readsBack_literal (quoted : List Char) : ReadsBack (.literal quoted) := by
  intro last fuel ts rest hts hrest hfuel
  obtain ⟨t, rfl, hk, rfl⟩ := exists_of_map_eq_singleton hts
  obtain ⟨fuel, rfl, -⟩ := exists_fuel hfuel
  have hliteral : literalOrRange t rest = (.literal t.text, rest) := by
    match rest with
    | [] => rfl
    | [_] => rfl
    | op :: last :: rest => simp [literalOrRange, (hrest op rfl).1]
  refine ⟨_, ?_, rfl⟩
  rw [List.singleton_append, atom]
  simp only [hk, hliteral]

theorem readsBack_range (first last : List Char) : ReadsBack (.range first last) := by
  intro end_ fuel ts rest hts _ hfuel
  obtain ⟨a, us, rfl, ha, hus⟩ := List.map_eq_cons_iff.1 hts
  obtain ⟨op, vs, rfl, hop, hvs⟩ := List.map_eq_cons_iff.1 hus
  obtain ⟨z, rfl, hz, rfl⟩ := exists_of_map_eq_singleton hvs
  obtain ⟨fuel, rfl, -⟩ := exists_fuel hfuel
  have hk : a.kind = .literal := congrArg Lexeme.kind ha
  have hop : op.kind = .range := congrArg Lexeme.kind hop
  obtain rfl : a.text = first := congrArg Lexeme.text ha
  refine ⟨_, ?_, rfl⟩
  rw [List.cons_append, atom]
  simp [hk, literalOrRange, hop, hz]

theorem readsBack_negated {inner : Content} (h : ReadsBack inner) : ReadsBack (.negated inner) := by
  intro last fuel ts rest hts hrest hfuel
  obtain ⟨t, ts', rfl, ht, hts'⟩ := List.map_eq_cons_iff.1 hts
  obtain ⟨fuel, rfl, hfuel⟩ := exists_fuel hfuel
  have hk : t.kind = .tilde := congrArg Lexeme.kind ht
  have hts' : ts'.map Token.lexeme = wordsIn inner.script := hts'
  simp only [List.cons_append, List.length_cons] at hfuel
  obtain ⟨c', hatom, hbare⟩ := h last fuel ts' rest hts' hrest (by omega)
  have hends : endsAtom (ts' ++ rest) = false := by
    obtain ⟨l, ls, hwords, hl⟩ := exists_wordsIn_script inner
    rw [hwords] at hts'
    obtain ⟨u, us, rfl, rfl, -⟩ := List.map_eq_cons_iff.1 hts'
    cases hkind : u.kind <;> simp_all [Token.lexeme, TokenKind.beginsContent, endsAtom]
  refine ⟨.negated c', ?_, by rw [Content.bare, Content.bare, hbare]⟩
  rw [List.cons_append, atom]
  simp [hk, hends, hatom]

theorem readsBack_group {bs : List Branch} (h : BranchesReadBack bs) : ReadsBack (.group bs) := by
  intro last fuel ts rest hts _ hfuel
  rw [wordsIn_group, List.cons_append] at hts
  obtain ⟨t, us, rfl, ht, hus⟩ := List.map_eq_cons_iff.1 hts
  obtain ⟨ts', vs, rfl, hts', hvs⟩ := List.map_eq_append_iff.1 hus
  obtain ⟨c, rfl, hclose, -⟩ := exists_of_map_eq_singleton hvs
  obtain ⟨fuel, rfl, hfuel⟩ := exists_fuel hfuel
  have hk : t.kind = .parenOpen := congrArg Lexeme.kind ht
  have hclose : c.kind = .parenClose := hclose
  have hend : ∀ u ∈ (c :: rest).head?, u.kind = .parenClose := by
    intro u hu
    obtain rfl : c = u := by simpa using hu
    exact hclose
  simp only [List.cons_append, List.append_assoc, List.length_cons, List.nil_append] at hfuel ⊢
  obtain ⟨bs', hbranches, hbs'⟩ := h last fuel ts' (c :: rest) hts' hend (by omega)
  refine ⟨.group bs', ?_, by rw [Content.bare, Content.bare, hbs']⟩
  rw [atom]
  simp [hk, hbranches, hclose]

mutual

theorem readsBack : ∀ c : Content, c.isProper = true → c.IsLegible → ReadsBack c
  | .token _, _, hl => readsBack_name hl.1 rfl
  | .rule _, _, hl => readsBack_name hl.1 rfl
  | .literal quoted, _, _ => readsBack_literal quoted
  | .charSet text, _, _ => by
    intro last fuel ts rest hts _ hfuel
    obtain ⟨t, rfl, hk, rfl⟩ := exists_of_map_eq_singleton hts
    obtain ⟨fuel, rfl, -⟩ := exists_fuel hfuel
    exact ⟨_, by rw [List.singleton_append, atom]; simp only [hk], rfl⟩
  | .range first last, _, _ => readsBack_range first last
  | .group bs, hp, hl => by
    simp only [Content.isProper, Bool.and_eq_true, Bool.not_eq_true', List.isEmpty_eq_false_iff]
      at hp
    exact readsBack_group (branchesReadBack bs hp.2 hl hp.1)
  | .wildcard, _, _ => by
    intro last fuel ts rest hts _ hfuel
    obtain ⟨t, rfl, hk, -⟩ := exists_of_map_eq_singleton hts
    obtain ⟨fuel, rfl, -⟩ := exists_fuel hfuel
    exact ⟨_, by rw [List.singleton_append, atom]; simp only [hk], rfl⟩
  | .negated inner, hp, hl => readsBack_negated (readsBack inner hp hl)
  | .endOfInput, _, _ => readsBack_name rfl rfl

theorem branchesReadBack : ∀ bs : List (AlternativeOf Content), properBranches bs = true →
    LegibleBranches bs → bs ≠ [] → BranchesReadBack bs
  | [], _, _, hne => absurd rfl hne
  | ⟨elements, label, commands, offset⟩ :: rest, hp, hl, _ => by
    rw [properBranches, Bool.and_eq_true] at hp
    refine branchesReadBack_cons (elementsReadBack elements hp.1 hl.1) ?_
    by_cases hrest : rest = []
    · exact .inl hrest
    · exact .inr (branchesReadBack rest hp.2 hl.2 hrest)

theorem elementsReadBack : ∀ es : List (ElementOf Content), properElements es = true →
    LegibleElements es → ElementsReadBack es
  | [], _, _ => elementsReadBack_nil
  | ⟨content, modifier, greedy⟩ :: rest, hp, hl => by
    simp only [properElements, Bool.and_eq_true, Bool.or_eq_true, decide_eq_true_eq] at hp
    exact elementsReadBack_cons (readsBack content hp.1.1 hl.1) hp.1.2
      (elementsReadBack rest hp.2 hl.2)

end

/-! ## Whole structures -/

theorem bare_parse_render {s : Structure} (hne : s.alternatives ≠ [])
    (hp : properBranches s.alternatives = true) (hl : LegibleBranches s.alternatives) :
    (Structure.parse s.render).bare = s.bare := by
  have htokens := map_lexeme_significant_render_of_legible hl
  obtain ⟨bs', hbranches, hbs'⟩ := branchesReadBack s.alternatives hp hl hne
    (((significant s.render).getLast?.map (·.offset)).getD 0)
    (4 * (significant s.render).length + 4) (significant s.render) [] htokens (by simp)
    (by simp)
  rw [List.append_nil] at hbranches
  have hparse : (Structure.parse s.render).alternatives = bs' := by
    simp only [Structure.parse, allBranches, hbranches]
  rw [Structure.bare, hparse, hbs']
  rfl

/-- One alternative by itself. -/
theorem bare_parse_render_alternative {b : Branch} (hp : properElements b.elements = true)
    (hl : LegibleElements b.elements) : (Structure.parse b.render).bare = ⟨[b.bare]⟩ := by
  have hrender : (⟨[b]⟩ : Structure).render = b.render := by
    simp [Structure.render, List.intercalate]
  have h := bare_parse_render (s := ⟨[b]⟩) (by simp)
    (show properBranches [b] = true by simp [properBranches, hp]) ⟨hl, trivial⟩
  rwa [hrender] at h

mutual

theorem readable_of_content : ∀ c : Content, c.isProper = true → c.IsLegible →
    ∀ b ∈ c.branchesWithin, properElements b.elements = true ∧ LegibleElements b.elements
  | .group bs, hp, hl => by
    simp only [Content.isProper, Bool.and_eq_true] at hp
    exact readable_of_branches bs hp.2 hl
  | .negated inner, hp, hl => readable_of_content inner hp hl
  | .token _, _, _ => by simp [Content.branchesWithin]
  | .rule _, _, _ => by simp [Content.branchesWithin]
  | .literal _, _, _ => by simp [Content.branchesWithin]
  | .charSet _, _, _ => by simp [Content.branchesWithin]
  | .range _ _, _, _ => by simp [Content.branchesWithin]
  | .wildcard, _, _ => by simp [Content.branchesWithin]
  | .endOfInput, _, _ => by simp [Content.branchesWithin]

theorem readable_of_branches : ∀ bs : List (AlternativeOf Content), properBranches bs = true →
    LegibleBranches bs →
      ∀ b ∈ branchesAmong bs, properElements b.elements = true ∧ LegibleElements b.elements
  | [], _, _ => by simp [branchesAmong]
  | ⟨elements, label, commands, offset⟩ :: rest, hp, hl => by
    rw [properBranches, Bool.and_eq_true] at hp
    intro b hb
    rw [branchesAmong, List.cons_append, List.mem_cons, List.mem_append] at hb
    rcases hb with rfl | hb | hb
    · exact ⟨hp.1, hl.1⟩
    · exact readable_of_elements elements hp.1 hl.1 b hb
    · exact readable_of_branches rest hp.2 hl.2 b hb

theorem readable_of_elements : ∀ es : List (ElementOf Content), properElements es = true →
    LegibleElements es →
      ∀ b ∈ branchesOfElements es, properElements b.elements = true ∧ LegibleElements b.elements
  | [], _, _ => by simp [branchesOfElements]
  | ⟨content, modifier, greedy⟩ :: rest, hp, hl => by
    simp only [properElements, Bool.and_eq_true] at hp
    intro b hb
    rcases List.mem_append.1 hb with hb | hb
    · exact readable_of_content content hp.1.1 hl.1 b hb
    · exact readable_of_elements rest hp.2 hl.2 b hb

end

/-- The written form of a structure reads back as that structure, and the written form of each of
its alternatives, at any level, as that alternative alone. -/
theorem parse_render_parse (body : List Char) :
    (Structure.parse (Structure.parse body).render).bare = (Structure.parse body).bare ∧
      ∀ b ∈ (Structure.parse body).allAlternatives,
        (Structure.parse b.render).bare = ⟨[b.bare]⟩ := by
  have hread := readsAll_allBranches
    (((significant body).getLast?.map (·.offset)).getD 0) ((significant body).length + 1)
    (significant body) (lawful_significant body) (Nat.lt_succ_self _)
  have hproper : properBranches (Structure.parse body).alternatives = true := hread.proper
  have hlegible := legibleBranches_parse body
  refine ⟨bare_parse_render hread.nonempty hproper hlegible, fun b hb => ?_⟩
  obtain ⟨hp, hl⟩ := readable_of_branches _ hproper hlegible b hb
  exact bare_parse_render_alternative hp hl

end GrammarLab.Body
