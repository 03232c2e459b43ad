import GrammarLab.Proofs.Body.Rendering
import GrammarLab.Proofs.Pattern.Compiler
import GrammarLab.Proofs.Pattern.Matching
import GrammarLab.Proofs.Pattern.Translation

/-!
# Patterns of literals

A body that is read as one literal without a modifier, and that has a spelling, spells nothing but
the literal: whatever else its tokens are, they are commands.

    IsLiteral r.structure quoted → p.MatchesOnly (Literal.unescape quoted)   (matchesOnly_of_isLiteral)
-/

namespace GrammarLab.Pattern

open Body Text

/-! ## Tokens that spell something -/

variable {g : Grammar} {t : Token} {ts : List Token} {x : Spelling}

theorem assembled_cons (h : Assembled g (pieces (t :: ts)) x) :
    ∃ p rest, leadingPiece t ts = .ok (p, rest) ∧ Assembled g (p :: pieces rest) x := by
  cases hp : leadingPiece t ts with
  | error e =>
    rw [pieces_of_error hp] at h
    cases h
  | ok r =>
    obtain ⟨p, rest⟩ := r
    rw [pieces_of_leadingPiece hp] at h
    exact ⟨p, rest, rfl, h⟩

theorem not_assembled_of_failure {e : PatternError} {rest : List Token}
    (hp : leadingPiece t ts = .ok (.failure e, rest)) : ¬Assembled g (pieces (t :: ts)) x := by
  intro h
  rw [pieces_of_leadingPiece hp] at h
  cases h

theorem assembled_literal (hk : t.kind = .literal) (hr : rangeEnd? ts = none)
    (h : Assembled g (pieces (t :: ts)) x) :
    ∃ u, Assembled g (pieces ts) u ∧
      x = ⟨grouped (literalText (Literal.unescape t.text)) ++ u.text, u.isLazy⟩ := by
  have hlead : leadingPiece t ts =
      .ok (.text (grouped (literalText (Literal.unescape t.text))), ts) := by
    rw [leadingPiece, if_pos hk, hr]
  rw [pieces_of_leadingPiece hlead] at h
  cases h with
  | text hu => exact ⟨_, hu, rfl⟩

/-- Commands spell nothing. -/
theorem assembled_commands (hk : t.kind = .arrow) (h : Assembled g (pieces (t :: ts)) x) :
    Assembled g (pieces (commandList ts).2) x := by
  have hlead : leadingPiece t ts = .ok (.text [], (commandList ts).2) := by
    simp [leadingPiece, hk]
  rw [pieces_of_leadingPiece hlead] at h
  cases h with
  | text hu => exact hu

/-- The kinds of tokens with which an element of a pattern begins. -/
def elementKinds : List TokenKind := [.literal, .charClass, .tilde, .dot, .parenOpen, .ident]

theorem kind_of_assembled (h : Assembled g (pieces (t :: ts)) x)
    (hq : t.kind.isQuantifier = false) :
    t.kind ∈ elementKinds ∨ t.kind = .arrow ∨ t.kind = .pipe ∨ t.kind = .parenClose := by
  cases hk : t.kind with
  | question => simp [hk, TokenKind.isQuantifier, TokenKind.isGreedy] at hq
  | star => simp [hk, TokenKind.isQuantifier, TokenKind.isGreedy] at hq
  | plus => simp [hk, TokenKind.isQuantifier, TokenKind.isGreedy] at hq
  | starQuestion => simp [hk, TokenKind.isQuantifier, TokenKind.isLazy] at hq
  | plusQuestion => simp [hk, TokenKind.isQuantifier, TokenKind.isLazy] at hq
  | questionQuestion => simp [hk, TokenKind.isQuantifier, TokenKind.isLazy] at hq
  | literal => simp [elementKinds]
  | charClass => simp [elementKinds]
  | tilde => simp [elementKinds]
  | dot => simp [elementKinds]
  | parenOpen => simp [elementKinds]
  | parenClose => simp [elementKinds]
  | pipe => simp [elementKinds]
  | arrow => simp [elementKinds]
  | ident => simp [elementKinds]
  | _ =>
    have hlead := leadingPiece_lone ts (t := t) (by rw [hk]; decide)
    rw [lonePiece, hk] at hlead
    exact absurd h (not_assembled_of_failure hlead)

/-- A name in front of an assignment is a label, and these have no spelling. -/
theorem not_startsWithAssign (h : Assembled g (pieces (t :: ts)) x) (hk : t.kind = .ident) :
    startsWithAssign ts = false := by
  cases ts with
  | nil => rfl
  | cons u us =>
    have hlead := leadingPiece_lone (u :: us) (t := t) (by rw [hk]; decide)
    rw [pieces_of_leadingPiece hlead, lonePiece, hk] at h
    have hrest : ∃ y, Assembled g (pieces (u :: us)) y := by
      by_cases he : t.name = endOfInput
      · simp only [he, if_true] at h
        cases h
      · simp only [he, if_false] at h
        cases h with
        | reference _ _ _ hu => exact ⟨_, hu⟩
    obtain ⟨y, hy⟩ := hrest
    cases hu : u.kind with
    | equals =>
      have hlead := leadingPiece_lone us (t := u) (by rw [hu]; decide)
      rw [lonePiece, hu] at hlead
      exact absurd hy (not_assembled_of_failure hlead)
    | plusEquals =>
      have hlead := leadingPiece_lone us (t := u) (by rw [hu]; decide)
      rw [lonePiece, hu] at hlead
      exact absurd hy (not_assembled_of_failure hlead)
    | _ => simp [startsWithAssign, hu]

/-- What a negation is in front of begins an element too. -/
theorem exists_of_negatedSet {s : List Char} {rest : List Token}
    (h : negatedSet ts = .ok (s, rest)) :
    ∃ u us, ts = u :: us ∧ u.kind ∈ [.literal, .charClass, .parenOpen] := by
  cases ts with
  | nil => simp [negatedSet] at h
  | cons u us =>
    refine ⟨u, us, rfl, ?_⟩
    unfold negatedSet at h
    by_cases h₁ : u.kind = .charClass
    · simp [h₁]
    by_cases h₂ : u.kind = .literal
    · simp [h₂]
    by_cases h₃ : u.kind = .parenOpen
    · simp [h₃]
    simp [h₁, h₂, h₃] at h

/-! ## Elements -/

theorem exists_atom_of_kind (last fuel : Nat) (ts : List Token)
    (hk : t.kind ∈ [.literal, .charClass, .parenOpen, .dot, .ident]) :
    ∃ c rest, atom last (fuel + 1) (t :: ts) = (some c, rest) := by
  simp only [List.mem_cons, List.not_mem_nil, or_false] at hk
  rw [atom]
  rcases hk with hk | hk | hk | hk | hk <;> simp only [hk]
  · exact ⟨_, _, rfl⟩
  · exact ⟨_, _, rfl⟩
  · split
    · exact ⟨_, _, rfl⟩
    · exact ⟨_, _, rfl⟩
  · exact ⟨_, _, rfl⟩
  · exact ⟨_, _, rfl⟩

theorem eq_of_literalOrRange {quoted : List Char}
    (h : (literalOrRange t ts).1 = .literal quoted) :
    quoted = t.text ∧ (literalOrRange t ts).2 = ts ∧ rangeEnd? ts = none := by
  cases ts with
  | nil =>
    simp only [literalOrRange, Content.literal.injEq] at h
    exact ⟨h.symm, rfl, rfl⟩
  | cons op ts =>
    cases ts with
    | nil =>
      simp only [literalOrRange, Content.literal.injEq] at h
      exact ⟨h.symm, rfl, rfl⟩
    | cons last rest =>
      by_cases hr : (op.kind = .range && last.kind = .literal) = true
      · simp [literalOrRange, hr] at h
      · simp only [literalOrRange, hr, Bool.false_eq_true, if_false, Content.literal.injEq] at h
        exact ⟨h.symm, by simp [literalOrRange, hr], by simp [rangeEnd?, hr]⟩

/-- An element is read where a pattern goes on, and it is a literal only where one stands. -/
theorem exists_atom (last fuel : Nat) (h : Assembled g (pieces (t :: ts)) x)
    (hk : t.kind ∈ elementKinds) :
    ∃ c rest, atom last (fuel + 2) (t :: ts) = (some c, rest) ∧
      ∀ quoted, c = .literal quoted → t.kind = .literal ∧ quoted = t.text ∧ rest = ts ∧
        rangeEnd? ts = none := by
  simp only [elementKinds, List.mem_cons, List.not_mem_nil, or_false] at hk
  rcases hk with hk | hk | hk | hk | hk | hk
  · rw [atom]
    simp only [hk]
    refine ⟨_, _, rfl, fun quoted hquoted => ?_⟩
    exact ⟨trivial, eq_of_literalOrRange hquoted⟩
  · rw [atom]
    simp only [hk]
    exact ⟨_, _, rfl, by simp⟩
  · obtain ⟨p, rest, hlead, -⟩ := assembled_cons h
    simp only [leadingPiece, hk, reduceCtorEq, if_false, if_true] at hlead
    obtain ⟨⟨inside, behind⟩, hset, -⟩ := bind_eq_ok.1 hlead
    obtain ⟨u, us, rfl, hu⟩ := exists_of_negatedSet hset
    have hu' : u.kind ∈ [TokenKind.literal, .charClass, .parenOpen, .dot, .ident] := by
      simp only [List.mem_cons, List.not_mem_nil, or_false] at hu
      rcases hu with hu | hu | hu <;> simp [hu]
    obtain ⟨c, rest', hatom⟩ := exists_atom_of_kind last fuel us hu'
    refine ⟨.negated c, rest', ?_, by simp⟩
    have hends : endsAtom (u :: us) = false := by
      simp only [List.mem_cons, List.not_mem_nil, or_false] at hu
      rcases hu with hu | hu | hu <;> simp [endsAtom, hu]
    rw [atom]
    simp [hk, hends, hatom]
  · rw [atom]
    simp only [hk]
    exact ⟨_, _, rfl, by simp⟩
  · rw [atom]
    simp only [hk]
    split
    · exact ⟨_, _, rfl, by simp⟩
    · exact ⟨_, _, rfl, by simp⟩
  · rw [atom]
    simp only [hk]
    refine ⟨_, _, rfl, fun quoted hquoted => ?_⟩
    unfold Content.ofName at hquoted
    split at hquoted
    · simp at hquoted
    split at hquoted <;> simp at hquoted

variable {last fuel : Nat} {b b' : Branch}

/-- Reading an alternative goes on behind the element that begins here. -/
theorem exists_branch_element (last : Nat) (b : Branch) (hts : Lawful (t :: ts))
    (h : Assembled g (pieces (t :: ts)) x) (hk : t.kind ∈ elementKinds)
    (hfuel : 4 * (t :: ts).length + 3 ≤ fuel) :
    ∃ c rest e rest' k, quantified c (passOptions rest) = (e, rest') ∧
      (∀ quoted, c = .literal quoted → t.kind = .literal ∧ quoted = t.text ∧ rest = ts ∧
        rangeEnd? ts = none) ∧
      rest' <:+ ts ∧ 4 * ts.length + 3 ≤ k ∧
      branch last fuel b (t :: ts) =
        branch last k { b with elements := b.elements ++ [e] } rest' := by
  simp only [List.length_cons] at hfuel
  obtain ⟨k, rfl⟩ : ∃ k, fuel = k + 4 := ⟨fuel - 4, by omega⟩
  obtain ⟨c, rest, hatom, hc⟩ := exists_atom last k h hk
  obtain ⟨⟨e, rest'⟩, hq⟩ : ∃ r, quantified c (passOptions rest) = r := ⟨_, rfl⟩
  have hread : branch last (k + 4) b (t :: ts) = branchElement last (k + 3) b (t :: ts) := by
    have hident : t.kind = .ident → startsWithAssign ts = false := not_startsWithAssign h
    simp only [elementKinds, List.mem_cons, List.not_mem_nil, or_false] at hk
    rw [branch]
    rcases hk with hk | hk | hk | hk | hk | hk <;> simp [hk, hident]
  have hsuffix : rest' <:+ ts := by
    have hpipe : t.kind ≠ .pipe := by
      intro he
      simp [he, elementKinds] at hk
    have hclose : t.kind ≠ .parenClose := by
      intro he
      simp [he, elementKinds] at hk
    have hrest := ((reads last (k + 2)).2.2.2 t ts hts hpipe hclose
      (by simp only [List.length_cons]; omega)).suffix
    rw [hatom] at hrest
    have hlaw := (hts.of_suffix (List.suffix_cons t ts)).of_suffix hrest
    have hoptions := (covers_passOptions hlaw).1
    have hquant := (covers_quantified c (hlaw.of_suffix hoptions)).1
    rw [hq] at hquant
    exact (hquant.trans hoptions).trans hrest
  refine ⟨c, rest, e, rest', k + 2, hq, hc, hsuffix, by omega, ?_⟩
  rw [hread, branchElement]
  simp only [hatom, hq]

theorem content_quantified (c : Content) (ts : List Token) :
    (quantified c ts).1.content = c := by
  cases ts with
  | nil => rfl
  | cons t ts =>
    rw [quantified]
    split <;> rfl

/-- In front of what a pattern goes on with there are no options and no modifier. -/
theorem quantified_passOptions (c : Content) (hquant : ∀ t ∈ ts, t.kind.isQuantifier = false)
    (h : Assembled g (pieces ts) x) :
    quantified c (passOptions ts) = (⟨c, .once, true⟩, ts) := by
  cases ts with
  | nil => rfl
  | cons t ts =>
    have hkind := kind_of_assembled h (hquant t List.mem_cons_self)
    have hlt : t.kind ≠ .lt := by
      rintro hk
      simp [hk, elementKinds] at hkind
    have hmodifier : t.kind.modifier? = none := by
      simp only [elementKinds, List.mem_cons, List.not_mem_nil, or_false] at hkind
      rcases hkind with (hk | hk | hk | hk | hk | hk) | hk | hk | hk <;>
        simp [hk, TokenKind.modifier?]
    simp [passOptions, hlt, quantified, hmodifier]

/-- Elements that are read behind the alternative `b`: if there are none, nothing is spelled, and a
single literal without a modifier spells itself. -/
theorem spelling_of_branch {es : List Element} (hts : Lawful ts)
    (hquant : ∀ t ∈ ts, t.kind.isQuantifier = false) (h : Assembled g (pieces ts) x)
    (hfuel : 4 * ts.length + 3 ≤ fuel) (hb : branch last fuel b ts = (b', []))
    (he : b'.elements = b.elements ++ es) :
    (es = [] → x = ⟨[], false⟩) ∧
      ∀ quoted greedy, es = [⟨.literal quoted, .once, greedy⟩] →
        x = ⟨grouped (literalText (Literal.unescape quoted)), false⟩ := by
  induction hn : ts.length using Nat.strongRecOn generalizing ts b x fuel es with
  | _ n ih =>
    obtain ⟨fuel, rfl⟩ : ∃ k, fuel = k + 1 := ⟨fuel - 1, by omega⟩
    cases ts with
    | nil =>
      rw [pieces] at h
      rw [branch] at hb
      obtain ⟨rfl, -⟩ := Prod.mk.inj hb
      obtain rfl : es = [] := by simpa using he
      cases h
      exact ⟨fun _ => rfl, by simp⟩
    | cons t ts =>
      have htail := hts.of_suffix (List.suffix_cons t ts)
      have hquant' : ∀ u ∈ ts, u.kind.isQuantifier = false :=
        fun u hu => hquant u (List.mem_cons_of_mem t hu)
      simp only [List.length_cons] at hn
      rcases kind_of_assembled h (hquant t List.mem_cons_self) with hk | hk | hk | hk
      · obtain ⟨c, rest, e, rest', k, hq, hc, hsuffix, hk', hread⟩ :=
          exists_branch_element last b hts h hk hfuel
        have hlen := hsuffix.length_le
        rw [hread] at hb
        obtain ⟨-, -, es', hes, -⟩ := (reads last k).2.1
          { b with elements := b.elements ++ [e] } rest' (htail.of_suffix hsuffix) (by omega)
        rw [hb] at hes
        obtain rfl : es = e :: es' := by simpa using he.symm.trans hes
        refine ⟨by simp, fun quoted greedy hliteral => ?_⟩
        obtain ⟨rfl, rfl⟩ := List.cons.inj hliteral
        have hcontent := content_quantified c (passOptions rest)
        rw [hq] at hcontent
        obtain ⟨hkind, rfl, rfl, hrange⟩ := hc quoted hcontent.symm
        obtain ⟨u, hu, rfl⟩ := assembled_literal hkind hrange h
        have hrest := quantified_passOptions c hquant' hu
        rw [hq] at hrest
        obtain ⟨-, rfl⟩ := Prod.mk.inj hrest
        have hnil := (ih _ (by omega) htail hquant' hu hk' hb hes rfl).1 rfl
        rw [hnil, List.append_nil]
      · -- commands are passed over by both
        rw [branch] at hb
        simp only [hk] at hb
        have hsuffix := commandList_suffix ts
        have hlen := hsuffix.length_le
        simp only [List.length_cons] at hfuel
        exact ih _ (by omega) (htail.of_suffix hsuffix)
          (fun u hu => hquant' u (hsuffix.subset hu)) (assembled_commands hk h) (by omega) hb he rfl
      · rw [branch] at hb
        simp [hk] at hb
      · rw [branch] at hb
        simp [hk] at hb

/-! ## Bodies -/

/-- Alternatives that are one only. -/
theorem branches_eq_singleton {bs : List Branch} (hts : Lawful ts) (hfuel : 4 * ts.length + 4 ≤ fuel)
    (h : branches last fuel ts = (bs, [])) (hone : bs = [b]) :
    ∃ b₀ : Branch, b₀.elements = [] ∧ branch last (fuel - 1) b₀ ts = (b, []) := by
  obtain ⟨fuel, rfl⟩ : ∃ k, fuel = k + 1 := ⟨fuel - 1, by omega⟩
  refine ⟨{ offset := startOffset last ts }, rfl, ?_⟩
  have hread := (reads last fuel).2.1 { offset := startOffset last ts } ts hts (by omega)
  rw [branches] at h
  split at h
  · rename_i b' hb
    obtain ⟨rfl, -⟩ := Prod.mk.inj h
    obtain rfl : b' = b := by simpa using hone
    exact hb
  · rename_i b' p rest hb
    rw [hb] at hread
    split at h
    · -- behind a pipe there is another alternative
      have hsuffix := hread.suffix
      have hlen := hsuffix.length_le
      simp only [List.length_cons] at hlen
      have hrest := (reads last fuel).1 rest
        ((hts.of_suffix hsuffix).of_suffix (List.suffix_cons p rest)) (by omega)
      obtain ⟨rfl, -⟩ := Prod.mk.inj h
      exact absurd (List.cons.inj hone).2 hrest.nonempty
    · simp at h

theorem allBranches_eq_singleton (hts : Lawful ts)
    (h : allBranches last (ts.length + 1) ts = [b]) :
    ∃ b₀ : Branch, b₀.elements = [] ∧ branch last (4 * ts.length + 3) b₀ ts = (b, []) := by
  rw [allBranches] at h
  have hread := (reads last (4 * ts.length + 4)).1 ts hts (Nat.le_refl _)
  split at h
  · rename_i bs hbs
    exact branches_eq_singleton hts (Nat.le_refl _) hbs h
  · -- behind a stray parenthesis there is another alternative
    rename_i bs p rest hbs
    rw [hbs] at hread
    have hsuffix := hread.suffix
    have hlen := hsuffix.length_le
    simp only [List.length_cons] at hlen
    have hrest := readsAll_allBranches last ts.length rest
      ((hts.of_suffix hsuffix).of_suffix (List.suffix_cons p rest)) (by omega)
    have hcount := congrArg List.length h
    have h₁ := List.length_pos_iff.2 hread.nonempty
    have h₂ := List.length_pos_iff.2 hrest.nonempty
    simp only [List.length_append, List.length_cons, List.length_nil] at hcount h₁
    omega

/-- The structure is one literal without a modifier. -/
def IsLiteral (s : Structure) (quoted : List Char) : Prop :=
  ∃ greedy label commands offset,
    s.alternatives = [⟨[⟨.literal quoted, .once, greedy⟩], label, commands, offset⟩]

theorem soleLiteral?_of_isLiteral {s : Structure} {quoted : List Char} (h : IsLiteral s quoted) :
    s.soleLiteral? =
      if (Literal.unescape quoted).isEmpty then none else some (Literal.unescape quoted) := by
  obtain ⟨greedy, label, commands, offset, h⟩ := h
  rw [Structure.soleLiteral?, h]

theorem exists_isLiteral_of_soleLiteral? {s : Structure} {value : List Char}
    (h : s.soleLiteral? = some value) :
    ∃ quoted, IsLiteral s quoted ∧ Literal.unescape quoted = value := by
  unfold Structure.soleLiteral? at h
  split at h
  · rename_i quoted greedy label commands offset hs
    simp only [Option.ite_none_left_eq_some, Option.some.injEq] at h
    exact ⟨quoted, ⟨greedy, label, commands, offset, hs⟩, h.2⟩
  · simp at h

theorem spelling_of_isLiteral {body quoted : List Char} (h : IsLiteral (Structure.parse body) quoted)
    (hquant : ∀ t ∈ significant body, t.kind.isQuantifier = false)
    (hx : Assembled g (pieces (significant body)) x) :
    x = ⟨grouped (literalText (Literal.unescape quoted)), false⟩ := by
  obtain ⟨greedy, label, commands, offset, h⟩ := h
  have hts := lawful_significant body
  obtain ⟨b₀, hnone, hb⟩ := allBranches_eq_singleton hts h
  exact (spelling_of_branch hts hquant hx (Nat.le_refl _) hb (by rw [hnone]; rfl)).2 quoted greedy rfl

/-! ## Patterns -/

/-- The pattern matches the text and nothing else. -/
structure MatchesOnly (p : Pattern) (s : List Char) : Prop where
  greedy : p.isLazy = false
  exact : ∀ t, p.regex.Matches t ↔ t = s

/-- Every text is a literal that has a pattern. -/
theorem exists_literal (s : List Char) : ∃ p, Pattern.literal s = .ok p := by
  have hsymbols : Regex.symbols? (literalText s) =
      some ((s.map CharSet.single).map (Regex.Symbol.atom · 0)) := by
    rw [symbols?_literalText, List.map_map]
    rfl
  obtain ⟨p, hp⟩ := Regex.exists_parse?_of_atoms hsymbols
  exact ⟨_, by rw [Pattern.literal, ofSpelling, hp]⟩

theorem matchesOnly_literal {s : List Char} {p : Pattern} (h : Pattern.literal s = .ok p) :
    p.MatchesOnly s := by
  obtain ⟨hlazy, hparse, -⟩ := ofSpelling_eq_ok h
  exact ⟨hlazy, matches_iff_of_spells (spells_literalText s) hparse⟩

theorem matchesOnly_of_isLiteral {name : String} {r : Rule} {quoted : List Char} {p : Pattern}
    {c : Compiler} (hc : Reached g c) (hr : g.rule? name = some r)
    (h : IsLiteral r.structure quoted)
    (hquant : ∀ t ∈ significant r.definition, t.kind.isQuantifier = false)
    (hp : (Compiler.compileRule g name c).1 = .ok p) : p.MatchesOnly (Literal.unescape quoted) := by
  obtain ⟨t, ⟨r', hr', -, ht⟩, hpattern⟩ := exists_spelling_of_compileRule hc hp
  obtain rfl := Option.some.inj (hr.symm.trans hr')
  obtain ⟨hlazy, hparse, -⟩ := ofSpelling_eq_ok hpattern
  obtain rfl := spelling_of_isLiteral h hquant ht
  have hitem := spells_item (spells_literal (Literal.unescape quoted))
  have hspells := hitem.mono fun _ hy => Regex.isBranches_singleton (Regex.isSequence_singleton hy)
  exact ⟨hlazy, matches_iff_of_spells hspells hparse⟩

theorem MatchesOnly.takes {p : Pattern} {s : List Char} (h : p.MatchesOnly s) (hs : s ≠ []) :
    p.Takes s := by
  refine (matchAt_eq_some_iff h.greedy).2 ⟨byteLength_pos hs, ⟨s, ?_, (h.exact s).2 rfl⟩, ?_⟩
  · have := slice?_append [] s []
    rwa [List.nil_append, List.append_nil] at this
  · intro m t ht hm
    obtain rfl := (h.exact t).1 hm
    obtain ⟨-, -, -, -, hlen⟩ := slice?_eq_some ht
    omega

/-- The text stands where the pattern matches. -/
theorem MatchesOnly.exists_of_matchAt {p : Pattern} {s t : List Char} {offset n : Nat}
    (h : p.MatchesOnly s) (hm : p.matchAt t offset = some n) :
    s ≠ [] ∧ n = byteLength s ∧
      ∃ before behind, t = before ++ (s ++ behind) ∧ byteLength before = offset := by
  obtain ⟨hpos, ⟨u, hu, hmatch⟩, -⟩ := (matchAt_eq_some_iff h.greedy).1 hm
  obtain rfl := (h.exact u).1 hmatch
  obtain ⟨before, behind, ht, hbefore, hlen⟩ := slice?_eq_some hu
  have hn : n = byteLength u := by omega
  refine ⟨?_, hn, before, behind, by rw [ht, List.append_assoc], hbefore⟩
  rintro rfl
  simp only [byteLength] at hn
  omega

end GrammarLab.Pattern
