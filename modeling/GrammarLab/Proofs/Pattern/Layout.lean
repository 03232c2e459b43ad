import GrammarLab.Proofs.Pattern.Memo
import GrammarLab.Proofs.Pattern.Writing

/-!
# Symbols of spellings

The text of a spelling is laid out in cells by the tokens outside command lists, where the spelling
of another rule is one cell. So the groups and the lazy quantifiers of a spelling are known from the
tokens of its body and from the spellings of the rules that it refers to.

    Assembled g (pieces ts) u → ∃ cells, Lays g (freeTokens ts) cells u.isLazy ∧ u.text = writing cells
                                                                                    (exists_lays)
-/

namespace GrammarLab.Pattern

open Body Regex

/-- `Lays g ts cells l`: the tokens write the cells, and `l` tells whether a lazy quantifier is
among the tokens or those of an inlined rule. -/
inductive Lays (g : Grammar) : List Token → List Cell → Bool → Prop
  | nil : Lays g [] [] false
  | greedy {t q ts cells l} : t.kind = q.greedyKind → Lays g ts cells l →
      Lays g (t :: ts) (.mark q :: cells) l
  | lazily {t q ts cells l} : t.kind = q.lazyKind → Lays g ts cells l →
      Lays g (t :: ts) (.mark q :: .mark .optional :: cells) true
  | plain {W s ts cells l} : Plain W s → Lays g ts cells l → Lays g (W ++ ts) (.solid s :: cells) l
  | reference {t u ts cells l} : t.kind = .ident → IsSpelling g t.name u → Loose u.text →
      Lays g ts cells l →
      Lays g (t :: ts) (.solid (grouped u.text) :: cells) (u.isLazy || l)

/-- The text is read, and one of its symbols is a lazy quantifier. -/
def ReadsLazy (s : List Char) : Prop := ∃ ys, symbols? s = some ys ∧ ∃ q, .quantifier q true ∈ ys

/-- A lazy quantifier stands in the body outside command lists. -/
def WritesLazy (body : List Char) : Prop :=
  ∃ t ∈ freeTokens (significant body), t.kind.isLazy = true

/-- Somewhere in the body outside command lists, a question mark stands next to a quantifier, with
nothing but blank space and comments between the two. -/
def Fuses (body : List Char) : Prop :=
  ∃ before t u behind, freeTokens (significant body) = before ++ t :: u :: behind ∧
    t.kind.isGreedy = true ∧ u.kind = .question

/-- The parentheses of the body outside command lists are closed in the body. -/
def ParensMatch (body : List Char) : Prop :=
  (freeTokens (significant body)).foldlM parenNest? 0 = some 0

instance (body : List Char) : Decidable (ParensMatch body) :=
  inferInstanceAs (Decidable (_ = some 0))

section

variable {g : Grammar} {t : Token} {ts : List Token} {cells : List Cell} {l : Bool} {u : Spelling}
  {s : List Char} {xs : List Symbol}

theorem Lays.solid (h : Lays g ts cells l) : ∀ s, .solid s ∈ cells → Solid s := by
  induction h with
  | nil => simp
  | greedy _ _ ih => simpa using ih
  | lazily _ _ ih => simpa using ih
  | plain hW _ ih =>
    intro s hs
    rcases List.mem_cons.1 hs with heq | hs
    · obtain rfl := Cell.solid.inj heq
      exact hW.solid
    · exact ih s hs
  | reference _ _ hloose _ ih =>
    intro s hs
    rcases List.mem_cons.1 hs with heq | hs
    · obtain rfl := Cell.solid.inj heq
      exact solid_group hloose
    · exact ih s hs

/-- The induction goes through the bodies that references stand for, so that their texts are known
to be loose. -/
theorem exists_lays {ps : List Piece} (h : Assembled g ps u) :
    ∀ ts, (∀ t ∈ ts, t.lexeme.Regular) → pieces ts = ps →
      ∃ cells, Lays g (freeTokens ts) cells u.isLazy ∧ u.text = writing cells := by
  induction h with
  | nil =>
    intro ts hreg hts
    cases ts with
    | nil =>
      refine ⟨[], ?_, rfl⟩
      rw [freeTokens]
      exact .nil
    | cons t ts =>
      rw [pieces] at hts
      split at hts <;> cases hts
  | text _ ih =>
    intro ts hreg hts
    obtain ⟨W, rest, hW, hfree, hrest, hreg⟩ := exists_writes_of_pieces hreg hts (by simp)
    obtain ⟨cells, hcells, htext⟩ := ih rest hreg hrest
    rw [hfree]
    rcases hW with hW | ⟨rfl, hempty⟩
    · cases hW with
      | greedy hk => exact ⟨_, .greedy hk hcells, by rw [htext]; rfl⟩
      | plain hW => exact ⟨_, .plain hW hcells, by rw [htext]; rfl⟩
    · obtain rfl := Piece.text.inj hempty
      exact ⟨cells, hcells, htext⟩
  | lazyText _ ih =>
    intro ts hreg hts
    obtain ⟨W, rest, hW, hfree, hrest, hreg⟩ := exists_writes_of_pieces hreg hts (by simp)
    obtain ⟨cells, hcells, htext⟩ := ih rest hreg hrest
    rw [hfree]
    rcases hW with hW | ⟨-, hempty⟩
    · cases hW with
      | lazily hk => exact ⟨_, .lazily hk hcells, by rw [htext]; rfl⟩
    · cases hempty
  | reference hr hl ht _ iht ihu =>
    intro ts hreg hts
    obtain ⟨W, rest, hW, hfree, hrest, hreg⟩ := exists_writes_of_pieces hreg hts (by simp)
    obtain ⟨cells, hcells, htext⟩ := ihu rest hreg hrest
    rw [hfree]
    rcases hW with hW | ⟨-, hempty⟩
    · cases hW with
      | reference hk =>
        obtain ⟨inner, hinner, hinnerText⟩ := iht _ (fun t ht => (lawful_significant _ t ht).1) rfl
        have hloose := loose_writing hinner.solid
        rw [← hinnerText] at hloose
        exact ⟨_, .reference hk ⟨_, hr, hl, ht⟩ hloose hcells, by rw [htext]; rfl⟩
    · cases hempty

theorem exists_lays_of_body {body : List Char}
    (h : Assembled g (pieces (significant body)) u) :
    ∃ cells, Lays g (freeTokens (significant body)) cells u.isLazy ∧ u.text = writing cells :=
  exists_lays h _ (fun t ht => (lawful_significant body t ht).1) rfl

theorem loose_of_isSpelling {name : String} (h : IsSpelling g name u) : Loose u.text := by
  obtain ⟨r, -, -, ht⟩ := h
  obtain ⟨cells, hcells, htext⟩ := exists_lays_of_body ht
  rw [htext]
  exact loose_writing hcells.solid

theorem IsSpelling.unique {name : String} {v : Spelling} (hu : IsSpelling g name u)
    (hv : IsSpelling g name v) : u = v := by
  obtain ⟨r, hr, -, hu⟩ := hu
  obtain ⟨r', hr', -, hv⟩ := hv
  obtain rfl := Option.some.inj (hr.symm.trans hr')
  exact hu.unique hv

/-! ## References -/

theorem exists_identifier_iff {body : List Char} (P : String → Prop) :
    (∃ t ∈ freeTokens (significant body), t.kind = .ident ∧ P t.name) ↔
      ∃ b ∈ identifiers body, P b := by
  constructor
  · rintro ⟨t, ht, hk, hP⟩
    exact ⟨t.name, mem_identifiers.2 ⟨t, ht, hk, rfl⟩, hP⟩
  · rintro ⟨b, hb, hP⟩
    obtain ⟨t, ht, hk, rfl⟩ := mem_identifiers.1 hb
    exact ⟨t, ht, hk, hP⟩

theorem acc_of_isSpelling {name : String} (h : IsSpelling g name u) : Acc (fun b a => Refers g a b) name := by
  obtain ⟨r, hr, -, ht⟩ := h
  refine .intro name fun b hb => ht.acc b ?_
  exact reference_mem_pieces hr (isTranslatable_iff.2 ht.not_failure) hb

theorem Lays.mem_of_ident (h : Lays g ts cells l) (ht : t ∈ ts) (hk : t.kind = .ident) :
    ∃ u, IsSpelling g t.name u ∧ .solid (grouped u.text) ∈ cells := by
  induction h with
  | nil => cases ht
  | @greedy t' q _ _ _ hk' _ ih =>
    rcases List.mem_cons.1 ht with rfl | ht
    · rw [hk] at hk'
      cases q <;> cases hk'
    · obtain ⟨u, hu, hmem⟩ := ih ht
      exact ⟨u, hu, List.mem_cons_of_mem _ hmem⟩
  | @lazily t' q _ _ _ hk' _ ih =>
    rcases List.mem_cons.1 ht with rfl | ht
    · rw [hk] at hk'
      cases q <;> cases hk'
    · obtain ⟨u, hu, hmem⟩ := ih ht
      exact ⟨u, hu, List.mem_cons_of_mem _ (List.mem_cons_of_mem _ hmem)⟩
  | plain hW _ ih =>
    rcases List.mem_append.1 ht with ht | ht
    · exact absurd hk (hW.kinds t ht).2.1
    · obtain ⟨u, hu, hmem⟩ := ih ht
      exact ⟨u, hu, List.mem_cons_of_mem _ hmem⟩
  | reference _ hu _ _ ih =>
    rcases List.mem_cons.1 ht with rfl | ht
    · exact ⟨_, hu, List.mem_cons_self⟩
    · obtain ⟨u, hu, hmem⟩ := ih ht
      exact ⟨u, hu, List.mem_cons_of_mem _ hmem⟩

/-- The symbols of a rule that is referred to stand in those of the body, as a group. -/
theorem infix_of_identifier {body : List Char} {b : String}
    (h : Assembled g (pieces (significant body)) u) (hb : b ∈ identifiers body)
    (hx : symbols? u.text = some xs) :
    ∃ v ys, IsSpelling g b v ∧ symbols? v.text = some ys ∧
      (.groupOpen :: ys ++ [.groupClose]) <:+: xs := by
  obtain ⟨cells, hcells, htext⟩ := exists_lays_of_body h
  rw [htext, symbols?_writing hcells.solid] at hx
  obtain ⟨t, ht, hk, rfl⟩ := mem_identifiers.1 hb
  obtain ⟨v, hv, hmem⟩ := hcells.mem_of_ident ht hk
  obtain ⟨zs, hz, hin⟩ := infix_of_fuse hx hmem
  rw [grouped, symbols?_group_alone (loose_of_isSpelling hv)] at hz
  obtain ⟨ys, hy, rfl⟩ := Option.map_eq_some_iff.1 hz
  exact ⟨v, ys, hv, hy, hin⟩

/-! ## Groups -/

theorem Lays.foldlM_nest? (h : Lays g ts cells l)
    (hread : ∀ s, .solid s ∈ cells → ∃ ys, symbols? s = some ys)
    (hneutral : ∀ t ∈ ts, t.kind = .ident → ∀ u ys, IsSpelling g t.name u →
      symbols? u.text = some ys → Neutral ys) (n : Nat) :
    cells.foldlM Cell.nest? n = ts.foldlM parenNest? n := by
  induction h generalizing n with
  | nil => rfl
  | @greedy t q ts _ _ hk _ ih =>
    have hnest : parenNest? n t = some n := by
      apply parenNest?_of_ne <;> rw [hk] <;> cases q <;> decide
    rw [List.foldlM_cons, List.foldlM_cons, hnest]
    exact ih (fun s hs => hread s (List.mem_cons_of_mem _ hs))
      (List.forall_mem_cons.1 hneutral).2 n
  | @lazily t q ts _ _ hk _ ih =>
    have hnest : parenNest? n t = some n := by
      apply parenNest?_of_ne <;> rw [hk] <;> cases q <;> decide
    rw [List.foldlM_cons (l := ts), hnest]
    exact ih (fun s hs => hread s (List.mem_cons_of_mem _ (List.mem_cons_of_mem _ hs)))
      (List.forall_mem_cons.1 hneutral).2 n
  | @plain W s ts _ _ hW _ ih =>
    obtain ⟨ys, hys⟩ := hread s List.mem_cons_self
    rw [List.foldlM_cons, List.foldlM_append, Cell.nest?, hys, ← hW.nesting ys n hys]
    refine congrArg _ (funext fun m => ?_)
    exact ih (fun s hs => hread s (List.mem_cons_of_mem _ hs))
      (fun t ht => hneutral t (List.mem_append_right _ ht)) m
  | @reference t u ts _ _ hk hu hloose _ ih =>
    obtain ⟨ys, hys⟩ := hread _ List.mem_cons_self
    obtain ⟨hneutral, hrest⟩ := List.forall_mem_cons.1 hneutral
    have hnest : parenNest? n t = some n := by
      apply parenNest?_of_ne <;> rw [hk] <;> decide
    have hgroup : nesting? n ys = some n := by
      rw [grouped, symbols?_group_alone hloose] at hys
      obtain ⟨zs, hz, rfl⟩ := Option.map_eq_some_iff.1 hys
      exact neutral_group (hneutral hk u zs hu hz) n
    rw [List.foldlM_cons, List.foldlM_cons, hnest, Cell.nest?, hys, Option.bind_some, hgroup]
    exact ih (fun s hs => hread s (List.mem_cons_of_mem _ hs)) hrest n

/-- If the rules that the body refers to close the groups that they open, the groups of its
spelling are its own parentheses. -/
theorem nesting?_of_body {body : List Char} (h : Assembled g (pieces (significant body)) u)
    (hx : symbols? u.text = some xs)
    (hneutral : ∀ b ∈ identifiers body, ∀ v ys, IsSpelling g b v → symbols? v.text = some ys →
      Neutral ys) (n : Nat) :
    nesting? n xs = (freeTokens (significant body)).foldlM parenNest? n := by
  obtain ⟨cells, hcells, htext⟩ := exists_lays_of_body h
  rw [htext, symbols?_writing hcells.solid] at hx
  rw [nesting?_of_fuse hx]
  refine hcells.foldlM_nest? (fun s hs => ?_) (fun t ht hk v ys hv hy => ?_) n
  · obtain ⟨ys, hy, -⟩ := infix_of_fuse hx hs
    exact ⟨ys, hy⟩
  · exact hneutral t.name (mem_identifiers.2 ⟨t, ht, hk, rfl⟩) v ys hv hy

/-! ## Lazy quantifiers -/

theorem not_fuses_iff {body : List Char} :
    ¬Fuses body ↔ (freeTokens (significant body)).IsChain Unfused := by
  rw [List.isChain_iff_forall_rel_of_append_cons_cons]
  constructor
  · intro h t u before behind heq hgreedy hquestion
    exact h ⟨before, t, u, behind, heq, hgreedy, hquestion⟩
  · rintro h ⟨before, t, u, behind, heq, hgreedy, hquestion⟩
    exact h heq hgreedy hquestion

theorem isChain_append_of_not_greedy {W : List Token} (hW : ∀ t ∈ W, t.kind.isGreedy = false) :
    (W ++ ts).IsChain Unfused ↔ ts.IsChain Unfused := by
  induction W with
  | nil => rfl
  | cons t W ih =>
    obtain ⟨ht, hW⟩ := List.forall_mem_cons.1 hW
    rw [List.cons_append, List.isChain_cons, ih hW]
    refine and_iff_right fun u _ hgreedy => ?_
    rw [ht] at hgreedy
    cases hgreedy

theorem Lays.head? (h : Lays g ts cells l) : cells.head? = some (.mark .optional) ↔
    ∃ t ∈ ts.head?, t.kind = .question ∨ t.kind = .questionQuestion := by
  cases h with
  | nil => simp
  | @greedy t q _ _ _ hk _ => cases q <;> simp [hk, Quantifier.greedyKind]
  | @lazily t q _ _ _ hk _ => cases q <;> simp [hk, Quantifier.lazyKind]
  | @plain W s _ _ _ hW _ =>
    obtain ⟨t, W, rfl⟩ := List.exists_cons_of_ne_nil hW.nonempty
    have hkind := (hW.kinds t List.mem_cons_self).1
    have hne : ¬(t.kind = .question ∨ t.kind = .questionQuestion) := by
      rintro (hk | hk) <;> rw [hk] at hkind <;> cases hkind
    simpa using hne
  | reference hk _ _ _ => simp [hk]

theorem Lays.isChain_iff (h : Lays g ts cells l) : cells.IsChain Cell.Unfused ↔
    (∀ t ∈ ts, t.kind.isLazy = false) ∧ ts.IsChain Unfused := by
  induction h with
  | nil => simp
  | @greedy t q ts cells _ hk hcells ih =>
    have hgreedy : t.kind.isGreedy = true := by rw [hk]; cases q <;> rfl
    have hlazy : t.kind.isLazy = false := by rw [hk]; cases q <;> rfl
    rw [List.isChain_cons, List.isChain_cons, ih, List.forall_mem_cons]
    have hhead := hcells.head?
    constructor
    · rintro ⟨hfirst, hts, hchain⟩
      refine ⟨⟨hlazy, hts⟩, fun u hu _ hquestion => ?_, hchain⟩
      have hmark := hhead.2 ⟨u, hu, .inl hquestion⟩
      exact hfirst _ hmark rfl q rfl
    · rintro ⟨⟨-, hts⟩, hfirst, hchain⟩
      refine ⟨fun cell hcell heq q' _ => ?_, hts, hchain⟩
      obtain ⟨u, hu, hquestion | hquestion⟩ := hhead.1 (heq ▸ hcell)
      · exact hfirst u hu hgreedy hquestion
      · have hulazy := hts u (List.mem_of_mem_head? hu)
        rw [hquestion] at hulazy
        cases hulazy
  | @lazily t q ts cells _ hk _ _ =>
    have hlazy : t.kind.isLazy = true := by rw [hk]; cases q <;> rfl
    refine iff_of_false (fun hchain => ?_) fun h => ?_
    · exact (List.isChain_cons_cons.1 hchain).1 rfl q rfl
    · rw [h.1 t List.mem_cons_self] at hlazy
      cases hlazy
  | @plain W s ts cells _ hW _ ih =>
    have hkinds : ∀ t ∈ W, t.kind.isGreedy = false ∧ t.kind.isLazy = false := fun t ht => by
      have hquantifier := (hW.kinds t ht).1
      rwa [TokenKind.isQuantifier, Bool.or_eq_false_iff] at hquantifier
    rw [isChain_solid_cons, ih,
      isChain_append_of_not_greedy fun t ht => (hkinds t ht).1, List.forall_mem_append]
    exact and_congr_left fun _ => (and_iff_right fun t ht => (hkinds t ht).2).symm
  | @reference t u ts cells _ hk _ _ _ ih =>
    have hchain : (t :: ts).IsChain Unfused ↔ ts.IsChain Unfused :=
      isChain_append_of_not_greedy (W := [t]) (by rw [List.forall_mem_singleton, hk]; rfl)
    rw [isChain_solid_cons, ih, hchain, List.forall_mem_cons]
    exact and_congr_left fun _ => (and_iff_right (by rw [hk]; rfl)).symm

theorem readsLazy_grouped (h : Loose s) : ReadsLazy (grouped s) ↔ ReadsLazy s := by
  rw [ReadsLazy, ReadsLazy, grouped, symbols?_group_alone h]
  cases symbols? s <;> simp

theorem Lays.readsLazy_iff (h : Lays g ts cells l) :
    (∃ s, .solid s ∈ cells ∧ ReadsLazy s) ↔
      ∃ t ∈ ts, t.kind = .ident ∧ ∃ u, IsSpelling g t.name u ∧ ReadsLazy u.text := by
  constructor
  · rintro ⟨s, hs, hlazy⟩
    induction h with
    | nil => cases hs
    | greedy _ _ ih =>
      obtain ⟨t, ht, hk⟩ := ih (by simpa using hs)
      exact ⟨t, List.mem_cons_of_mem _ ht, hk⟩
    | lazily _ _ ih =>
      obtain ⟨t, ht, hk⟩ := ih (by simpa using hs)
      exact ⟨t, List.mem_cons_of_mem _ ht, hk⟩
    | plain hW _ ih =>
      rcases List.mem_cons.1 hs with heq | hs
      · obtain rfl := Cell.solid.inj heq
        obtain ⟨ys, hy, q, hq⟩ := hlazy
        exact absurd hq (hW.greedy ys q hy)
      · obtain ⟨t, ht, hk⟩ := ih hs
        exact ⟨t, List.mem_append_right _ ht, hk⟩
    | reference hk hu hloose _ ih =>
      rcases List.mem_cons.1 hs with heq | hs
      · obtain rfl := Cell.solid.inj heq
        exact ⟨_, List.mem_cons_self, hk, _, hu, (readsLazy_grouped hloose).1 hlazy⟩
      · obtain ⟨t, ht, hk⟩ := ih hs
        exact ⟨t, List.mem_cons_of_mem _ ht, hk⟩
  · rintro ⟨t, ht, hk, u, hu, hlazy⟩
    obtain ⟨v, hv, hmem⟩ := h.mem_of_ident ht hk
    obtain rfl := hu.unique hv
    exact ⟨_, hmem, (readsLazy_grouped (loose_of_isSpelling hu)).2 hlazy⟩

/-- A spelling is read with a lazy quantifier if one is written or made in its body, or else in
that of a rule that it refers to. -/
theorem readsLazy_iff_of_body {body : List Char} (h : Assembled g (pieces (significant body)) u)
    (hx : symbols? u.text = some xs) :
    (∃ q, .quantifier q true ∈ xs) ↔ WritesLazy body ∨ Fuses body ∨
      ∃ b ∈ identifiers body, ∃ v, IsSpelling g b v ∧ ReadsLazy v.text := by
  obtain ⟨cells, hcells, htext⟩ := exists_lays_of_body h
  rw [htext, symbols?_writing hcells.solid] at hx
  have hreferences : (∃ s, .solid s ∈ cells ∧ ReadsLazy s) ↔
      ∃ b ∈ identifiers body, ∃ v, IsSpelling g b v ∧ ReadsLazy v.text :=
    hcells.readsLazy_iff.trans
      (exists_identifier_iff fun b => ∃ v, IsSpelling g b v ∧ ReadsLazy v.text)
  have htokens : ¬cells.IsChain Cell.Unfused ↔ WritesLazy body ∨ Fuses body := by
    rw [hcells.isChain_iff, ← not_fuses_iff, not_and_or, not_not, WritesLazy]
    simp
  rw [lazy_of_fuse hx, ← or_assoc, ← htokens, ← hreferences]
  rfl

theorem Lays.isLazy_iff (h : Lays g ts cells l) : l = true ↔ (∃ t ∈ ts, t.kind.isLazy = true) ∨
    ∃ t ∈ ts, t.kind = .ident ∧ ∃ u, IsSpelling g t.name u ∧ u.isLazy = true := by
  induction h with
  | nil => simp
  | @greedy t q ts _ _ hk _ ih =>
    rw [ih]
    cases q <;> simp [hk, Quantifier.greedyKind, TokenKind.isLazy]
  | @lazily t q ts _ _ hk _ ih =>
    refine iff_of_true rfl (.inl ⟨t, List.mem_cons_self, ?_⟩)
    rw [hk]
    cases q <;> rfl
  | @plain W s ts _ _ hW _ ih =>
    have hlazy : ¬∃ t, t ∈ W ∧ t.kind.isLazy = true := by
      rintro ⟨t, ht, hlazy⟩
      have hquantifier := (hW.kinds t ht).1
      rw [TokenKind.isQuantifier, hlazy, Bool.or_true] at hquantifier
      cases hquantifier
    have hident : ¬∃ t, t ∈ W ∧ t.kind = .ident ∧ ∃ u, IsSpelling g t.name u ∧ u.isLazy = true := by
      rintro ⟨t, ht, hk, -⟩
      exact (hW.kinds t ht).2.1 hk
    simp only [ih, List.mem_append, or_and_right, exists_or]
    rw [or_iff_right hlazy, or_iff_right hident]
  | @reference t u ts _ _ hk hu _ _ ih =>
    have hspelling : (∃ v, IsSpelling g t.name v ∧ v.isLazy = true) ↔ u.isLazy = true := by
      constructor
      · rintro ⟨v, hv, hlazy⟩
        rwa [hu.unique hv]
      · exact fun hlazy => ⟨u, hu, hlazy⟩
    have hkind : TokenKind.ident.isLazy = false := rfl
    simp only [Bool.or_eq_true, ih, List.mem_cons, or_and_right, exists_or, exists_eq_left, hk,
      true_and, hspelling, hkind, Bool.false_eq_true, false_or]
    rw [or_left_comm]

/-- The flag of a spelling is set by the lazy quantifiers that are written in its body, or else in
that of a rule that it refers to. -/
theorem isLazy_iff_of_body {body : List Char} (h : Assembled g (pieces (significant body)) u) :
    u.isLazy = true ↔ WritesLazy body ∨
      ∃ b ∈ identifiers body, ∃ v, IsSpelling g b v ∧ v.isLazy = true := by
  obtain ⟨cells, hcells, -⟩ := exists_lays_of_body h
  rw [hcells.isLazy_iff]
  exact or_congr_right (exists_identifier_iff fun b => ∃ v, IsSpelling g b v ∧ v.isLazy = true)

end

end GrammarLab.Pattern
