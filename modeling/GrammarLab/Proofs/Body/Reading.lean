import GrammarLab.Proofs.Body.Legible

/-!
# Structures that are read

Whatever the readers of a body take for a name, a literal or a class, they take from one token.

    LegibleBranches (Structure.parse body).alternatives                 (legibleBranches_parse)
-/

namespace GrammarLab.Body

/-! ## Readers -/

variable {ts : List Token}

theorem passOptions_suffix (ts : List Token) : passOptions ts <:+ ts := by
  cases ts with
  | nil => exact List.suffix_refl _
  | cons t ts =>
    simp only [passOptions]
    split
    · exact afterOptions_suffix _
    · exact List.suffix_refl _

theorem quantified_suffix (c : Content) (ts : List Token) :
    (quantified c ts).2 <:+ ts ∧ (quantified c ts).1.content = c := by
  cases ts with
  | nil => exact ⟨List.suffix_refl _, rfl⟩
  | cons t ts =>
    rw [quantified]
    split
    · exact ⟨List.suffix_cons t ts, rfl⟩
    · exact ⟨List.suffix_refl _, rfl⟩

theorem isLegible_ofName {t : Token} (hk : t.kind = .ident) (h : t.lexeme.IsWhole) :
    (Content.ofName t.name).IsLegible := by
  have hwhole : Lexeme.IsWhole ⟨.ident, t.name.toList⟩ := by
    rw [Token.name, String.toList_ofList, ← hk]
    exact h
  by_cases he : t.name = GrammarLab.endOfInput
  · simp [Content.ofName, he, Content.IsLegible]
  by_cases hl : isLexerName t.name = true
  · have hname : Content.ofName t.name = .token t.name := by simp [Content.ofName, he, hl]
    rw [hname]
    exact ⟨hname, hwhole⟩
  · have hname : Content.ofName t.name = .rule t.name := by simp [Content.ofName, he, hl]
    rw [hname]
    exact ⟨hname, hwhole⟩

theorem isLegible_literalOrRange {t : Token} (hk : t.kind = .literal) (h : t.lexeme.IsWhole)
    (hts : AllWhole ts) :
    (literalOrRange t ts).2 <:+ ts ∧ (literalOrRange t ts).1.IsLegible := by
  have hfirst : Lexeme.IsWhole ⟨.literal, t.text⟩ := hk ▸ h
  cases ts with
  | nil => exact ⟨List.suffix_refl _, hfirst⟩
  | cons op ts =>
    cases ts with
    | nil => exact ⟨List.suffix_refl _, hfirst⟩
    | cons last rest =>
      simp only [literalOrRange]
      split
      · rename_i hr
        simp only [Bool.and_eq_true, decide_eq_true_eq] at hr
        have hlast : Lexeme.IsWhole ⟨.literal, last.text⟩ :=
          hr.2 ▸ hts last (List.mem_cons_of_mem op List.mem_cons_self)
        exact ⟨(List.suffix_cons last rest).trans (List.suffix_cons op _), hfirst, hlast⟩
      · exact ⟨List.suffix_refl _, hfirst⟩

theorem legibleElements_append {es fs : List Element} (he : LegibleElements es)
    (hf : LegibleElements fs) : LegibleElements (es ++ fs) := by
  induction es with
  | nil => exact hf
  | cons e es ih => exact ⟨he.1, ih he.2⟩

theorem legibleBranches_append {bs cs : List Branch} (hb : LegibleBranches bs)
    (hc : LegibleBranches cs) : LegibleBranches (bs ++ cs) := by
  induction bs with
  | nil => exact hc
  | cons b bs ih => exact ⟨hb.1, ih hb.2⟩

/-! The readers leave the end of what they are given, and what they read is legible. -/

def BranchesLegible (last fuel : Nat) : Prop :=
  ∀ ts, AllWhole ts →
    (branches last fuel ts).2 <:+ ts ∧ LegibleBranches (branches last fuel ts).1

def BranchLegible (last fuel : Nat) : Prop :=
  ∀ b ts, AllWhole ts → LegibleElements b.elements →
    (branch last fuel b ts).2 <:+ ts ∧ LegibleElements (branch last fuel b ts).1.elements

def ElementLegible (last fuel : Nat) : Prop :=
  ∀ b ts, AllWhole ts → LegibleElements b.elements →
    (branchElement last fuel b ts).2 <:+ ts ∧
      LegibleElements (branchElement last fuel b ts).1.elements

def AtomLegible (last fuel : Nat) : Prop :=
  ∀ ts, AllWhole ts → (atom last fuel ts).2 <:+ ts ∧
    ∀ c ∈ (atom last fuel ts).1, c.IsLegible

theorem branchesLegible_succ {last fuel : Nat} (ihBranch : BranchLegible last fuel)
    (ihBranches : BranchesLegible last fuel) : BranchesLegible last (fuel + 1) := by
  intro ts hts
  obtain ⟨hs, he⟩ := ihBranch { offset := startOffset last ts } ts hts trivial
  rw [branches]
  split
  · rename_i b heq
    rw [heq] at he
    exact ⟨List.nil_suffix, he, trivial⟩
  · rename_i b p rest heq
    rw [heq] at hs he
    have hrest := (List.suffix_cons p rest).trans hs
    split
    · obtain ⟨hs', hb⟩ := ihBranches rest (hts.of_suffix hrest)
      exact ⟨hs'.trans hrest, he, hb⟩
    · exact ⟨hs, he, trivial⟩

theorem branchLegible_succ {last fuel : Nat} (ihBranch : BranchLegible last fuel)
    (ihElement : ElementLegible last fuel) : BranchLegible last (fuel + 1) := by
  intro b ts hts hb
  cases ts with
  | nil => exact ⟨List.suffix_refl _, hb⟩
  | cons t ts =>
    -- the calls behind something that is passed over
    have hskip (b' : Branch) (mid : List Token) (hs : mid <:+ ts) (he : b'.elements = b.elements) :
        (branch last fuel b' mid).2 <:+ t :: ts ∧
          LegibleElements (branch last fuel b' mid).1.elements := by
      have hmid := hs.trans (List.suffix_cons t ts)
      obtain ⟨hs', hl⟩ := ihBranch b' mid (hts.of_suffix hmid) (he ▸ hb)
      exact ⟨hs'.trans hmid, hl⟩
    have helement := ihElement b (t :: ts) hts hb
    rw [branch]
    split
    · exact ⟨List.suffix_refl _, hb⟩
    · exact ⟨List.suffix_refl _, hb⟩
    · exact hskip _ _ (afterIdent_suffix ts) rfl
    · exact hskip _ _ (commandList_suffix ts) rfl
    · exact hskip _ _ (passPredicate_suffix ts) rfl
    · exact hskip _ _ (afterOptions_suffix ts) rfl
    · split
      · exact hskip _ _ (List.drop_suffix 1 ts) rfl
      · exact helement
    · exact helement

theorem elementLegible_succ {last fuel : Nat} (ihBranch : BranchLegible last fuel)
    (ihAtom : AtomLegible last fuel) : ElementLegible last (fuel + 1) := by
  intro b ts hts hb
  obtain ⟨hs, hc⟩ := ihAtom ts hts
  rw [branchElement]
  split
  · rename_i rest heq
    rw [heq] at hs
    obtain ⟨hs', hl⟩ := ihBranch b rest (hts.of_suffix hs) hb
    exact ⟨hs'.trans hs, hl⟩
  · rename_i content rest heq
    rw [heq] at hs hc
    obtain ⟨hs', hcontent⟩ := quantified_suffix content (passOptions rest)
    have hrest := (hs'.trans (passOptions_suffix rest)).trans hs
    have helement : LegibleElements [(quantified content (passOptions rest)).1] :=
      ⟨hcontent.symm ▸ hc content rfl, trivial⟩
    obtain ⟨hs'', hl⟩ := ihBranch
      { b with elements := b.elements ++ [(quantified content (passOptions rest)).1] } _
      (hts.of_suffix hrest) (legibleElements_append hb helement)
    exact ⟨hs''.trans hrest, hl⟩

theorem atomLegible_succ {last fuel : Nat} (ihBranches : BranchesLegible last fuel)
    (ihAtom : AtomLegible last fuel) : AtomLegible last (fuel + 1) := by
  intro ts hts
  cases ts with
  | nil => exact ⟨List.suffix_refl _, by simp [atom]⟩
  | cons t ts =>
    have htail := hts.of_suffix (List.suffix_cons t ts)
    have ht := hts t List.mem_cons_self
    have hone (c : Content) (rest : List Token) (hs : rest <:+ ts) (hc : c.IsLegible) :
        rest <:+ t :: ts ∧ ∀ d ∈ some c, d.IsLegible := by
      refine ⟨hs.trans (List.suffix_cons t ts), fun d hd => ?_⟩
      obtain rfl := Option.some.inj hd
      exact hc
    rw [atom]
    split
    · rename_i hk
      exact hone _ _ (List.suffix_refl _) (isLegible_ofName hk ht)
    · rename_i hk
      obtain ⟨hs, hc⟩ := isLegible_literalOrRange hk ht htail
      exact hone _ _ hs hc
    · rename_i hk
      exact hone _ _ (List.suffix_refl _) (show Lexeme.IsWhole ⟨.charClass, t.text⟩ from hk ▸ ht)
    · exact hone _ _ (List.suffix_refl _) trivial
    · split
      · exact ⟨List.suffix_cons t ts, by simp⟩
      · obtain ⟨hs, hc⟩ := ihAtom ts htail
        refine ⟨hs.trans (List.suffix_cons t ts), fun d hd => ?_⟩
        obtain ⟨inner, hinner, rfl⟩ := Option.map_eq_some_iff.1 hd
        exact hc inner hinner
    · obtain ⟨hs, hb⟩ := ihBranches ts htail
      split
      · rename_i bs heq
        rw [heq] at hb
        exact hone _ _ List.nil_suffix hb
      · rename_i bs c rest heq
        rw [heq] at hs hb
        refine hone _ _ ?_ hb
        split
        · exact (List.suffix_cons c rest).trans hs
        · exact hs
    · exact ⟨List.suffix_cons t ts, by simp⟩

theorem readers_legible (last fuel : Nat) :
    BranchesLegible last fuel ∧ BranchLegible last fuel ∧ ElementLegible last fuel ∧
      AtomLegible last fuel := by
  induction fuel with
  | zero =>
    refine ⟨fun ts _ => ⟨List.suffix_refl _, trivial⟩, fun b ts _ hb => ⟨List.suffix_refl _, hb⟩,
      fun b ts _ hb => ⟨List.suffix_refl _, hb⟩, fun ts _ => ⟨List.suffix_refl _, by simp [atom]⟩⟩
  | succ fuel ih =>
    obtain ⟨ihBranches, ihBranch, ihElement, ihAtom⟩ := ih
    exact ⟨branchesLegible_succ ihBranch ihBranches, branchLegible_succ ihBranch ihElement,
      elementLegible_succ ihBranch ihAtom, atomLegible_succ ihBranches ihAtom⟩

theorem legibleBranches_allBranches (last fuel : Nat) (hts : AllWhole ts) :
    LegibleBranches (allBranches last fuel ts) := by
  induction fuel generalizing ts with
  | zero => trivial
  | succ fuel ih =>
    obtain ⟨hs, hb⟩ := (readers_legible last (4 * ts.length + 4)).1 ts hts
    rw [allBranches]
    split
    · rename_i bs heq
      rw [heq] at hb
      exact hb
    · rename_i bs c rest heq
      rw [heq] at hs hb
      exact legibleBranches_append hb (ih (hts.of_suffix ((List.suffix_cons c rest).trans hs)))

/-- Whatever a body is, its structure is legible. -/
theorem legibleBranches_parse (body : List Char) :
    LegibleBranches (Structure.parse body).alternatives :=
  legibleBranches_allBranches _ _ (allWhole_significant body)

end GrammarLab.Body
