import GrammarLab.Proofs.Body.References
import GrammarLab.Proofs.Body.WrittenAlike

/-!
# Where groups begin

A group holds the offset of its first alternative, which lies behind all tokens in front of the
group and in front of all tokens behind it. So of the groups of one alternative no two begin at the
same offset, and no two are equal, however alike they are written.

    b ∈ (Structure.parse body).allAlternatives → RisingGroups b.elements      (risingGroups_of_mem)
-/

namespace GrammarLab.Body

/-! ## Groups among elements -/

/-- The offset of the first alternative of a group, behind negations as well. -/
def Content.groupOffset? : Content → Option Nat
  | .group branches => branches.head?.map (·.offset)
  | .negated inner => inner.groupOffset?
  | _ => none

def groupOffsets (es : List Element) : List Nat := es.filterMap (·.content.groupOffset?)

/-- Each group begins behind those in front of it. -/
def RisingGroups (es : List Element) : Prop := (groupOffsets es).Pairwise (· < ·)

/-! ## What the readers leave behind -/

/-- Tokens as a body has them, none of them behind `last`. -/
structure Placed (last : Nat) (ts : List Token) : Prop where
  lawful : Lawful ts
  rising : ts.Pairwise fun t u => t.offset < u.offset
  le_last : ∀ t ∈ ts, t.offset ≤ last

/-- The groups among the elements and those within them begin in order. -/
structure RisingWithin (es : List Element) : Prop where
  here : RisingGroups es
  within : ∀ b ∈ branchesOfElements es, RisingGroups b.elements

/-- `r` is the alternative `b` with elements whose groups do not begin in front of the tokens. -/
structure ReadsRising (b : Branch) (ts : List Token) (r : Branch × List Token) : Prop where
  offset : r.1.offset = b.offset
  elements : ∃ es, r.1.elements = b.elements ++ es ∧ RisingWithin es ∧
    ∀ o ∈ groupOffsets es, ∃ t ∈ ts, t.offset ≤ o

/-- The alternatives begin with the tokens. -/
structure ReadsBranchesRising (last : Nat) (ts : List Token) (bs : List Branch) : Prop where
  head : bs.head?.map (·.offset) = some (startOffset last ts)
  within : ∀ b ∈ branchesAmong bs, RisingGroups b.elements

/-- A group that is read begins between the token `t` and the tokens it leaves. -/
structure ReadsContentRising (t : Token) (c : Content) (rest : List Token) : Prop where
  between : ∀ o ∈ c.groupOffset?, t.offset ≤ o ∧ ∀ u ∈ rest, o < u.offset
  within : ∀ b ∈ c.branchesWithin, RisingGroups b.elements

section

variable {last : Nat} {t : Token} {ts us rest : List Token} {b : Branch} {c : Content} {e : Element}

theorem Placed.of_suffix (h : Placed last us) (hs : ts <:+ us) : Placed last ts :=
  ⟨h.lawful.of_suffix hs, h.rising.sublist hs.sublist, fun t ht => h.le_last t (hs.subset ht)⟩

theorem ReadsRising.refl (b : Branch) (ts us : List Token) : ReadsRising b ts (b, us) :=
  ⟨rfl, [], (List.append_nil _).symm, ⟨.nil, by simp [branchesOfElements]⟩, by simp [groupOffsets]⟩

/-- What is read behind tokens that were passed over. -/
theorem ReadsRising.skip {b' : Branch} {r : Branch × List Token} (hs : ts <:+ us)
    (ho : b'.offset = b.offset) (he : b'.elements = b.elements) (h : ReadsRising b' ts r) :
    ReadsRising b us r := by
  obtain ⟨hoffset, es, hes, hrising, hbehind⟩ := h
  refine ⟨hoffset.trans ho, es, he ▸ hes, hrising, fun o hmem => ?_⟩
  obtain ⟨u, hu, hle⟩ := hbehind o hmem
  exact ⟨u, hs.subset hu, hle⟩

/-- What is read behind an element that was read. -/
theorem ReadsRising.cons {r : Branch × List Token} (hc : ReadsContentRising t e.content rest)
    (hs : ts <:+ rest) (hrest : rest <:+ us)
    (h : ReadsRising { b with elements := b.elements ++ [e] } ts r) :
    ReadsRising b (t :: us) r := by
  obtain ⟨hoffset, es, hes, ⟨hhere, hwithin⟩, hbehind⟩ := h
  refine ⟨hoffset, e :: es, by simp [hes], ⟨?_, fun b' hb' => ?_⟩, fun o hmem => ?_⟩
  · rw [RisingGroups, groupOffsets, List.filterMap_cons]
    split
    · exact hhere
    · rename_i o ho
      refine List.pairwise_cons.2 ⟨fun o' ho' => ?_, hhere⟩
      obtain ⟨u, hu, hle⟩ := hbehind o' ho'
      exact Nat.lt_of_lt_of_le ((hc.between o ho).2 u (hs.subset hu)) hle
  · rcases List.mem_append.1 hb' with hb' | hb'
    · exact hc.within b' hb'
    · exact hwithin b' hb'
  · rw [groupOffsets, List.mem_filterMap] at hmem
    obtain ⟨f, hf, ho⟩ := hmem
    rcases List.mem_cons.1 hf with rfl | hf
    · exact ⟨t, List.mem_cons_self, (hc.between o ho).1⟩
    · obtain ⟨u, hu, hle⟩ := hbehind o (List.mem_filterMap.2 ⟨f, hf, ho⟩)
      exact ⟨u, List.mem_cons_of_mem t ((hs.trans hrest).subset hu), hle⟩

/-- An alternative that was read from its beginning, in front of others. -/
theorem ReadsRising.branches {bs : List Branch} {r : Branch × List Token}
    (h : ReadsRising { offset := startOffset last ts } ts r)
    (hbs : ∀ b ∈ branchesAmong bs, RisingGroups b.elements) :
    ReadsBranchesRising last ts (r.1 :: bs) := by
  obtain ⟨hoffset, es, hes, ⟨hhere, hwithin⟩, -⟩ := h
  obtain rfl : r.1.elements = es := hes
  refine ⟨congrArg some hoffset, ?_⟩
  rw [branchesAmong, List.cons_append, List.forall_mem_cons, List.forall_mem_append]
  exact ⟨hhere, hwithin, hbs⟩

theorem Placed.startOffset_le (h : Placed last ts) (ht : t ∈ ts) :
    startOffset last ts ≤ t.offset := by
  cases ts with
  | nil => simp at ht
  | cons u us =>
    rcases List.mem_cons.1 ht with rfl | ht
    · exact Nat.le_refl _
    · exact Nat.le_of_lt ((List.pairwise_cons.1 h.rising).1 t ht)

theorem Placed.le_startOffset (h : Placed last (t :: ts)) : t.offset ≤ startOffset last ts := by
  cases ts with
  | nil => exact h.le_last t List.mem_cons_self
  | cons u us => exact Nat.le_of_lt ((List.pairwise_cons.1 h.rising).1 u List.mem_cons_self)

/-- A group behind whose parenthesis all is left, or that takes all. -/
theorem ReadsBranchesRising.content {bs : List Branch} (hts : Placed last (t :: ts))
    (h : ReadsBranchesRising last ts bs) (hrest : ∀ u ∈ rest, ∃ c ∈ ts, c.offset < u.offset) :
    ReadsContentRising t (.group bs) rest := by
  refine ⟨fun o ho => ?_, h.within⟩
  obtain rfl : startOffset last ts = o := Option.some.inj (h.head.symm.trans ho)
  refine ⟨hts.le_startOffset, fun u hu => ?_⟩
  obtain ⟨c, hc, hlt⟩ := hrest u hu
  exact Nat.lt_of_le_of_lt ((hts.of_suffix (List.suffix_cons t ts)).startOffset_le hc) hlt

theorem ReadsContentRising.of_none (ho : c.groupOffset? = none) (hc : c.branchesWithin = []) :
    ReadsContentRising t c rest :=
  ⟨by simp [ho], by simp [hc]⟩

theorem readsContentRising_ofName (name : String) : ReadsContentRising t (.ofName name) rest := by
  unfold Content.ofName
  split
  · exact .of_none rfl rfl
  split
  · exact .of_none rfl rfl
  · exact .of_none rfl rfl

theorem readsContentRising_literalOrRange (first : Token) (ts : List Token) :
    ReadsContentRising t (literalOrRange first ts).1 rest := by
  unfold literalOrRange
  split
  · split
    · exact .of_none rfl rfl
    · exact .of_none rfl rfl
  · exact .of_none rfl rfl

end

/-! ## The readers -/

def BranchesRise (last fuel : Nat) : Prop :=
  ∀ ts, Placed last ts → 4 * ts.length + 4 ≤ fuel →
    ReadsBranchesRising last ts (branches last fuel ts).1

def BranchRise (last fuel : Nat) : Prop :=
  ∀ b ts, Placed last ts → 4 * ts.length + 3 ≤ fuel → ReadsRising b ts (branch last fuel b ts)

def ElementRise (last fuel : Nat) : Prop :=
  ∀ b t ts, Placed last (t :: ts) → t.kind ≠ .pipe → t.kind ≠ .parenClose →
    4 * (t :: ts).length + 2 ≤ fuel →
      ReadsRising b (t :: ts) (branchElement last fuel b (t :: ts))

def AtomRise (last fuel : Nat) : Prop :=
  ∀ t ts, Placed last (t :: ts) → t.kind ≠ .pipe → t.kind ≠ .parenClose →
    4 * (t :: ts).length + 1 ≤ fuel →
      ∀ c ∈ (atom last fuel (t :: ts)).1, ReadsContentRising t c (atom last fuel (t :: ts)).2

section

variable {last fuel : Nat}

theorem branchesRise_succ (ihBranch : BranchRise last fuel) (ihBranches : BranchesRise last fuel) :
    BranchesRise last (fuel + 1) := by
  intro ts hts hfuel
  have hbranch := ihBranch { offset := startOffset last ts } ts hts (by omega)
  have hsuf := ((reads last fuel).2.1 { offset := startOffset last ts } ts hts.lawful
    (by omega)).suffix
  rw [branches]
  split
  · rename_i b heq
    rw [heq] at hbranch
    exact hbranch.branches (by simp [branchesAmong])
  · rename_i b p rest heq
    rw [heq] at hbranch hsuf
    split
    · have hrest := (List.suffix_cons p rest).trans hsuf
      have hlen := hsuf.length_le
      simp only [List.length_cons] at hlen
      exact hbranch.branches (ihBranches rest (hts.of_suffix hrest) (by omega)).within
    · exact hbranch.branches (by simp [branchesAmong])

theorem branchRise_succ (ihBranch : BranchRise last fuel) (ihElement : ElementRise last fuel) :
    BranchRise last (fuel + 1) := by
  intro b ts hts hfuel
  cases ts with
  | nil => exact .refl b [] []
  | cons t ts =>
    simp only [List.length_cons] at hfuel
    -- the calls behind something that is passed over
    have hskip (b' : Branch) (mid : List Token) (hs : mid <:+ ts) (ho : b'.offset = b.offset)
        (he : b'.elements = b.elements) :
        ReadsRising b (t :: ts) (branch last fuel b' mid) := by
      have hlen := hs.length_le
      have hmid := hs.trans (List.suffix_cons t ts)
      exact .skip hmid ho he (ihBranch b' mid (hts.of_suffix hmid) (by omega))
    have helement (h₁ : t.kind ≠ .pipe) (h₂ : t.kind ≠ .parenClose) :
        ReadsRising b (t :: ts) (branchElement last fuel b (t :: ts)) :=
      ihElement b t ts hts h₁ h₂ (by simp only [List.length_cons]; omega)
    rw [branch]
    split
    · exact .refl ..
    · exact .refl ..
    · exact hskip _ _ (afterIdent_suffix ts) rfl rfl
    · exact hskip _ _ (commandList_suffix ts) rfl rfl
    · exact hskip _ _ (passPredicate_suffix ts) rfl rfl
    · exact hskip _ _ (afterOptions_suffix ts) rfl rfl
    · rename_i hk
      split
      · exact hskip _ _ (List.drop_suffix 1 ts) rfl rfl
      · exact helement (by simp [hk]) (by simp [hk])
    · rename_i h₁ h₂ _ _ _ _ _
      exact helement h₁ h₂

theorem elementRise_succ (ihBranch : BranchRise last fuel) (ihAtom : AtomRise last fuel) :
    ElementRise last (fuel + 1) := by
  intro b t ts hts h₁ h₂ hfuel
  have hread := (reads last fuel).2.2.2 t ts hts.lawful h₁ h₂ (by omega)
  have hatom := ihAtom t ts hts h₁ h₂ (by omega)
  simp only [List.length_cons] at hfuel
  rw [branchElement]
  split
  · rename_i rest heq
    rw [heq] at hread
    have hs : rest <:+ ts := hread.suffix
    have hlen := hs.length_le
    have hrest := hs.trans (List.suffix_cons t ts)
    exact .skip hrest rfl rfl (ihBranch b rest (hts.of_suffix hrest) (by omega))
  · rename_i content rest heq
    rw [heq] at hread hatom
    obtain ⟨hs', hcontent⟩ := quantified_suffix content (passOptions rest)
    have hs := hs'.trans (passOptions_suffix rest)
    have hall := hs.trans hread.suffix
    have hlen := hall.length_le
    exact .cons (hcontent.symm ▸ hatom content rfl) hs hread.suffix
      (ihBranch _ _ (hts.of_suffix (hall.trans (List.suffix_cons t ts))) (by omega))

theorem atomRise_succ (ihBranches : BranchesRise last fuel) (ihAtom : AtomRise last fuel) :
    AtomRise last (fuel + 1) := by
  intro t ts hts h₁ h₂ hfuel
  have htail := hts.of_suffix (List.suffix_cons t ts)
  have hfuel' : 4 * ts.length + 4 ≤ fuel := by
    simp only [List.length_cons] at hfuel
    omega
  rw [atom]
  split
  · rintro _ ⟨⟩
    exact readsContentRising_ofName ..
  · rintro _ ⟨⟩
    exact readsContentRising_literalOrRange ..
  · rintro _ ⟨⟩
    exact .of_none rfl rfl
  · rintro _ ⟨⟩
    exact .of_none rfl rfl
  · split
    · simp
    · rename_i hend
      cases ts with
      | nil => simp [endsAtom] at hend
      | cons u us =>
        simp only [endsAtom, Bool.or_eq_true, decide_eq_true_eq, not_or] at hend
        intro c hc
        obtain ⟨inner, hinner, rfl⟩ := Option.map_eq_some_iff.1 hc
        obtain ⟨hbetween, hwithin⟩ := ihAtom u us htail hend.1 hend.2
          (by simp only [List.length_cons] at hfuel ⊢; omega) inner hinner
        have hlt := (List.pairwise_cons.1 hts.rising).1 u List.mem_cons_self
        exact ⟨fun o ho => ⟨Nat.le_of_lt (Nat.lt_of_lt_of_le hlt (hbetween o ho).1),
          (hbetween o ho).2⟩, hwithin⟩
  · have hbranches := ihBranches ts htail hfuel'
    have hread := (reads last fuel).1 ts htail.lawful hfuel'
    split
    · rename_i bs heq
      rw [heq] at hbranches
      rintro _ ⟨⟩
      exact hbranches.content hts (by simp)
    · rename_i bs c rest heq
      rw [heq] at hbranches hread
      rintro _ ⟨⟩
      rw [if_pos (hread.stop c rfl)]
      have hclose := htail.of_suffix hread.suffix
      exact hbranches.content hts fun u hu =>
        ⟨c, hread.suffix.subset List.mem_cons_self, (List.pairwise_cons.1 hclose.rising).1 u hu⟩
  · simp

theorem readers_rise (last fuel : Nat) :
    BranchesRise last fuel ∧ BranchRise last fuel ∧ ElementRise last fuel ∧
      AtomRise last fuel := by
  induction fuel with
  | zero =>
    refine ⟨?_, ?_, ?_, ?_⟩
    · intro _ _ h
      omega
    · intro _ _ _ h
      omega
    · intro _ _ _ _ _ _ h
      omega
    · intro _ _ _ _ _ h
      omega
  | succ fuel ih =>
    obtain ⟨ihBranches, ihBranch, ihElement, ihAtom⟩ := ih
    exact ⟨branchesRise_succ ihBranch ihBranches, branchRise_succ ihBranch ihElement,
      elementRise_succ ihBranch ihAtom, atomRise_succ ihBranches ihAtom⟩

theorem risingGroups_allBranches {ts : List Token} (hts : Placed last ts) :
    ∀ b ∈ branchesAmong (allBranches last fuel ts), RisingGroups b.elements := by
  induction fuel generalizing ts with
  | zero => simp [allBranches, branchesAmong]
  | succ fuel ih =>
    have hbranches := (readers_rise last (4 * ts.length + 4)).1 ts hts (Nat.le_refl _)
    have hread := (reads last (4 * ts.length + 4)).1 ts hts.lawful (Nat.le_refl _)
    rw [allBranches]
    split
    · rename_i bs heq
      rw [heq] at hbranches
      exact hbranches.within
    · rename_i bs c rest heq
      rw [heq] at hbranches hread
      rw [branchesAmong_eq, List.flatMap_append, ← branchesAmong_eq, ← branchesAmong_eq]
      have hrest := ih (hts.of_suffix ((List.suffix_cons c rest).trans hread.suffix))
      exact List.forall_mem_append.2 ⟨hbranches.within, hrest⟩

theorem placed_significant (body : List Char) :
    Placed (((significant body).getLast?.map (·.offset)).getD 0) (significant body) := by
  have hrising := pairwise_offset_significant body
  refine ⟨lawful_significant body, hrising, fun t ht => ?_⟩
  rcases List.eq_nil_or_concat (significant body) with hnil | ⟨init, last, heq⟩
  · rw [hnil] at ht
    simp at ht
  rw [List.concat_eq_append] at heq
  rw [heq] at hrising ht ⊢
  rw [List.getLast?_concat]
  rcases List.mem_append.1 ht with ht | ht
  · exact Nat.le_of_lt ((List.pairwise_append.1 hrising).2.2 t ht last List.mem_cons_self)
  · obtain rfl := List.mem_singleton.1 ht
    exact Nat.le_refl _

/-- In every alternative of a body, at whatever level, the groups begin in order. -/
theorem risingGroups_of_mem {body : List Char} {b : Branch}
    (hb : b ∈ (Structure.parse body).allAlternatives) : RisingGroups b.elements :=
  risingGroups_allBranches (placed_significant body) b hb

end

theorem exists_groupOffset : ∀ {c : Content}, c.isProper = true → c.isGroup = true →
    ∃ o, c.groupOffset? = some o
  | .group [], hp, _ => by simp [Content.isProper] at hp
  | .group (b :: _), _, _ => ⟨b.offset, rfl⟩
  | .negated inner, hp, hg => exists_groupOffset (c := inner) hp hg

/-- Two groups in one alternative are not the same, even if they are written alike. -/
theorem content_ne_of_isGroup {body : List Char} {b : Branch} {x y : Element}
    (hb : b ∈ (Structure.parse body).allAlternatives) (hxy : [x, y] <:+: b.elements)
    (hx : x.content.isGroup = true) : x.content ≠ y.content := by
  intro heq
  obtain ⟨o, ho⟩ := exists_groupOffset
    ((readableElements_of_mem hb).content x (hxy.subset List.mem_cons_self)).proper hx
  have hrising := (risingGroups_of_mem hb).sublist (hxy.sublist.filterMap _)
  simp [ho, ← heq] at hrising

end GrammarLab.Body
