import GrammarLab.Proofs.Body.References
import GrammarLab.Proofs.Body.RoundTrip

/-!
# References as leaves

References are found in one pass over the tokens, the structure by readers that call one another.
Both pass over the same tokens: labels, options, actions and commands. What a reader makes of the
tokens in front of `rest` holds the names that the pass finds there, so the references of a body are
the names in its structure, but for reserved words.

    namesIn ts = leaves.filter (· ∉ reservedWords) ++ namesIn rest

They differ only where `~` stands in front of something else than its operand, which is then read as
if it were one.
-/

namespace GrammarLab.Body

/-! ## Names in a structure -/

mutual

/-- The names of tokens and rules, the end of input included, from left to right. -/
def Content.leafNames : Content → List String
  | .token name => [name]
  | .rule name => [name]
  | .group branches => leafNamesOfBranches branches
  | .negated inner => inner.leafNames
  | .endOfInput => [GrammarLab.endOfInput]
  | _ => []

def leafNamesOfBranches : List (AlternativeOf Content) → List String
  | [] => []
  | ⟨elements, _, _, _⟩ :: rest => leafNamesOfElements elements ++ leafNamesOfBranches rest

def leafNamesOfElements : List (ElementOf Content) → List String
  | [] => []
  | ⟨content, _, _⟩ :: rest => content.leafNames ++ leafNamesOfElements rest

end

def Structure.leafNames (s : Structure) : List String := leafNamesOfBranches s.alternatives

theorem leafNamesOfElements_append (es fs : List Element) :
    leafNamesOfElements (es ++ fs) = leafNamesOfElements es ++ leafNamesOfElements fs := by
  induction es with
  | nil => rfl
  | cons e es ih => rw [List.cons_append, leafNamesOfElements, leafNamesOfElements, ih,
      List.append_assoc]

theorem leafNamesOfBranches_append (bs cs : List Branch) :
    leafNamesOfBranches (bs ++ cs) = leafNamesOfBranches bs ++ leafNamesOfBranches cs := by
  induction bs with
  | nil => rfl
  | cons b bs ih => rw [List.cons_append, leafNamesOfBranches, leafNamesOfBranches, ih,
      List.append_assoc]

mutual

theorem Content.firstNames_subset : ∀ c : Content, c.firstNames ⊆ c.leafNames
  | .token _ => List.Subset.refl _
  | .rule _ => List.Subset.refl _
  | .group branches => firstNamesOfBranches_subset branches
  | .literal _ => List.nil_subset _
  | .charSet _ => List.nil_subset _
  | .range _ _ => List.nil_subset _
  | .wildcard => List.nil_subset _
  | .negated _ => List.nil_subset _
  | .endOfInput => List.nil_subset _

theorem firstNamesOfBranches_subset : ∀ bs : List (AlternativeOf Content),
    firstNamesOfBranches bs ⊆ leafNamesOfBranches bs
  | [] => List.nil_subset _
  | ⟨elements, _, _, _⟩ :: rest => by
    rw [firstNamesOfBranches, leafNamesOfBranches]
    refine List.append_subset.2 ⟨?_, ?_⟩
    · exact List.subset_append_of_subset_left _ (firstNamesOfElements_subset elements)
    · exact List.subset_append_of_subset_right _ (firstNamesOfBranches_subset rest)

theorem firstNamesOfElements_subset : ∀ es : List (ElementOf Content),
    firstNamesOfElements es ⊆ leafNamesOfElements es
  | [] => List.nil_subset _
  | ⟨content, _, _⟩ :: _ => List.subset_append_of_subset_left _ content.firstNames_subset

end

mutual

/-- An alternative within a content has no names but those of the content. -/
theorem Content.leafNames_within : ∀ c : Content, ∀ b ∈ c.branchesWithin,
    leafNamesOfElements b.elements ⊆ c.leafNames
  | .group branches => leafNames_among branches
  | .negated inner => inner.leafNames_within
  | .token _ => by simp [Content.branchesWithin]
  | .rule _ => by simp [Content.branchesWithin]
  | .literal _ => by simp [Content.branchesWithin]
  | .charSet _ => by simp [Content.branchesWithin]
  | .range _ _ => by simp [Content.branchesWithin]
  | .wildcard => by simp [Content.branchesWithin]
  | .endOfInput => by simp [Content.branchesWithin]

theorem leafNames_among : ∀ bs : List (AlternativeOf Content), ∀ b ∈ branchesAmong bs,
    leafNamesOfElements b.elements ⊆ leafNamesOfBranches bs
  | [] => by simp [branchesAmong]
  | ⟨elements, label, commands, offset⟩ :: rest => by
    intro b hb
    rw [branchesAmong, List.cons_append, List.mem_cons, List.mem_append] at hb
    rw [leafNamesOfBranches]
    rcases hb with rfl | hb | hb
    · exact List.subset_append_left _ _
    · exact List.subset_append_of_subset_left _ (leafNames_ofElements elements b hb)
    · exact List.subset_append_of_subset_right _ (leafNames_among rest b hb)

theorem leafNames_ofElements : ∀ es : List (ElementOf Content), ∀ b ∈ branchesOfElements es,
    leafNamesOfElements b.elements ⊆ leafNamesOfElements es
  | [] => by simp [branchesOfElements]
  | ⟨content, modifier, greedy⟩ :: rest => by
    intro b hb
    rw [leafNamesOfElements]
    rcases List.mem_append.1 hb with hb | hb
    · exact List.subset_append_of_subset_left _ (content.leafNames_within b hb)
    · exact List.subset_append_of_subset_right _ (leafNames_ofElements rest b hb)

end

/-! ## Tokens in front -/

/-- Something that can be negated stands in front; a label is no operand. -/
def startsOperand : List Token → Bool
  | [] => false
  | t :: ts =>
    t.kind = .literal || t.kind = .charClass || t.kind = .dot || t.kind = .parenOpen ||
      (t.kind = .ident && !startsWithAssign ts)

/-- Behind each `~` stands its operand. -/
def negationsComplete : List Token → Bool
  | [] => true
  | t :: ts => (t.kind ≠ .tilde || startsOperand ts) && negationsComplete ts

/-- The pass for references goes on with the next token. -/
def TokenKind.isSilent (k : TokenKind) : Bool :=
  k ≠ arrow && k ≠ lt && k ≠ hash && k ≠ ident

/-- Nothing stands in front that has its place between elements. -/
def startsElement : List Token → Bool
  | [] => true
  | t :: ts => t.kind.isSilent || (t.kind = .ident && !startsWithAssign ts)

variable {ts mid rest : List Token} {t : Token}

theorem negationsComplete_of_suffix (h : negationsComplete ts = true) (hs : rest <:+ ts) :
    negationsComplete rest = true := by
  obtain ⟨us, rfl⟩ := hs
  induction us with
  | nil => exact h
  | cons u us ih =>
    rw [List.cons_append, negationsComplete, Bool.and_eq_true] at h
    exact ih h.2

theorem startsElement_of_startsOperand (h : startsOperand ts = true) :
    startsElement ts = true := by
  cases ts with
  | nil => rfl
  | cons t ts =>
    simp only [startsOperand, Bool.or_eq_true, decide_eq_true_eq] at h
    rw [startsElement, Bool.or_eq_true]
    rcases h with (((hk | hk) | hk) | hk) | hname
    · exact .inl (by rw [hk]; rfl)
    · exact .inl (by rw [hk]; rfl)
    · exact .inl (by rw [hk]; rfl)
    · exact .inl (by rw [hk]; rfl)
    · exact .inr hname

/-! ## Names between tokens -/

/-- The names of the references among the tokens. -/
def namesIn (ts : List Token) : List String := (referencesIn ts).map (·.name)

/-- The names that the pass finds in front of `rest` are those of `leaves` that are not reserved. -/
structure Refers (ts : List Token) (leaves : List String) (rest : List Token) : Prop where
  suffix : rest <:+ ts
  names : namesIn ts = leaves.filter (· ∉ reservedWords) ++ namesIn rest

namespace Refers

variable {leaves leaves' : List String}

theorem refl (ts : List Token) : Refers ts [] ts := ⟨List.suffix_refl ts, rfl⟩

theorem trans (h : Refers ts leaves mid) (h' : Refers mid leaves' rest) :
    Refers ts (leaves ++ leaves') rest := by
  refine ⟨h'.suffix.trans h.suffix, ?_⟩
  rw [h.names, h'.names, List.filter_append, List.append_assoc]

/-- What refers to nothing is passed over. -/
theorem skip (h : Refers ts [] mid) (h' : Refers mid leaves rest) : Refers ts leaves rest :=
  h.trans h'

theorem silent (ts : List Token) (hk : t.kind.isSilent = true) : Refers (t :: ts) [] ts := by
  simp only [TokenKind.isSilent, Bool.and_eq_true, decide_eq_true_eq] at hk
  obtain ⟨⟨⟨harrow, hlt⟩, hhash⟩, hident⟩ := hk
  refine ⟨List.suffix_cons t ts, ?_⟩
  rw [namesIn, referencesIn, if_neg harrow, if_neg hlt, if_neg hhash, if_neg hident]
  rfl

theorem name (hk : t.kind = .ident) (hassign : startsWithAssign ts = false) :
    Refers (t :: ts) [t.name] ts := by
  refine ⟨List.suffix_cons t ts, ?_⟩
  rw [namesIn, referencesIn]
  simp only [hk, reduceCtorEq, if_false, if_true, hassign, Bool.false_eq_true]
  split
  · rename_i hreserved
    simp [hreserved, namesIn]
  · rename_i hreserved
    simp [hreserved, namesIn]

theorem label (hk : t.kind = .ident) (hassign : startsWithAssign ts = true) :
    Refers (t :: ts) [] (ts.drop 1) := by
  refine ⟨(List.drop_suffix 1 ts).trans (List.suffix_cons t ts), ?_⟩
  rw [namesIn, referencesIn]
  simp only [hk, reduceCtorEq, if_false, if_true, hassign]
  rfl

theorem alternativeLabel (ts : List Token) (hk : t.kind = .hash) :
    Refers (t :: ts) [] (afterIdent ts) := by
  refine ⟨(afterIdent_suffix ts).trans (List.suffix_cons t ts), ?_⟩
  rw [namesIn, referencesIn]
  simp only [hk, reduceCtorEq, if_false, if_true]
  rfl

theorem commands (ts : List Token) (hk : t.kind = .arrow) :
    Refers (t :: ts) [] (commandList ts).2 := by
  refine ⟨(commandList_suffix ts).trans (List.suffix_cons t ts), ?_⟩
  rw [namesIn, referencesIn, if_pos hk]
  rfl

theorem options (ts : List Token) (hk : t.kind = .lt) :
    Refers (t :: ts) [] (afterOptions ts) := by
  refine ⟨(afterOptions_suffix ts).trans (List.suffix_cons t ts), ?_⟩
  rw [namesIn, referencesIn]
  simp only [hk, reduceCtorEq, if_false, if_true]
  rfl

theorem passPredicate (ts : List Token) : Refers ts [] (passPredicate ts) := by
  cases ts with
  | nil => exact refl []
  | cons t ts =>
    rw [Body.passPredicate]
    split
    · rename_i hk
      exact silent ts (by rw [hk]; rfl)
    · exact refl _

theorem passOptions (ts : List Token) : Refers ts [] (passOptions ts) := by
  cases ts with
  | nil => exact refl []
  | cons t ts =>
    rw [Body.passOptions]
    split
    · rename_i hk
      have hafter : afterOptions (t :: ts) = afterOptions ts := by
        simp [afterOptions, hk]
      rw [hafter]
      exact options ts hk
    · exact refl _

theorem quantified (c : Content) (ts : List Token) : Refers ts [] (quantified c ts).2 := by
  cases ts with
  | nil => exact refl []
  | cons t ts =>
    rw [Body.quantified]
    split
    · rename_i modifier greedy hmodifier
      have hsilent : t.kind.isSilent = true := by
        cases hk : t.kind <;> simp_all [TokenKind.modifier?, TokenKind.isSilent]
      exact silent ts hsilent
    · exact refl _

theorem literalOrRange (ts : List Token) (hk : t.kind = .literal) :
    Refers (t :: ts) (literalOrRange t ts).1.leafNames (literalOrRange t ts).2 := by
  have hfirst : Refers (t :: ts) [] ts := silent ts (by rw [hk]; rfl)
  cases ts with
  | nil => exact hfirst
  | cons op ts =>
    cases ts with
    | nil => exact hfirst
    | cons last rest =>
      rw [Body.literalOrRange]
      split
      · rename_i hrange
        simp only [Bool.and_eq_true, decide_eq_true_eq] at hrange
        have hop : Refers (op :: last :: rest) [] (last :: rest) := silent _ (by rw [hrange.1]; rfl)
        have hlast : Refers (last :: rest) [] rest := silent rest (by rw [hrange.2]; rfl)
        exact hfirst.skip (hop.skip hlast)
      · exact hfirst

end Refers

theorem leafNames_ofName (name : String) : (Content.ofName name).leafNames = [name] := by
  unfold Content.ofName
  split
  · rename_i he
    rw [he]
    rfl
  split <;> rfl

/-! ## The readers together

A reader that runs out of fuel leaves its tokens where they are, so it needs none here. -/

def BranchesRefer (last fuel : Nat) : Prop :=
  ∀ ts, negationsComplete ts = true →
    Refers ts (leafNamesOfBranches (branches last fuel ts).1) (branches last fuel ts).2

def BranchRefers (last fuel : Nat) : Prop :=
  ∀ b ts, negationsComplete ts = true →
    ∃ es, (branch last fuel b ts).1.elements = b.elements ++ es ∧
      Refers ts (leafNamesOfElements es) (branch last fuel b ts).2

def ElementRefers (last fuel : Nat) : Prop :=
  ∀ b ts, negationsComplete ts = true → startsElement ts = true →
    ∃ es, (branchElement last fuel b ts).1.elements = b.elements ++ es ∧
      Refers ts (leafNamesOfElements es) (branchElement last fuel b ts).2

def AtomRefers (last fuel : Nat) : Prop :=
  ∀ ts, negationsComplete ts = true → startsElement ts = true →
    Refers ts ((atom last fuel ts).1.elim [] Content.leafNames) (atom last fuel ts).2

variable {last fuel : Nat}

theorem branchesRefer_succ (ihBranch : BranchRefers last fuel)
    (ihBranches : BranchesRefer last fuel) : BranchesRefer last (fuel + 1) := by
  intro ts hts
  obtain ⟨es, hes, hfirst⟩ := ihBranch { offset := startOffset last ts } ts hts
  rw [List.nil_append] at hes
  rw [← hes] at hfirst
  rw [branches]
  split
  · rename_i b heq
    rw [heq] at hfirst
    exact hfirst.trans (.refl [])
  · rename_i b p rest heq
    rw [heq] at hfirst
    split
    · rename_i hp
      have hrest := negationsComplete_of_suffix hts ((List.suffix_cons p rest).trans hfirst.suffix)
      have hpipe : Refers (p :: rest) [] rest := .silent rest (by rw [hp]; rfl)
      exact hfirst.trans (hpipe.skip (ihBranches rest hrest))
    · exact hfirst.trans (.refl _)

theorem branchRefers_succ (ihBranch : BranchRefers last fuel)
    (ihElement : ElementRefers last fuel) : BranchRefers last (fuel + 1) := by
  intro b ts hts
  have hstop : ∃ es, b.elements = b.elements ++ es ∧ Refers ts (leafNamesOfElements es) ts :=
    ⟨[], (List.append_nil _).symm, .refl ts⟩
  cases ts with
  | nil => exact hstop
  | cons t ts =>
    -- the calls behind something that is passed over
    have hskip (b' : Branch) {mid : List Token} (he : b'.elements = b.elements)
        (hmid : Refers (t :: ts) [] mid) :
        ∃ es, (branch last fuel b' mid).1.elements = b.elements ++ es ∧
          Refers (t :: ts) (leafNamesOfElements es) (branch last fuel b' mid).2 := by
      obtain ⟨es, hes, hrefers⟩ := ihBranch b' mid (negationsComplete_of_suffix hts hmid.suffix)
      exact ⟨es, he ▸ hes, hmid.skip hrefers⟩
    rw [branch]
    split
    · exact hstop
    · exact hstop
    · rename_i hk
      exact hskip _ rfl (.alternativeLabel ts hk)
    · rename_i hk
      exact hskip _ rfl (.commands ts hk)
    · rename_i hk
      have haction : Refers (t :: ts) [] ts := .silent ts (by rw [hk]; rfl)
      exact hskip _ rfl (haction.skip (.passPredicate ts))
    · rename_i hk
      exact hskip _ rfl (.options ts hk)
    · rename_i hk
      split
      · rename_i hassign
        exact hskip _ rfl (.label hk hassign)
      · rename_i hassign
        exact ihElement b (t :: ts) hts (by simp [startsElement, hk, hassign])
    · rename_i _ _ hhash harrow _ hlt hident
      have hsilent : t.kind.isSilent = true := by
        simp only [TokenKind.isSilent, Bool.and_eq_true, decide_eq_true_eq]
        exact ⟨⟨⟨harrow, hlt⟩, hhash⟩, hident⟩
      exact ihElement b (t :: ts) hts (by rw [startsElement, hsilent]; rfl)

theorem elementRefers_succ (ihBranch : BranchRefers last fuel) (ihAtom : AtomRefers last fuel) :
    ElementRefers last (fuel + 1) := by
  intro b ts hts hstart
  have hatom := ihAtom ts hts hstart
  rw [branchElement]
  split
  · rename_i rest heq
    rw [heq] at hatom
    obtain ⟨es, hes, hrefers⟩ := ihBranch b rest (negationsComplete_of_suffix hts hatom.suffix)
    exact ⟨es, hes, hatom.skip hrefers⟩
  · rename_i content rest heq
    rw [heq] at hatom
    have hrest := hatom.trans ((Refers.passOptions rest).skip (.quantified content _))
    rw [List.append_nil] at hrest
    obtain ⟨es, hes, hrefers⟩ := ihBranch
      { b with elements := b.elements ++ [(quantified content (passOptions rest)).1] } _
      (negationsComplete_of_suffix hts hrest.suffix)
    refine ⟨(quantified content (passOptions rest)).1 :: es, ?_, ?_⟩
    · rw [hes, List.append_assoc, List.singleton_append]
    · rw [leafNamesOfElements, (quantified_suffix content (passOptions rest)).2]
      exact hrest.trans hrefers

theorem atomRefers_succ (ihBranches : BranchesRefer last fuel) (ihAtom : AtomRefers last fuel) :
    AtomRefers last (fuel + 1) := by
  intro ts hts hstart
  cases ts with
  | nil => exact .refl []
  | cons t ts =>
    have htail := negationsComplete_of_suffix hts (List.suffix_cons t ts)
    rw [atom]
    split
    · rename_i hk
      have hassign : startsWithAssign ts = false := by
        simpa [startsElement, TokenKind.isSilent, hk] using hstart
      show Refers (t :: ts) (Content.ofName t.name).leafNames ts
      rw [leafNames_ofName]
      exact .name hk hassign
    · rename_i hk
      exact .literalOrRange ts hk
    · rename_i hk
      exact .silent ts (by rw [hk]; rfl)
    · rename_i hk
      exact .silent ts (by rw [hk]; rfl)
    · rename_i hk
      have htilde : Refers (t :: ts) [] ts := .silent ts (by rw [hk]; rfl)
      split
      · exact htilde
      · have hoperand : startsOperand ts = true := by
          simpa [negationsComplete, hk, htail] using hts
        have hinner := ihAtom ts htail (startsElement_of_startsOperand hoperand)
        have hnames : ((atom last fuel ts).1.map Content.negated).elim [] Content.leafNames =
            (atom last fuel ts).1.elim [] Content.leafNames := by
          cases (atom last fuel ts).1 <;> rfl
        have hall := htilde.skip hinner
        rw [← hnames] at hall
        exact hall
    · rename_i hk
      have hopen : Refers (t :: ts) [] ts := .silent ts (by rw [hk]; rfl)
      have hall := hopen.skip (ihBranches ts htail)
      split
      · rename_i bs heq
        rw [heq] at hall
        exact hall
      · rename_i bs c rest heq
        rw [heq] at hall
        split
        · rename_i hc
          have hclose : Refers (c :: rest) [] rest := .silent rest (by rw [hc]; rfl)
          have hgroup := hall.trans hclose
          rw [List.append_nil] at hgroup
          exact hgroup
        · exact hall
    · rename_i hident _ _ _ _ _
      rw [startsElement, Bool.or_eq_true, Bool.and_eq_true, decide_eq_true_eq] at hstart
      exact .silent ts (hstart.resolve_right fun hname => hident hname.1)

theorem readers_refer (last fuel : Nat) :
    BranchesRefer last fuel ∧ BranchRefers last fuel ∧ ElementRefers last fuel ∧
      AtomRefers last fuel := by
  induction fuel with
  | zero =>
    refine ⟨?_, ?_, ?_, ?_⟩
    · intro ts _
      exact .refl ts
    · intro b ts _
      exact ⟨[], (List.append_nil _).symm, .refl ts⟩
    · intro b ts _ _
      exact ⟨[], (List.append_nil _).symm, .refl ts⟩
    · intro ts _ _
      exact .refl ts
  | succ fuel ih =>
    obtain ⟨ihBranches, ihBranch, ihElement, ihAtom⟩ := ih
    exact ⟨branchesRefer_succ ihBranch ihBranches, branchRefers_succ ihBranch ihElement,
      elementRefers_succ ihBranch ihAtom, atomRefers_succ ihBranches ihAtom⟩

/-! ## Whole bodies -/

theorem namesIn_eq_leafNames (last : Nat) (hlaw : Lawful ts) (hts : negationsComplete ts = true)
    (hfuel : ts.length < fuel) :
    namesIn ts = (leafNamesOfBranches (allBranches last fuel ts)).filter (· ∉ reservedWords) := by
  induction fuel generalizing ts with
  | zero => omega
  | succ fuel ih =>
    have hread := (reads last (4 * ts.length + 4)).1 ts hlaw (Nat.le_refl _)
    have hrefers := (readers_refer last (4 * ts.length + 4)).1 ts hts
    rw [hrefers.names, allBranches]
    split
    · rename_i bs heq
      rw [heq, namesIn, referencesIn]
      exact List.append_nil _
    · rename_i bs c rest heq
      rw [heq] at hread hrefers
      rw [heq]
      have hclose : c.kind = .parenClose := hread.stop c rfl
      have hskip : Refers (c :: rest) [] rest := .silent rest (by rw [hclose]; rfl)
      have hrest : rest <:+ ts := (List.suffix_cons c rest).trans hrefers.suffix
      have hlen := hrefers.suffix.length_le
      rw [List.length_cons] at hlen
      rw [leafNamesOfBranches_append, List.filter_append, hskip.names,
        ih (hlaw.of_suffix hrest) (negationsComplete_of_suffix hts hrest) (by omega)]
      rfl

/-- If behind each `~` stands its operand, the references of a body are the names in its structure
but for reserved words; so what an alternative can begin with is referred to. -/
theorem references_eq_leafNames {body : List Char}
    (h : negationsComplete (significant body) = true) :
    (references body).map (·.name) =
        (Structure.parse body).leafNames.filter (· ∉ reservedWords) ∧
      ∀ b ∈ (Structure.parse body).allAlternatives, ∀ name ∈ b.firstNames,
        name ∉ reservedWords → name ∈ referencedNames body := by
  have hnames : (references body).map (·.name) =
      (Structure.parse body).leafNames.filter (· ∉ reservedWords) :=
    namesIn_eq_leafNames _ (lawful_significant body) h (Nat.lt_succ_self _)
  refine ⟨hnames, ?_⟩
  intro b hb name hname hreserved
  have hleaf : name ∈ (Structure.parse body).leafNames :=
    leafNames_among _ b hb (firstNamesOfElements_subset _ hname)
  rw [referencedNames, List.mem_eraseDups, hnames]
  exact List.mem_filter.2 ⟨hleaf, decide_eq_true hreserved⟩

/-- A body with whatever is passed over, a stray `)` and an unclosed group. -/
def labelledBody : List Char :=
  "x=a ~(B | 'c') <p=q> {f}? mode (EOF ys+=d)* # lab | ~[x] e -> type(T) ) ( f < g".toList

/-- The leaves are `a`, `B`, `mode`, `EOF`, `d`, `e` and `f`; the reserved word is left out. -/
theorem references_labelledBody :
    negationsComplete (significant labelledBody) = true ∧
      (references labelledBody).map (·.name) = ["a", "B", "EOF", "d", "e", "f"] ∧
      "B" ∈ referencedNames labelledBody := by
  have hcomplete : negationsComplete (significant labelledBody) = true := by decide +kernel
  have hleaves : (Structure.parse labelledBody).leafNames =
      ["a", "B", "mode", "EOF", "d", "e", "f"] := by decide +kernel
  have hfirst : ∃ b ∈ (Structure.parse labelledBody).allAlternatives, "B" ∈ b.firstNames := by
    decide +kernel
  obtain ⟨hnames, hreferred⟩ := references_eq_leafNames hcomplete
  obtain ⟨b, hb, hname⟩ := hfirst
  refine ⟨hcomplete, ?_, hreferred b hb "B" hname (by decide)⟩
  rw [hnames, hleaves]
  decide

end GrammarLab.Body
