import GrammarLab.Body.Structure.Parser
import GrammarLab.Proofs.Body.Script

/-!
# What readers of bodies pass over

Reading a body loses what no structure has a place for, and makes up what was left out: an unclosed
group is closed, a stray `)` taken for a pipe. Whatever is lost weighs something, while what is
made up weighs nothing; so a structure that weighs as much as the tokens it was read from has all
of them.

    branches last fuel ts = (bs, rest) → Covers ts (wordsIn (branchesScript true bs)) rest
-/

namespace GrammarLab.Body

/-- The number of characters other than blanks, pipes and closing parentheses. -/
def weight (s : List Char) : Nat := s.countP fun c => c ≠ ' ' && c ≠ '|' && c ≠ ')'

/-- Tokens as the lexer leaves them. -/
def Lawful (ts : List Token) : Prop := ∀ t ∈ ts, t.lexeme.Regular ∧ t.kind.isTrivia = false

/-- The tokens are those of `ws` and then `rest`, but for parentheses that are missing at the end;
or else something of weight is left out. -/
def Covers (ts : List Token) (ws : List Lexeme) (rest : List Token) : Prop :=
  weight (textOf ws) + weight (textOf (rest.map Token.lexeme)) <
      weight (textOf (ts.map Token.lexeme)) ∨
    ∃ n, ts.map Token.lexeme ++ List.replicate n closeLexeme = ws ++ rest.map Token.lexeme ∧
      (n = 0 ∨ rest = [])

mutual

/-- No group without an alternative, no parser rule with the name of a lexer rule, nothing lazy
without a quantifier. -/
def Content.isProper : Content → Bool
  | .rule name => !isLexerName name
  | .group branches => !branches.isEmpty && properBranches branches
  | .negated inner => inner.isProper
  | _ => true

def properBranches : List (AlternativeOf Content) → Bool
  | [] => true
  | ⟨elements, _, _, _⟩ :: rest => properElements elements && properBranches rest

def properElements : List (ElementOf Content) → Bool
  | [] => true
  | ⟨content, modifier, greedy⟩ :: rest =>
    content.isProper && (modifier ≠ .once || greedy) && properElements rest

end

/-! ## Weights -/

theorem weight_append (s t : List Char) : weight (s ++ t) = weight s + weight t :=
  List.countP_append

theorem weight_textOf_append (S T : List Lexeme) :
    weight (textOf (S ++ T)) = weight (textOf S) + weight (textOf T) := by
  rw [textOf_append, weight_append]

theorem weight_textOf_replicate (n : Nat) :
    weight (textOf (List.replicate n closeLexeme)) = 0 := by
  induction n with
  | zero => rfl
  | succ n ih => rw [List.replicate_succ, textOf_cons, weight_append, ih]; rfl

theorem weight_suffix {ts us : List Token} (h : ts <:+ us) :
    weight (textOf (ts.map Token.lexeme)) ≤ weight (textOf (us.map Token.lexeme)) := by
  obtain ⟨vs, rfl⟩ := h
  rw [List.map_append, weight_textOf_append]
  exact Nat.le_add_left _ _

/-- All tokens have weight but pipes and closing parentheses. -/
theorem weight_pos {t : Token} (h : t.lexeme.Regular ∧ t.kind.isTrivia = false)
    (h₁ : t.kind ≠ .pipe) (h₂ : t.kind ≠ .parenClose) : 0 < weight t.text := by
  obtain ⟨hr, ht⟩ := h
  obtain ⟨c, cs, htext, hblank, -, hmark⟩ := hr.head
  have hc : c ≠ ' ' := by
    rintro rfl
    have := hblank fun hk => by
      have hk : t.kind = .blank := hk
      simp [hk, TokenKind.isTrivia] at ht
    simp [isBlank] at this
  obtain ⟨hp, hcl⟩ := hmark h₁ h₂
  have htext : t.text = c :: cs := htext
  rw [htext, weight, List.countP_cons_of_pos (by simp [hc, hp, hcl])]
  omega

namespace Covers

variable {ts mid rest : List Token} {ws ws' : List Lexeme}

theorem le (h : Covers ts ws rest) :
    weight (textOf ws) + weight (textOf (rest.map Token.lexeme)) ≤
      weight (textOf (ts.map Token.lexeme)) := by
  rcases h with h | ⟨n, h, -⟩
  · exact Nat.le_of_lt h
  · have := congrArg (weight ∘ textOf) h
    simp only [Function.comp, weight_textOf_append, weight_textOf_replicate] at this
    omega

theorem refl (ts : List Token) : Covers ts [] ts := .inr ⟨0, by simp, .inl rfl⟩

theorem token (t : Token) (ts : List Token) : Covers (t :: ts) [t.lexeme] ts :=
  .inr ⟨0, by simp, .inl rfl⟩

/-- What is passed over has weight. -/
theorem skip {t : Token} (ht : 0 < weight t.text) (h : rest <:+ ts) : Covers (t :: ts) [] rest := by
  have hle := weight_suffix h
  have hw : weight (textOf ((t :: ts).map Token.lexeme)) =
      weight t.text + weight (textOf (ts.map Token.lexeme)) := weight_append _ _
  left
  rw [hw]
  simp only [textOf, List.flatMap_nil, weight, List.countP_nil] at hle ht ⊢
  omega

theorem trans (h₁ : Covers ts ws mid) (h₂ : Covers mid ws' rest) :
    Covers ts (ws ++ ws') rest := by
  have hle₁ := h₁.le
  have hle₂ := h₂.le
  rcases h₁ with h₁ | ⟨n, h₁, hn⟩
  · left
    rw [weight_textOf_append]
    omega
  rcases h₂ with h₂ | ⟨m, h₂, hm⟩
  · left
    rw [weight_textOf_append]
    omega
  · right
    refine ⟨n + m, ?_, ?_⟩
    · rcases hn with rfl | rfl
      · rw [List.replicate_zero, List.append_nil] at h₁
        rw [h₁, Nat.zero_add, List.append_assoc, h₂, List.append_assoc]
      · rw [← List.replicate_append_replicate, ← List.append_assoc, h₁, List.map_nil, List.append_nil,
          List.append_assoc, ← h₂]
        rfl
    · rcases hn with rfl | rfl
      · rcases hm with rfl | hm
        · exact .inl rfl
        · exact .inr hm
      · right
        rcases hm with rfl | hm
        · simp only [List.map_nil, List.replicate_zero, List.append_nil] at h₂
          exact List.map_eq_nil_iff.1 (List.append_eq_nil_iff.1 h₂.symm).2
        · exact hm

/-- A parenthesis may be left out at the end. -/
theorem close (h : Covers ts ws []) : Covers ts (ws ++ [closeLexeme]) [] := by
  refine h.trans (.inr ⟨1, rfl, .inr rfl⟩)

end Covers

/-! ## Single readers -/

theorem Lawful.of_suffix {ts us : List Token} (h : Lawful us) (hs : ts <:+ us) : Lawful ts :=
  fun t ht => h t (hs.subset ht)

theorem lexeme_of_spelled? {t : Token} {s : List Char} (h : t.lexeme.Regular)
    (hs : t.kind.spelled? = some s) : t.lexeme = ⟨t.kind, s⟩ := by
  have htext : t.text = s := h.spelled s hs
  rw [Token.lexeme, htext]

theorem afterOptions_suffix (ts : List Token) : afterOptions ts <:+ ts :=
  (List.drop_suffix 1 _).trans (List.dropWhile_suffix _)

theorem afterIdent_suffix (ts : List Token) : afterIdent ts <:+ ts := by
  cases ts with
  | nil => exact List.suffix_refl _
  | cons t ts =>
    simp only [afterIdent]
    split
    · exact List.suffix_cons t ts
    · exact List.suffix_refl _

theorem passPredicate_suffix (ts : List Token) : passPredicate ts <:+ ts := by
  cases ts with
  | nil => exact List.suffix_refl _
  | cons t ts =>
    simp only [passPredicate]
    split
    · exact List.suffix_cons t ts
    · exact List.suffix_refl _

theorem argument_suffix (ts : List Token) : (argument ts).2 <:+ ts := by
  cases ts with
  | nil => exact List.suffix_refl _
  | cons t ts =>
    simp only [argument]
    split
    · exact ((List.drop_suffix 1 _).trans (List.dropWhile_suffix _)).trans (List.suffix_cons t ts)
    · exact List.suffix_refl _

theorem commandList_suffix (ts : List Token) : (commandList ts).2 <:+ ts := by
  fun_induction commandList ts with
  | case1 => exact List.suffix_refl _
  | case2 t ts _ _ h => exact List.nil_suffix
  | case3 t ts _ _ c more h _ commands rest heq ih =>
    have hrest : rest <:+ more := by rwa [heq] at ih
    have hmore : more <:+ ts := by
      have := argument_suffix ts
      rw [h] at this
      exact (List.suffix_cons c more).trans this
    exact (hrest.trans hmore).trans (List.suffix_cons t ts)
  | case4 t ts _ _ c more h =>
    have := argument_suffix ts
    rw [h] at this
    exact this.trans (List.suffix_cons t ts)
  | case5 => exact List.suffix_refl _

theorem covers_passOptions {ts : List Token} (hts : Lawful ts) :
    passOptions ts <:+ ts ∧ Covers ts [] (passOptions ts) := by
  cases ts with
  | nil => exact ⟨List.suffix_refl _, .refl _⟩
  | cons t ts =>
    simp only [passOptions]
    split
    · rename_i hk
      have hs : afterOptions (t :: ts) <:+ ts := by
        have hd : afterOptions (t :: ts) = afterOptions ts := by
          simp [afterOptions, hk]
        rw [hd]
        exact afterOptions_suffix ts
      refine ⟨hs.trans (List.suffix_cons t ts), .skip ?_ hs⟩
      exact weight_pos (hts t List.mem_cons_self) (by simp [hk]) (by simp [hk])
    · exact ⟨List.suffix_refl _, .refl _⟩

theorem covers_quantified {ts : List Token} (c : Content) (hts : Lawful ts) :
    (quantified c ts).2 <:+ ts ∧
      Covers ts (modifierScript (quantified c ts).1.modifier (quantified c ts).1.greedy)
        (quantified c ts).2 ∧
      (quantified c ts).1.content = c ∧
      ((quantified c ts).1.modifier ≠ .once ∨ (quantified c ts).1.greedy = true) := by
  cases ts with
  | nil => exact ⟨List.suffix_refl _, .refl _, rfl, .inr rfl⟩
  | cons t ts =>
    obtain ⟨hr, -⟩ := hts t List.mem_cons_self
    simp only [quantified]
    split
    · rename_i m greedy hm
      refine ⟨List.suffix_cons t ts, ?_, rfl, ?_⟩
      · have htoken := Covers.token t ts
        have hlex : [t.lexeme] = modifierScript m greedy := by
          cases hk : t.kind
          all_goals
            simp only [hk, TokenKind.modifier?, Option.some.injEq, Prod.mk.injEq,
              reduceCtorEq] at hm
          all_goals
            obtain ⟨rfl, rfl⟩ := hm
            rw [lexeme_of_spelled? hr (by rw [hk]; rfl), hk]
            rfl
        rwa [hlex] at htoken
      · cases hk : t.kind <;> simp_all [TokenKind.modifier?]
        all_goals simp [← hm.1]
    · exact ⟨List.suffix_refl _, .refl _, rfl, .inr rfl⟩

theorem covers_literalOrRange {t : Token} {ts : List Token} (hk : t.kind = .literal)
    (hts : Lawful ts) :
    (literalOrRange t ts).2 <:+ ts ∧ (literalOrRange t ts).1.isProper = true ∧
      Covers (t :: ts) (wordsIn (literalOrRange t ts).1.script) (literalOrRange t ts).2 := by
  have ht : t.lexeme = ⟨.literal, t.text⟩ := by rw [Token.lexeme, hk]
  have hone : ∀ us, Covers (t :: us) (wordsIn (Content.literal t.text).script) us := by
    intro us
    have := Covers.token t us
    rwa [ht] at this
  cases ts with
  | nil => exact ⟨List.suffix_refl _, rfl, hone []⟩
  | cons op ts =>
    cases ts with
    | nil => exact ⟨List.suffix_refl _, rfl, hone [op]⟩
    | cons last rest =>
      simp only [literalOrRange]
      split
      · rename_i hr
        simp only [Bool.and_eq_true, decide_eq_true_eq] at hr
        obtain ⟨hop, hlast⟩ := hr
        refine ⟨(List.suffix_cons last rest).trans (List.suffix_cons op _), rfl, ?_⟩
        have hlex : last.lexeme = ⟨.literal, last.text⟩ := by rw [Token.lexeme, hlast]
        have hopl := lexeme_of_spelled? (hts op List.mem_cons_self).1 (by rw [hop]; rfl)
        have := ((Covers.token t _).trans (.token op _)).trans (.token last rest)
        rw [ht, hopl, hlex, hop] at this
        exact this
      · exact ⟨List.suffix_refl _, rfl, hone _⟩

/-! ## The readers together -/

/-- `r` is the alternative `b` with what was read of the tokens, and the tokens it stopped at. -/
structure ReadsElements (b : Branch) (ts : List Token) (r : Branch × List Token) : Prop where
  suffix : r.2 <:+ ts
  stop : ∀ t ∈ r.2.head?, t.kind = .pipe ∨ t.kind = .parenClose
  elements : ∃ es, r.1.elements = b.elements ++ es ∧ properElements es = true ∧
    Covers ts (wordsIn (elementsScript es)) r.2

/-- `r` holds the alternatives read of the tokens, and the tokens that reading stopped at. -/
structure ReadsBranches (ts : List Token) (r : List Branch × List Token) : Prop where
  suffix : r.2 <:+ ts
  stop : ∀ t ∈ r.2.head?, t.kind = .parenClose
  nonempty : r.1 ≠ []
  proper : properBranches r.1 = true
  covers : Covers ts (wordsIn (branchesScript true r.1)) r.2

/-- `r` holds what was read of the tokens behind `t`, if anything was. -/
structure ReadsAtom (t : Token) (ts : List Token) (r : Option Content × List Token) : Prop where
  suffix : r.2 <:+ ts
  none : r.1 = none → Covers (t :: ts) [] r.2
  some : ∀ c, r.1 = some c → c.isProper = true ∧ Covers (t :: ts) (wordsIn c.script) r.2

theorem ReadsElements.stopped {b : Branch} {ts : List Token}
    (h : ∀ t ∈ ts.head?, t.kind = .pipe ∨ t.kind = .parenClose) : ReadsElements b ts (b, ts) :=
  ⟨List.suffix_refl _, h, [], by simp, rfl, .refl ts⟩

/-- What stands behind tokens that were passed over goes on with the same alternative. -/
theorem ReadsElements.after {b : Branch} (b' : Branch) {ts mid : List Token}
    {r : Branch × List Token} (es : List Element) (hs : mid <:+ ts) (he : b'.elements = b.elements ++ es)
    (hp : properElements es = true) (hc : Covers ts (wordsIn (elementsScript es)) mid)
    (h : ReadsElements b' mid r) : ReadsElements b ts r := by
  obtain ⟨hsuf, hstop, fs, hfs, hpf, hcf⟩ := h
  refine ⟨hsuf.trans hs, hstop, es ++ fs, by rw [hfs, he, List.append_assoc], ?_, ?_⟩
  · clear he hc
    induction es with
    | nil => exact hpf
    | cons e es ih =>
      obtain ⟨content, modifier, greedy⟩ := e
      rw [properElements, Bool.and_eq_true] at hp
      rw [List.cons_append, properElements, hp.1, ih hp.2]
      rfl
  · rw [wordsIn_elementsScript_append]
    exact hc.trans hcf

theorem ReadsElements.skip {b b' : Branch} {t : Token} {ts mid : List Token}
    {r : Branch × List Token} (hw : 0 < weight t.text) (hs : mid <:+ ts)
    (he : b'.elements = b.elements) (h : ReadsElements b' mid r) : ReadsElements b (t :: ts) r :=
  .after b' [] (hs.trans (List.suffix_cons t ts)) (by simp [he]) rfl (.skip hw hs) h

theorem covers_ofName {t : Token} (ts : List Token) (hk : t.kind = .ident) :
    (Content.ofName t.name).isProper = true ∧
      Covers (t :: ts) (wordsIn (Content.ofName t.name).script) ts := by
  have ht : t.lexeme = ⟨.ident, t.name.toList⟩ := by
    rw [Token.lexeme, hk, Token.name, String.toList_ofList]
  have hone := Covers.token t ts
  rw [ht] at hone
  unfold Content.ofName
  split
  · rename_i he
    rw [he] at hone
    exact ⟨rfl, hone⟩
  split
  · exact ⟨rfl, hone⟩
  · rename_i hl
    exact ⟨by simpa [Content.isProper] using hl, hone⟩

/-! Every call has enough fuel for the tokens that it is given. -/

def BranchesRead (last fuel : Nat) : Prop :=
  ∀ ts, Lawful ts → 4 * ts.length + 4 ≤ fuel → ReadsBranches ts (branches last fuel ts)

def BranchRead (last fuel : Nat) : Prop :=
  ∀ b ts, Lawful ts → 4 * ts.length + 3 ≤ fuel → ReadsElements b ts (branch last fuel b ts)

def ElementRead (last fuel : Nat) : Prop :=
  ∀ b t ts, Lawful (t :: ts) → t.kind ≠ .pipe → t.kind ≠ .parenClose →
    4 * (t :: ts).length + 2 ≤ fuel →
      ReadsElements b (t :: ts) (branchElement last fuel b (t :: ts))

def AtomRead (last fuel : Nat) : Prop :=
  ∀ t ts, Lawful (t :: ts) → t.kind ≠ .pipe → t.kind ≠ .parenClose →
    4 * (t :: ts).length + 1 ≤ fuel → ReadsAtom t ts (atom last fuel (t :: ts))

theorem branchesRead_succ {last fuel : Nat} (ihBranch : BranchRead last fuel)
    (ihBranches : BranchesRead last fuel) : BranchesRead last (fuel + 1) := by
  intro ts hts hfuel
  have hb := ihBranch { offset := startOffset last ts } ts hts (by omega)
  rw [branches]
  obtain ⟨hsuf, hstop, es, hes, hpe, hcov⟩ := hb
  rw [show ({ offset := startOffset last ts } : Branch).elements = [] from rfl,
    List.nil_append] at hes
  split
  · rename_i b heq
    rw [heq] at hes hcov
    refine ⟨List.nil_suffix, by simp, by simp, ?_, ?_⟩
    · obtain ⟨elements, _, _, _⟩ := b
      obtain rfl : elements = es := hes
      simp [properBranches, hpe]
    · rw [wordsIn_branchesScript_cons, hes]
      exact (List.append_nil _).symm ▸ hcov
  · rename_i b p rest heq
    rw [heq] at hsuf hstop hes hcov
    have hlaw := hts.of_suffix hsuf
    have hlen := hsuf.length_le
    simp only [List.length_cons] at hlen
    split
    · rename_i hp
      obtain ⟨hsuf', hstop', hne, hpb, hcov'⟩ :=
        ihBranches rest (hlaw.of_suffix (List.suffix_cons p rest)) (by omega)
      refine ⟨(hsuf'.trans (List.suffix_cons p rest)).trans hsuf, hstop', by simp, ?_, ?_⟩
      · obtain ⟨elements, _, _, _⟩ := b
        obtain rfl : elements = es := hes
        simp [properBranches, hpe, hpb]
      · obtain ⟨b', bs, hbs⟩ := List.exists_cons_of_ne_nil hne
        rw [wordsIn_branchesScript_cons, hes, hbs, wordsIn_branchesScript_false, ← hbs]
        have hpipe := Covers.token p rest
        rw [lexeme_of_spelled? (hlaw p List.mem_cons_self).1 (by rw [hp]; rfl), hp] at hpipe
        exact hcov.trans (hpipe.trans hcov')
    · rename_i hp
      have hclose : p.kind = .parenClose := by simpa [hp] using hstop p (by simp)
      refine ⟨hsuf, by simpa using hclose, by simp, ?_, ?_⟩
      · obtain ⟨elements, _, _, _⟩ := b
        obtain rfl : elements = es := hes
        simp [properBranches, hpe]
      · rw [wordsIn_branchesScript_cons, hes]
        exact (List.append_nil _).symm ▸ hcov

theorem branchRead_succ {last fuel : Nat} (ihBranch : BranchRead last fuel)
    (ihElement : ElementRead last fuel) : BranchRead last (fuel + 1) := by
  intro b ts hts hfuel
  cases ts with
  | nil =>
    rw [branch]
    exact .stopped (by simp)
  | cons t ts =>
    have ht := hts t List.mem_cons_self
    have htail := hts.of_suffix (List.suffix_cons t ts)
    simp only [List.length_cons] at hfuel
    have helement (h₁ : t.kind ≠ .pipe) (h₂ : t.kind ≠ .parenClose) :
        ReadsElements b (t :: ts) (branchElement last fuel b (t :: ts)) :=
      ihElement b t ts hts h₁ h₂ (by simp only [List.length_cons]; omega)
    -- the calls behind something that is passed over
    have hskip (b' : Branch) (mid : List Token) (hs : mid <:+ ts) (he : b'.elements = b.elements)
        (h₁ : t.kind ≠ .pipe) (h₂ : t.kind ≠ .parenClose) :
        ReadsElements b (t :: ts) (branch last fuel b' mid) := by
      have := hs.length_le
      exact .skip (weight_pos ht h₁ h₂) hs he (ihBranch b' mid (htail.of_suffix hs) (by omega))
    rw [branch]
    split
    · rename_i hk
      exact .stopped (by simp [hk])
    · rename_i hk
      exact .stopped (by simp [hk])
    · rename_i hk
      exact hskip _ _ (afterIdent_suffix ts) rfl (by simp [hk]) (by simp [hk])
    · rename_i hk
      exact hskip _ _ (commandList_suffix ts) rfl (by simp [hk]) (by simp [hk])
    · rename_i hk
      exact hskip _ _ (passPredicate_suffix ts) rfl (by simp [hk]) (by simp [hk])
    · rename_i hk
      exact hskip _ _ (afterOptions_suffix ts) rfl (by simp [hk]) (by simp [hk])
    · rename_i hk
      split
      · exact hskip _ _ (List.drop_suffix 1 ts) rfl (by simp [hk]) (by simp [hk])
      · exact helement (by simp [hk]) (by simp [hk])
    · rename_i h₁ h₂ _ _ _ _ _
      exact helement h₁ h₂

theorem elementRead_succ {last fuel : Nat} (ihBranch : BranchRead last fuel)
    (ihAtom : AtomRead last fuel) : ElementRead last (fuel + 1) := by
  intro b t ts hts h₁ h₂ hfuel
  have htail := hts.of_suffix (List.suffix_cons t ts)
  have hatom := ihAtom t ts hts h₁ h₂ (by omega)
  simp only [List.length_cons] at hfuel
  rw [branchElement]
  split
  · rename_i rest heq
    rw [heq] at hatom
    have hs : rest <:+ ts := hatom.suffix
    have := hs.length_le
    refine .after b [] (hs.trans (List.suffix_cons t ts)) (by simp) rfl
      (hatom.none rfl) ?_
    exact ihBranch b rest (htail.of_suffix hs) (by omega)
  · rename_i c rest heq
    rw [heq] at hatom
    obtain ⟨hproper, hcov⟩ := hatom.some c rfl
    have hs : rest <:+ ts := hatom.suffix
    obtain ⟨hs₁, hcov₁⟩ := covers_passOptions (htail.of_suffix hs)
    have hlaw := (htail.of_suffix hs).of_suffix hs₁
    obtain ⟨hs₂, hcov₂, hcontent, hquant⟩ := covers_quantified c hlaw
    obtain ⟨⟨⟨content, modifier, greedy⟩, rest'⟩, hq⟩ :
        ∃ q, quantified c (passOptions rest) = q := ⟨_, rfl⟩
    rw [hq] at hs₂ hcov₂ hcontent hquant
    simp only [hq]
    obtain rfl : content = c := hcontent
    have hall : rest' <:+ ts := (hs₂.trans hs₁).trans hs
    have := hall.length_le
    refine .after _ [⟨content, modifier, greedy⟩] (hall.trans (List.suffix_cons t ts)) rfl ?_ ?_
      (ihBranch _ _ (htail.of_suffix hall) (by omega))
    · simpa [properElements, hproper] using hquant
    · rw [wordsIn_elementsScript_cons, ElementOf.script, wordsIn_append, wordsIn_modifierScript]
      have hcov' := hcov.trans (hcov₁.trans hcov₂)
      simpa [elementsScript, wordsIn] using hcov'

theorem readsAtom_none {t : Token} {ts rest : List Token} (hts : Lawful (t :: ts))
    (h₁ : t.kind ≠ .pipe) (h₂ : t.kind ≠ .parenClose) (hs : rest <:+ ts) :
    ReadsAtom t ts (none, rest) :=
  ⟨hs, fun _ => .skip (weight_pos (hts t List.mem_cons_self) h₁ h₂) hs, by simp⟩

theorem readsAtom_some {t : Token} {ts rest : List Token} {c : Content} (hs : rest <:+ ts)
    (hp : c.isProper = true) (hc : Covers (t :: ts) (wordsIn c.script) rest) :
    ReadsAtom t ts (some c, rest) :=
  ⟨hs, by simp, fun d hd => by obtain rfl := Option.some.inj hd; exact ⟨hp, hc⟩⟩

theorem readsAtom_negated {t u : Token} {us rest : List Token} {inner : Option Content}
    (hts : Lawful (t :: u :: us)) (hk : t.kind = .tilde) (h : ReadsAtom u us (inner, rest)) :
    ReadsAtom t (u :: us) (inner.map .negated, rest) := by
  have hs : rest <:+ u :: us := h.suffix.trans (List.suffix_cons u us)
  cases inner with
  | none => exact readsAtom_none hts (by simp [hk]) (by simp [hk]) hs
  | some c =>
    obtain ⟨hp, hc⟩ := h.some c rfl
    have hone := Covers.token t (u :: us)
    rw [lexeme_of_spelled? (hts t List.mem_cons_self).1 (by rw [hk]; rfl), hk] at hone
    exact readsAtom_some hs hp (hone.trans hc)

/-- A group ends at its parenthesis or with the tokens. -/
theorem readsAtom_group {last fuel : Nat} {t : Token} {ts : List Token} (hts : Lawful (t :: ts))
    (hk : t.kind = .parenOpen) (h : ReadsBranches ts (branches last fuel ts)) :
    ReadsAtom t ts (atom last (fuel + 1) (t :: ts)) := by
  have htail := hts.of_suffix (List.suffix_cons t ts)
  obtain ⟨hs, hstop, hne, hp, hc⟩ := h
  have hone := Covers.token t ts
  rw [lexeme_of_spelled? (hts t List.mem_cons_self).1 (by rw [hk]; rfl), hk] at hone
  rw [atom]
  simp only [hk]
  split
  · rename_i bs heq
    rw [heq] at hne hp hc
    refine readsAtom_some List.nil_suffix (by simpa [Content.isProper, hne] using hp) ?_
    rw [wordsIn_group]
    exact hone.trans hc.close
  · rename_i bs c rest heq
    rw [heq] at hs hstop hne hp hc
    have hclose : c.kind = .parenClose := hstop c (by simp)
    rw [if_pos hclose]
    refine readsAtom_some ((List.suffix_cons c rest).trans hs)
      (by simpa [Content.isProper, hne] using hp) ?_
    have hlast := Covers.token c rest
    rw [lexeme_of_spelled? ((htail.of_suffix hs) c List.mem_cons_self).1
      (by rw [hclose]; rfl), hclose] at hlast
    rw [wordsIn_group]
    exact hone.trans (hc.trans hlast)

theorem atomRead_succ {last fuel : Nat} (ihBranches : BranchesRead last fuel)
    (ihAtom : AtomRead last fuel) : AtomRead last (fuel + 1) := by
  intro t ts hts h₁ h₂ hfuel
  have htail := hts.of_suffix (List.suffix_cons t ts)
  simp only [List.length_cons] at hfuel
  by_cases hgroup : t.kind = .parenOpen
  · exact readsAtom_group hts hgroup (ihBranches ts htail (by omega))
  rw [atom]
  split
  · rename_i hk
    obtain ⟨hp, hc⟩ := covers_ofName ts hk
    exact readsAtom_some (List.suffix_refl ts) hp hc
  · rename_i hk
    obtain ⟨hs, hp, hc⟩ := covers_literalOrRange hk htail
    exact readsAtom_some hs hp hc
  · rename_i hk
    have hone := Covers.token t ts
    rw [Token.lexeme, hk] at hone
    exact readsAtom_some (List.suffix_refl ts) rfl hone
  · rename_i hk
    have hone := Covers.token t ts
    rw [lexeme_of_spelled? (hts t List.mem_cons_self).1 (by rw [hk]; rfl), hk] at hone
    exact readsAtom_some (List.suffix_refl ts) rfl hone
  · rename_i hk
    split
    · exact readsAtom_none hts h₁ h₂ (List.suffix_refl ts)
    · rename_i hend
      cases ts with
      | nil => simp [endsAtom] at hend
      | cons u us =>
        simp only [endsAtom, Bool.or_eq_true, decide_eq_true_eq, not_or] at hend
        exact readsAtom_negated hts hk (ihAtom u us htail hend.1 hend.2
          (by simp only [List.length_cons] at hfuel ⊢; omega))
  · rename_i hk
    exact absurd hk hgroup
  · exact readsAtom_none hts h₁ h₂ (List.suffix_refl ts)

theorem reads (last fuel : Nat) :
    BranchesRead last fuel ∧ BranchRead last fuel ∧ ElementRead last fuel ∧
      AtomRead last fuel := by
  induction fuel with
  | zero =>
    refine ⟨?_, ?_, ?_, ?_⟩
    · intro _ _ h
      omega
    · intro _ _ _ h
      omega
    · intro _ _ _ _ _ _ h
      omega
    · intro _ _ _ _ _ h
      omega
  | succ fuel ih =>
    obtain ⟨ihBranches, ihBranch, ihElement, ihAtom⟩ := ih
    exact ⟨branchesRead_succ ihBranch ihBranches, branchRead_succ ihBranch ihElement,
      elementRead_succ ihBranch ihAtom, atomRead_succ ihBranches ihAtom⟩

end GrammarLab.Body
