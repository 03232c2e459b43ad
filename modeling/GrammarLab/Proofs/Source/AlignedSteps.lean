import GrammarLab.Proofs.Source.Aligned
import GrammarLab.Proofs.Source.BodyEnds

/-!
# Steps through a widened text

Two machines at aligned places take the same step: drafts grow alike and the places behind are
aligned again. Only the value of an option may keep a line end, so only there may the drafts differ.

    m.Agrees m' → (m.step limits first).Agrees (m'.step limits first)        (Agrees.step)
-/

namespace GrammarLab.Source

open Text

variable {c c' : Cursor} {d d' : Draft} {s t : List Char} {limits : ScanLimits}

theorem rel_cases {α β : Type} {R : α → β → Prop} {x? : Option α} {y? : Option β}
    (h : Option.Rel R x? y?) :
    (x? = none ∧ y? = none) ∨ ∃ x y, x? = some x ∧ y? = some y ∧ R x y := by
  cases h with
  | none => exact .inl ⟨rfl, rfl⟩
  | some hxy => exact .inr ⟨_, _, rfl, rfl, hxy⟩

/-! ## Drafts -/

/-- The same options, where values of more than one line may differ. -/
def OptionsAlike (xs ys : List (String × String)) : Prop :=
  List.Forall₂ (fun x y => y.1 = x.1 ∧ ('\n' ∉ x.2.toList → y.2 = x.2)) xs ys

def Draft.withOptions (options : List (String × String)) (d : Draft) : Draft :=
  { d with grammar := { d.grammar with options } }

/-- The drafts are the same but for the values of options of more than one line. -/
def Draft.Agrees (d d' : Draft) : Prop :=
  ∃ options, d' = d.withOptions options ∧ OptionsAlike d.grammar.options options

/-- What is done to the draft neither reads nor writes options. -/
structure KeepsOptions (op : Draft → Draft) : Prop where
  options : ∀ d, (op d).grammar.options = d.grammar.options
  withOptions : ∀ options d, op (d.withOptions options) = (op d).withOptions options

theorem Draft.Agrees.map {op : Draft → Draft} (h : d.Agrees d') (hop : KeepsOptions op) :
    (op d).Agrees (op d') := by
  obtain ⟨options, rfl, halike⟩ := h
  exact ⟨options, hop.withOptions options d, by rwa [hop.options]⟩

theorem keepsOptions_report (x : Diagnostic) : KeepsOptions (Draft.report x) :=
  ⟨fun _ => rfl, fun _ _ => rfl⟩

theorem keepsOptions_declare (kind : GrammarKind) (name : List Char) (line : Nat) :
    KeepsOptions (Draft.declare kind name line) where
  options := fun d => by
    unfold Draft.declare
    split
    · rfl
    split <;> rfl
  withOptions := fun options d => by
    have hdeclared : (d.withOptions options).declared = d.declared := rfl
    unfold Draft.declare
    rw [hdeclared]
    split
    · rfl
    split <;> rfl

theorem keepsOptions_enterMode (name : String) (line : Nat) :
    KeepsOptions (Draft.enterMode name line) := ⟨fun _ => rfl, fun _ _ => rfl⟩

theorem keepsOptions_finishRule (h : Header) (c : Cursor) (raw : List Char) (terminated : Bool) :
    KeepsOptions (Draft.finishRule h c raw terminated) where
  options := fun d => by
    obtain ⟨d', hd', hcases⟩ := finishRule_cases h c raw terminated d
    have hoptions : d'.grammar.options = d.grammar.options := by
      cases terminated <;> exact hd' ▸ rfl
    obtain ⟨first, -, heq⟩ | ⟨-, heq⟩ := hcases
    · exact heq ▸ hoptions
    · exact heq ▸ hoptions
  withOptions := fun options d => by
    have hopen : (if terminated then d.withOptions options
        else (d.withOptions options).missingTerminator h) =
          (if terminated then d else d.missingTerminator h).withOptions options := by
      cases terminated <;> rfl
    unfold Draft.finishRule
    simp only [hopen]
    generalize (if terminated then d else d.missingTerminator h) = d'
    have hrule : (d'.withOptions options).grammar.rule? (String.ofList h.name) =
        d'.grammar.rule? (String.ofList h.name) := rfl
    rw [hrule]
    cases d'.grammar.rule? (String.ofList h.name) <;> rfl

/-! ## Options -/

theorem OptionsAlike.setOption {xs ys : List (String × String)} {key value value' : String}
    (h : OptionsAlike xs ys) (hvalue : '\n' ∉ value.toList → value' = value) :
    OptionsAlike (setOption xs key value) (setOption ys key value') := by
  have hkeys : ys.any (·.1 = key) = xs.any (·.1 = key) := by
    induction h with
    | nil => rfl
    | cons hxy _ ih => rw [List.any_cons, List.any_cons, ih, hxy.1]
  unfold GrammarLab.setOption
  rw [hkeys]
  split
  · refine List.forall₂_map_left_iff.2 (List.forall₂_map_right_iff.2 (h.imp fun x y hxy => ?_))
    rw [hxy.1]
    split
    · exact ⟨rfl, hvalue⟩
    · exact hxy
  · exact List.rel_append h (.cons ⟨rfl, hvalue⟩ .nil)

theorem lineFeed_notMem_of_isIdentifier (hs : isIdentifier s = true) : '\n' ∉ s := by
  intro hmem
  have hline : isAlphanumeric '\n' = false := by decide
  cases s with
  | nil => simp at hmem
  | cons c s =>
    rw [isIdentifier, Bool.and_eq_true, List.all_eq_true] at hs
    rcases List.mem_cons.1 hmem with rfl | hmem
    · simp only [isAlphanumeric, Bool.or_eq_false_iff] at hline
      simp [hline.1] at hs
    · have := hs.2 _ hmem
      simp [hline] at this

/-- Of two trimmed texts both are the same identifier or neither is one. -/
theorem trim_eq_of_isIdentifier (h : Widened s t) :
    isIdentifier (trim t) = isIdentifier (trim s) ∧
      (isIdentifier (trim s) = true → trim t = trim s) := by
  by_cases hline : '\n' ∈ trim s
  · have hnot : ∀ {w}, '\n' ∈ w → isIdentifier w = false := fun hmem =>
      Bool.eq_false_iff.2 fun hw => lineFeed_notMem_of_isIdentifier hw hmem
    have hline' : '\n' ∈ trim t := (h.trim.mem_iff (by decide)).2 hline
    simp [hnot hline, hnot hline']
  · simp [h.trim_eq hline]

/-- The identifiers among trimmed words do not change. -/
theorem filter_isIdentifier_eq {ws ws' : List (List Char)} (h : List.Forall₂ Widened ws ws') :
    (ws'.map trim).filter isIdentifier = (ws.map trim).filter isIdentifier := by
  induction h with
  | nil => rfl
  | @cons w w' ws ws' hw _ ih =>
    obtain ⟨hsame, heq⟩ := trim_eq_of_isIdentifier hw
    rw [List.map_cons, List.map_cons, List.filter_cons, List.filter_cons, hsame, ih]
    split
    · next hid => rw [heq hid]
    · rfl

theorem optionsAlike_addOption {xs ys : List (String × String)} (h : OptionsAlike xs ys)
    (hw : Widened s t) : OptionsAlike (Draft.addOption xs s) (Draft.addOption ys t) := by
  have hkey : Widened (s.takeWhile (· ≠ '=')) (t.takeWhile (· ≠ '=')) := hw.takeWhile (by decide)
  have hrest : Widened (s.dropWhile (· ≠ '=')) (t.dropWhile (· ≠ '=')) := hw.dropWhile (by decide)
  obtain ⟨hsame, heq⟩ := trim_eq_of_isIdentifier hkey
  have hequals : t.contains '=' = s.contains '=' := by
    rw [Bool.eq_iff_iff, List.contains_iff_mem, List.contains_iff_mem]
    exact hw.mem_iff (by decide)
  unfold Draft.addOption
  simp only [hequals, hsame]
  split
  · next hopt =>
    rw [Bool.and_eq_true] at hopt
    obtain ⟨value, hvalue⟩ := exists_dropWhile_eq_cons (List.contains_iff_mem.1 hopt.1)
    obtain ⟨value', hvalue'⟩ := exists_dropWhile_eq_cons
      (List.contains_iff_mem.1 (hequals.trans hopt.1))
    rw [hvalue, hvalue'] at hrest ⊢
    rw [heq hopt.2]
    refine h.setOption fun hline => ?_
    rw [String.toList_ofList] at hline
    exact congrArg String.ofList ((hrest.of_cons (by decide)).trim_eq hline)
  · exact h

theorem Draft.Agrees.addOptions (h : d.Agrees d') (hw : Widened s t) :
    (d.addOptions s).Agrees (d'.addOptions t) := by
  obtain ⟨options, rfl, halike⟩ := h
  refine ⟨(splitOn (· = ';') t).foldl addOption options, rfl, ?_⟩
  have hentries : List.Forall₂ Widened (splitOn (· = ';') s) (splitOn (· = ';') t) :=
    hw.splitOn (by decide)
  exact List.rel_foldl (R := Widened) (P := OptionsAlike)
    (fun _ _ hxs _ _ hentry => optionsAlike_addOption hxs hentry) halike hentries

/-! ## Names -/

theorem afterLastEquals_of_notMem (hs : '=' ∉ s) : Draft.afterLastEquals s = s := by
  have hall : s.reverse.takeWhile (· ≠ '=') = s.reverse :=
    List.takeWhile_eq_self_iff.2 fun e he => by
      simpa using fun heq : e = '=' => hs (heq ▸ List.mem_reverse.1 he)
  rw [Draft.afterLastEquals, hall, List.reverse_reverse]

theorem afterLastEquals_cons_of_mem {c : Char} (hc : '=' ∈ c :: s) :
    Draft.afterLastEquals (c :: s) = Draft.afterLastEquals s := by
  by_cases hs : '=' ∈ s
  · have hstop : ¬(s.reverse.takeWhile (· ≠ '=')).length = s.reverse.length := fun hlength => by
      have hall := List.takeWhile_eq_self_iff.1
        ((List.takeWhile_prefix (p := (· ≠ '=')) (l := s.reverse)).eq_of_length hlength)
      simpa using hall '=' (List.mem_reverse.2 hs)
    rw [Draft.afterLastEquals, List.reverse_cons, List.takeWhile_append, if_neg hstop,
      Draft.afterLastEquals]
  · obtain rfl := (List.mem_cons.1 hc).resolve_right hs
    rw [afterLastEquals_of_notMem hs, Draft.afterLastEquals, List.reverse_cons,
      List.takeWhile_append_of_pos, List.takeWhile_cons_of_neg (by simp), List.append_nil,
      List.reverse_reverse]
    exact fun e he => by simpa using fun heq : e = '=' => hs (heq ▸ List.mem_reverse.1 he)

theorem widened_afterLastEquals (h : Widened s t) :
    Widened (Draft.afterLastEquals s) (Draft.afterLastEquals t) := by
  by_cases hmem : '=' ∈ s
  · induction h with
    | nil => simp at hmem
    | @cons s t c h ih =>
      have hmem' : '=' ∈ c :: t := ((h.cons c).mem_iff (by decide)).2 hmem
      rw [afterLastEquals_cons_of_mem hmem, afterLastEquals_cons_of_mem hmem']
      by_cases hs : '=' ∈ s
      · exact ih hs
      · rwa [afterLastEquals_of_notMem hs,
          afterLastEquals_of_notMem fun ht => hs ((h.mem_iff (by decide)).1 ht)]
    | @filler s t d hd hend h ih =>
      rw [afterLastEquals_cons_of_mem (((h.filler hd hend).mem_iff (by decide)).2 hmem)]
      exact ih hmem
  · rwa [afterLastEquals_of_notMem hmem,
      afterLastEquals_of_notMem fun ht => hmem ((h.mem_iff (by decide)).1 ht)]

/-- The names of a block do not change. -/
theorem blockNames_eq (h : Widened s t) : Draft.blockNames t = Draft.blockNames s := by
  have hwords : List.Forall₂ Widened
      ((splitOn (fun c => c = ',' || c = ';') s).map (·.takeWhile (· ≠ '=')))
      ((splitOn (fun c => c = ',' || c = ';') t).map (·.takeWhile (· ≠ '='))) :=
    List.rel_map (fun _ _ hw => hw.takeWhile (by decide)) (h.splitOn (by decide))
  have hnames := filter_isIdentifier_eq hwords
  rw [List.map_map, List.map_map] at hnames
  exact congrArg (List.map String.ofList) hnames

theorem keepsOptions_addBlock {block : Draft.Block} (hblock : block ≠ .options)
    (content : List Char) : KeepsOptions (Draft.addBlock block content) := by
  cases block with
  | options => exact absurd rfl hblock
  | tokens => exact ⟨fun _ => rfl, fun _ _ => rfl⟩
  | channels => exact ⟨fun _ => rfl, fun _ _ => rfl⟩

theorem Draft.Agrees.addBlock (block : Draft.Block) (h : d.Agrees d') (hw : Widened s t) :
    (d.addBlock block s).Agrees (d'.addBlock block t) := by
  by_cases hblock : block = .options
  · subst hblock
    exact h.addOptions hw
  · have hsame : d'.addBlock block t = d'.addBlock block s := by
      cases block with
      | options => exact absurd rfl hblock
      | tokens => rw [Draft.addBlock, Draft.addBlock, blockNames_eq hw]
      | channels => rw [Draft.addBlock, Draft.addBlock, blockNames_eq hw]
    exact hsame ▸ h.map (keepsOptions_addBlock hblock s)

/-- The names that an import adds whose list begins here. -/
def importNames (c : Cursor) : List String :=
  (((splitOn (· = ',') (c.restOfLine.takeWhile (· ≠ ';'))).map fun item =>
    trim (Draft.afterLastEquals item)).filter isIdentifier).map String.ofList

def Draft.addImports (names : List String) (d : Draft) : Draft :=
  { d with grammar := { d.grammar with imports := names.foldl insertOnce d.grammar.imports } }

theorem importDeclaration_eq (d : Draft) (c : Cursor) : d.importDeclaration c =
    (d.addImports (importNames (c.advance 6)), (c.advance 6).passStatement) := rfl

theorem keepsOptions_addImports (names : List String) : KeepsOptions (Draft.addImports names) :=
  ⟨fun _ => rfl, fun _ _ => rfl⟩

theorem importNames_eq (h : Aligned c c') : importNames c' = importNames c := by
  have hitems : List.Forall₂ Widened
      ((splitOn (· = ',') (c.restOfLine.takeWhile (· ≠ ';'))).map Draft.afterLastEquals)
      ((splitOn (· = ',') (c'.restOfLine.takeWhile (· ≠ ';'))).map Draft.afterLastEquals) :=
    List.rel_map (fun _ _ hw => widened_afterLastEquals hw)
      ((h.restOfLine.takeWhile (by decide)).splitOn (by decide))
  have hnames := filter_isIdentifier_eq hitems
  rw [List.map_map, List.map_map] at hnames
  exact congrArg (List.map String.ofList) hnames

/-! ## Readers -/

/-- The drafts agree and the places behind are aligned. -/
structure ReadsAlike (r r' : Draft × Cursor) : Prop where
  draft : r.1.Agrees r'.1
  cursor : Aligned r.2 r'.2

theorem trim_subset (s : List Char) : trim s ⊆ s := fun _ hc =>
  (List.dropWhile_suffix _).subset ((isPrefix_trimEnd _).subset hc)

theorem readsAlike_unrecognized (hd : d.Agrees d') (h : Aligned c c') (hc : c.restOfLine ≠ []) :
    ReadsAlike (d.unrecognized c) (d'.unrecognized c') := by
  have hc' : c'.restOfLine ≠ [] := fun hnil => hc (hnil ▸ h.restOfLine).eq_nil_of_right
  have hline : '\n' ∉ c.restOfLine := fun hmem => by simpa using List.mem_takeWhile_imp hmem
  have htrim := h.restOfLine.trim_eq (mt (trim_subset _ ·) hline)
  unfold Draft.unrecognized
  rw [h.line, htrim, Nat.max_eq_left (List.length_pos_iff.2 hc),
    Nat.max_eq_left (List.length_pos_iff.2 hc')]
  exact ⟨hd.map (keepsOptions_report _), h.passLine⟩

theorem readsAlike_unterminated (hd : d.Agrees d') (h : Aligned c c') :
    ReadsAlike (d.unterminated c) (d'.unterminated c') := by
  unfold Draft.unterminated
  rw [h.line]
  exact ⟨hd.map (keepsOptions_report _), h.finish⟩

theorem aligned_grammarKindAt (h : Aligned c c') :
    (Draft.grammarKindAt c').1 = (Draft.grammarKindAt c).1 ∧
      Aligned (Draft.grammarKindAt c).2 (Draft.grammarKindAt c').2 := by
  unfold Draft.grammarKindAt
  rw [h.hasKeyword_eq, h.hasKeyword_eq]
  split
  · next hk => exact ⟨rfl, (h.passKeyword hk).passBlank⟩
  split
  · next hk => exact ⟨rfl, (h.passKeyword hk).passBlank⟩
  · exact ⟨rfl, h⟩

theorem readsAlike_grammarDeclaration (hd : d.Agrees d') (h : Aligned c c')
    (hc : c.restOfLine ≠ []) :
    ReadsAlike (d.grammarDeclaration c) (d'.grammarDeclaration c') := by
  obtain ⟨hkind, hbehind⟩ := aligned_grammarKindAt h
  unfold Draft.grammarDeclaration
  simp only [hbehind.hasKeyword_eq, hkind]
  split
  · next hk =>
    have hname := (hbehind.passKeyword hk).passBlank
    exact ⟨hname.word_eq ▸ h.line ▸ hd.map (keepsOptions_declare _ _ _), hname.passStatement⟩
  · exact readsAlike_unrecognized hd h hc

theorem readsAlike_importDeclaration (hd : d.Agrees d') (h : Aligned c c')
    (hk : c.hasKeyword "import" = true) :
    ReadsAlike (d.importDeclaration c) (d'.importDeclaration c') := by
  have hlist := h.passKeyword hk
  have hnames : importNames (c'.advance 6) = importNames (c.advance 6) := importNames_eq hlist
  rw [importDeclaration_eq, importDeclaration_eq, hnames]
  exact ⟨hd.map (keepsOptions_addImports _), hlist.passStatement⟩

section

variable (hd : d.Agrees d') (h : Aligned c c') (hs : Unbroken c.rest)

include hd h hs

theorem readsAlike_blockDeclaration (block : Draft.Block)
    (hk : c.hasKeyword block.keyword = true) (hc : c.restOfLine ≠ []) :
    ReadsAlike (d.blockDeclaration block c) (d'.blockDeclaration block c') := by
  have hopen : Aligned (c.advance block.keyword.length).passBlank
      (c'.advance block.keyword.length).passBlank := by
    rw [← String.length_toList]
    exact (h.passKeyword hk).passBlank
  have honward : Onward c (c.advance block.keyword.length).passBlank :=
    (Onward.advance _ c).trans (.pass _ _)
  unfold Draft.blockDeclaration
  simp only [hopen.startsWith_eq (d := '\x7b') (by decide) (by decide), h.line]
  split
  · next hbrace =>
    have hblock := hopen.block? delimiters_braces (hs.onward honward) hbrace
    obtain ⟨hr, hr'⟩ | ⟨r, r', hr, hr', hinside, hbehind⟩ := rel_cases hblock
    · simp only [hr, hr']
      exact ⟨hd.map (keepsOptions_report _), h.finish⟩
    · simp only [hr, hr']
      exact ⟨hd.addBlock block hinside, hbehind⟩
  · exact readsAlike_unrecognized hd h hc

theorem readsAlike_namedAction (hc : c.startsWith '@' = true) (hline : c.restOfLine ≠ []) :
    ReadsAlike (d.namedAction c) (d'.namedAction c') := by
  have hc' : c'.startsWith '@' = true := by rw [h.startsWith_eq (by decide) (by decide), hc]
  have hopen := ((h.advance_startsWith (by decide) hc hc').pass
    (p := fun d => isWordChar d || d = ':') (by decide)).passBlank
  have honward : Onward c ((c.advance 1).pass fun d => isWordChar d || d = ':').passBlank :=
    ((Onward.advance 1 c).trans (.pass _ _)).trans (.pass _ _)
  unfold Draft.namedAction
  simp only [hopen.startsWith_eq (d := '\x7b') (by decide) (by decide)]
  split
  · next hbrace =>
    have hblock := hopen.block? delimiters_braces (hs.onward honward) hbrace
    obtain ⟨hr, hr'⟩ | ⟨r, r', hr, hr', -, hbehind⟩ := rel_cases hblock
    · simp only [hr, hr']
      exact readsAlike_unterminated hd h
    · simp only [hr, hr']
      exact ⟨hd, hbehind⟩
  · exact readsAlike_unrecognized hd h hline

omit hd in
theorem aligned_passBlock? {opening closing : Char} (hb : Delimiters opening closing) :
    Option.Rel Aligned (Draft.passBlock? opening closing c)
      (Draft.passBlock? opening closing c') := by
  have hopen := h.passBlank
  unfold Draft.passBlock?
  simp only [hopen.startsWith_eq hb.opening_filler hb.opening_line]
  split
  · next hbrace =>
    have hblock := hopen.block? hb (hs.onward (.pass _ _)) hbrace
    obtain ⟨hr, hr'⟩ | ⟨r, r', hr, hr', -, hbehind⟩ := rel_cases hblock
    · rw [hr, hr']
      exact .none
    · rw [hr, hr']
      exact .some hbehind
  · exact .some h

theorem readsAlike_handler : ReadsAlike (d.handler c) (d'.handler c') := by
  have hfirst := aligned_passBlock? h.passWord (hs.onward (.pass _ _)) delimiters_brackets
  unfold Draft.handler
  obtain ⟨hr, hr'⟩ | ⟨c₁, c₁', hr, hr', hbehind⟩ := rel_cases hfirst
  · simp only [hr, hr', Option.bind_none]
    exact readsAlike_unterminated hd h
  have hsecond := aligned_passBlock? hbehind
    (hs.onward ((Onward.pass _ c).trans (.passBlock? hr))) delimiters_braces
  obtain ⟨ht, ht'⟩ | ⟨c₂, c₂', ht, ht', hend⟩ := rel_cases hsecond
  · simp only [hr, hr', ht, ht', Option.bind_some]
    exact readsAlike_unterminated hd h
  · simp only [hr, hr', ht, ht', Option.bind_some]
    exact ⟨hd, hend⟩

omit hs in
theorem readsAlike_modeDeclaration (hk : c.hasKeyword "mode" = true) (hc : c.restOfLine ≠ []) :
    ReadsAlike (d.modeDeclaration c) (d'.modeDeclaration c') := by
  have hname := (h.passKeyword hk).passBlank
  have hword : (c'.advance 4).passBlank.word = (c.advance 4).passBlank.word := hname.word_eq
  unfold Draft.modeDeclaration
  simp only [hword]
  split
  · exact readsAlike_unrecognized hd h hc
  · rw [h.line]
    exact ⟨hd.map (keepsOptions_enterMode _ _), hname.passStatement⟩

/-- What stands at aligned places is the same declaration, or none. -/
theorem readsAlike_declaration? (hc : c.restOfLine ≠ []) :
    Option.Rel ReadsAlike (Machine.declaration? d c) (Machine.declaration? d' c') := by
  unfold Machine.declaration?
  simp only [h.hasKeyword_eq, h.startsWith_eq (d := '@') (by decide) (by decide)]
  split
  · exact .some (readsAlike_grammarDeclaration hd h hc)
  split
  · next hk => exact .some (readsAlike_importDeclaration hd h hk)
  split
  · next hk => exact .some (readsAlike_blockDeclaration hd h hs .options hk hc)
  split
  · next hk => exact .some (readsAlike_blockDeclaration hd h hs .tokens hk hc)
  split
  · next hk => exact .some (readsAlike_blockDeclaration hd h hs .channels hk hc)
  split
  · next hk => exact .some (readsAlike_modeDeclaration hd h hk hc)
  split
  · exact .some (readsAlike_handler hd h hs)
  split
  · next hat => exact .some (readsAlike_namedAction hd h hs hat hc)
  · exact .none

end

/-! ## Headers -/

theorem modifier?_eq (h : Aligned c c') : modifier? c' = modifier? c := by
  simp only [modifier?, h.hasKeyword_eq]

theorem aligned_passModifiers (isFragment : Bool) (h : Aligned c c') :
    (passModifiers isFragment c').1 = (passModifiers isFragment c).1 ∧
      Aligned (passModifiers isFragment c).2 (passModifiers isFragment c').2 := by
  fun_induction passModifiers isFragment c generalizing c' with
  | case1 isFragment c hmod =>
    rw [passModifiers_of_none ((modifier?_eq h).trans hmod)]
    exact ⟨rfl, h⟩
  | case2 isFragment c f n hmod ih =>
    rw [passModifiers_of_some ((modifier?_eq h).trans hmod)]
    obtain ⟨keyword, hk, rfl, -⟩ := exists_keyword_of_modifier? hmod
    exact ih (h.passKeyword hk).passBlank

theorem aligned_header? (h : Aligned c c') :
    Option.Rel (fun r r' => r'.1 = r.1 ∧ Aligned r.2 r'.2) (header? c) (header? c') := by
  obtain ⟨hfragment, hname⟩ := aligned_passModifiers false h
  unfold header?
  simp only [hname.word_eq, hfragment, hname.line]
  split
  · exact .some ⟨rfl, hname.passWord⟩
  · exact .none

/-! ## Bodies -/

theorem opensRule_eq (h : Aligned c c') : opensRule c' = opensRule c := by
  unfold opensRule
  simp only [h.hasKeyword_eq, h.word_eq]
  split
  · rfl
  split
  · next hk =>
    have hname : Aligned (c.advance 4).passInlineBlank (c'.advance 4).passInlineBlank :=
      (h.passKeyword hk).passInlineBlank
    rw [hname.word_eq, hname.passWord.passInlineBlank.startsWith_eq (by decide) (by decide)]
  split
  · have hcolon := h.passWord.passInlineBlank
    have hstarts := hcolon.startsWith_eq (d := ':') (by decide) (by decide)
    rw [hstarts]
    cases hc : c.passWord.passInlineBlank.startsWith ':' with
    | false => rfl
    | true =>
      have hbehind := hcolon.advance_startsWith (by decide) hc (hstarts.trans hc)
      rw [hbehind.startsWith_eq (by decide) (by decide)]
  · rfl

/-- Both bodies end for the same reason, behind texts of which one widens the other. -/
structure ReachAlike (s t : List Char) (r r' : BodyReach) : Prop where
  reason : r'.reason = r.reason
  exists_split : ∃ u v u' v', s = u ++ v ∧ t = u' ++ v' ∧ r.length = u.length ∧
    r'.length = u'.length ∧ Widened u u' ∧ Widened v v'

namespace ReachAlike

variable {r r' : BodyReach} {e : Char}

theorem here (h : Widened s t) (reason : BodyEnd) : ReachAlike s t ⟨reason, 0⟩ ⟨reason, 0⟩ :=
  ⟨rfl, [], s, [], t, rfl, rfl, rfl, rfl, .nil, h⟩

theorem cons (e : Char) (h : ReachAlike s t r r') :
    ReachAlike (e :: s) (e :: t) r.beyond r'.beyond := by
  obtain ⟨hreason, u, v, u', v', rfl, rfl, hu, hu', hw, hv⟩ := h
  exact ⟨hreason, e :: u, v, e :: u', v', rfl, rfl, congrArg (· + 1) hu, congrArg (· + 1) hu',
    hw.cons e, hv⟩

theorem filler (he : isFiller e = true) (hs : AtLineEnd s) (h : ReachAlike s t r r') :
    ReachAlike s (e :: t) r r'.beyond := by
  obtain ⟨hreason, u, v, u', v', rfl, rfl, hu, hu', hw, hv⟩ := h
  exact ⟨hreason, u, v, e :: u', v', rfl, rfl, hu, congrArg (· + 1) hu',
    hw.filler he (hs.of_isPrefix (List.prefix_append _ _)), hv⟩

end ReachAlike

/-- A blank opens and closes no brace. -/
theorem snd_next_filler {e : Char} (he : isFiller e = true) (braces : Nat) (state : BodyState) :
    (state.next braces e).2 = braces := by
  obtain rfl | rfl := isFiller_iff.1 he <;> cases state <;> rfl

/-- What a body is in the middle of may differ in front of a line end only, which ends it. -/
theorem reachAlike {left braces : Nat} {state state' : BodyState} (hw : Widened s t)
    (hstate : state' = state ∨ AtLineEnd s) :
    ReachAlike s t (bodyReach left braces state s) (bodyReach left braces state' t) := by
  induction hw generalizing left braces state state' with
  | nil =>
    rw [bodyReach, bodyReach]
    exact .here .nil _
  | @cons s t e hw ih =>
    rw [bodyReach, bodyReach]
    by_cases hline : e = '\n'
    · have hopens : opensRule ⟨0, t⟩ = opensRule ⟨0, s⟩ := opensRule_eq ⟨rfl, hw⟩
      rw [if_pos hline, if_pos hline, hopens]
      split
      · exact (ReachAlike.here hw _).cons e
      split
      · exact (ReachAlike.here hw _).cons e
      · exact (ih (.inl rfl)).cons e
    · obtain rfl := hstate.resolve_right fun h => hline (atLineEnd_cons.1 h)
      rw [if_neg hline, if_neg hline]
      split
      · exact .here (hw.cons e) _
      · exact (ih (.inl rfl)).cons e
  | @filler s t e he hend hw ih =>
    have hbraces := snd_next_filler he braces state'
    have hsemi : ¬(e = ';' && braces = 0 && state' = .code) = true := by
      obtain rfl | rfl := isFiller_iff.1 he <;> simp
    rw [bodyReach.eq_2 _ _ state', if_neg (ne_lineFeed_of_isFiller he), if_neg hsemi]
    simp only [hbraces]
    exact (ih (.inr hend)).filler he hend

theorem definitionOf_eq (h : Widened s t) : definitionOf t = definitionOf s :=
  congrArg trim h.trimLines_eq

theorem ruleOf_eq (header : Header) (terminated : Bool) (d : Draft) (h : Aligned c c')
    (hraw : Widened s t) : d.ruleOf header c' t terminated = d.ruleOf header c s terminated := by
  have hblank : (trimStart t).isEmpty = (trimStart s).isEmpty := by
    rw [Bool.eq_iff_iff, List.isEmpty_iff, List.isEmpty_iff]
    exact hraw.trimStart_eq_nil_iff
  have hbody : bodyLine c' t = bodyLine c s := by
    rw [bodyLine, hblank, h.line, (hraw.takeWhile (p := isWhiteSpace) (by decide)).lineFeeds_eq,
      bodyLine]
  have hend : endLine c' t terminated = endLine c s terminated := by
    rw [endLine, hblank, h.line, hraw.lineFeeds_eq, hbody, hraw.trimEnd.lineFeeds_eq, endLine]
  rw [Draft.ruleOf, definitionOf_eq hraw, hbody, hend, Draft.ruleOf]

theorem finishRule_eq (header : Header) (terminated : Bool) (d : Draft) (h : Aligned c c')
    (hraw : Widened s t) :
    d.finishRule header c' t terminated = d.finishRule header c s terminated := by
  unfold Draft.finishRule
  simp only [ruleOf_eq header terminated _ h hraw]

/-- A step over a body, as far as its `;` is taken. -/
theorem stepBody_eq {header : Header} {r : BodyReach}
    (hr : bodyReach (limits.maxRuleLines - (c.line - header.line)) 0 .code c.rest = r) :
    Machine.stepBody limits header d c =
      ⟨.outside, d.finishRule header c (c.rest.take r.length) (r.reason = .terminator),
        c.advance r.taken⟩ := by
  have hmax : c.advance (max r.taken 1) = c.advance r.taken := by
    by_cases hrest : c.rest = []
    · have hstay : ∀ n, c.advance n = ⟨c.line, []⟩ := fun n => by
        simp [Cursor.advance, hrest, lineFeeds]
      rw [hstay, hstay]
    · rw [Nat.max_eq_left (hr ▸ BodyReach.taken_pos hrest)]
  rw [← hmax, Machine.stepBody]
  simp only [hr]
  rfl

/-! ## Machines -/

namespace Machine

variable {h : Header} {m m' : Machine} {first : Char}

/-- The machines are in the same state, at aligned places, with drafts that agree. -/
structure Agrees (m m' : Machine) : Prop where
  state : m'.state = m.state
  draft : m.draft.Agrees m'.draft
  cursor : Aligned m.cursor m'.cursor

/-- Behind a body the places are aligned, its `;` being passed in both texts or in none. -/
theorem aligned_advance_taken {left : Nat} (hc : Aligned c c') {r r' : BodyReach}
    (hr : bodyReach left 0 .code c.rest = r) (hr' : bodyReach left 0 .code c'.rest = r')
    (halike : ReachAlike c.rest c'.rest r r') :
    Aligned (c.advance r.taken) (c'.advance r'.taken) := by
  obtain ⟨hreason, u, v, u', v', hs, ht, hlen, hlen', hu, hv⟩ := halike
  have hend : Aligned (c.advance r.length) (c'.advance r'.length) := by
    rw [hlen, hlen']
    exact hc.advance hs ht hu.lineFeeds_eq hv
  have hsemi : ∀ {c : Cursor} {r : BodyReach}, bodyReach left 0 .code c.rest = r →
      r.reason = .terminator → (c.advance r.length).startsWith ';' = true := by
    intro c r hr hreason
    rw [Cursor.startsWith, Cursor.rest_advance, List.head?_drop, ← hr,
      getElem?_bodyReach (hr ▸ hreason)]
    rfl
  unfold BodyReach.taken
  rw [hreason]
  split
  · next hterm =>
    rw [advance_add, advance_add]
    exact hend.advance_startsWith (by decide) (hsemi hr hterm) (hsemi hr' (hreason.trans hterm))
  · exact hend

theorem agrees_stepBody (hd : d.Agrees d') (hc : Aligned c c') :
    (stepBody limits h d c).Agrees (stepBody limits h d' c') := by
  have hline : limits.maxRuleLines - (c'.line - h.line) =
      limits.maxRuleLines - (c.line - h.line) := by rw [hc.line]
  generalize hr : bodyReach (limits.maxRuleLines - (c.line - h.line)) 0 .code c.rest = r
  generalize hr' : bodyReach (limits.maxRuleLines - (c.line - h.line)) 0 .code c'.rest = r'
  have halike : ReachAlike c.rest c'.rest r r' := hr ▸ hr' ▸ reachAlike hc.rest (.inl rfl)
  have hcursor := aligned_advance_taken hc hr hr' halike
  obtain ⟨hreason, u, v, u', v', hs, ht, hlen, hlen', hu, hv⟩ := halike
  rw [stepBody_eq hr, stepBody_eq (hline ▸ hr'), hreason]
  refine ⟨rfl, ?_, hcursor⟩
  rw [hlen, hlen', hs, ht, List.take_left, List.take_left, finishRule_eq h _ d' hc hu]
  exact hd.map (keepsOptions_finishRule _ _ _ _)

theorem agrees_missingColon (hd : d.Agrees d') : (d.missingColon h).Agrees (d'.missingColon h) :=
  hd.map (keepsOptions_report _)

theorem agrees_headerBlock {opening closing : Char} (hb : Delimiters opening closing)
    (hd : d.Agrees d') (hc : Aligned c c') (hs : Unbroken c.rest)
    (hopen : c.startsWith opening = true) :
    (headerBlock h opening closing d c).Agrees (headerBlock h opening closing d' c') := by
  unfold headerBlock
  obtain ⟨hr, hr'⟩ | ⟨r, r', hr, hr', -, hbehind⟩ := rel_cases (hc.block? hb hs hopen)
  · simp only [hr, hr']
    have hreads := readsAlike_unterminated (agrees_missingColon (h := h) hd) hc
    exact ⟨rfl, hreads.draft, hreads.cursor⟩
  · simp only [hr, hr']
    exact ⟨rfl, hd, hbehind⟩

section

variable (hd : d.Agrees d') (hc : Aligned c c')

include hd hc

theorem agrees_abandonHeader (hone : Aligned (c.advance 1) (c'.advance 1)) :
    (abandonHeader h first d c).Agrees (abandonHeader h first d' c') := by
  have hcolon := agrees_missingColon (h := h) hd
  unfold abandonHeader
  simp only [hc.line]
  split
  · exact ⟨rfl, hcolon, hc.passLine⟩
  split
  · exact ⟨rfl, hcolon, hone⟩
  · exact ⟨rfl, hcolon, hc⟩

theorem agrees_headerWord (hone : Aligned (c.advance 1) (c'.advance 1)) :
    (headerWord h first d c).Agrees (headerWord h first d' c') := by
  unfold headerWord
  simp only [hc.hasKeyword_eq, hc.word_eq]
  split
  · exact ⟨rfl, hd, hc.passWord⟩
  split
  · exact ⟨rfl, hd, hc.passWord⟩
  split
  · exact ⟨rfl, hd, hc.passWord⟩
  · exact agrees_abandonHeader hd hc hone

variable (hs : Unbroken c.rest) (hrest : c.rest = first :: s) (hrest' : c'.rest = first :: t)
  (hw : Widened s t)

include hrest hrest' hw hs

theorem agrees_stepHeader :
    (stepHeader limits h first d c).Agrees (stepHeader limits h first d' c') := by
  have hone := hc.advance_one hrest hrest' hw
  have hopen : ∀ e, first = e → c.startsWith e = true := fun e he => by
    rw [Cursor.startsWith, hrest, he]
    exact beq_self_eq_true _
  unfold stepHeader
  rw [hone.line]
  split
  · split
    · exact ⟨rfl, agrees_missingColon hd, hone⟩
    · exact ⟨rfl, hd, hone⟩
  split
  · exact ⟨rfl, hd, hone⟩
  split
  · next hbracket => exact agrees_headerBlock delimiters_brackets hd hc hs (hopen _ hbracket)
  split
  · next hbrace => exact agrees_headerBlock delimiters_braces hd hc hs (hopen _ hbrace)
  split
  · exact ⟨rfl, hd, hone.passWord⟩
  split
  · exact ⟨rfl, hd, hone⟩
  · exact agrees_headerWord hd hc hone

theorem agrees_stepOutside :
    (stepOutside first d c).Agrees (stepOutside first d' c') := by
  unfold stepOutside
  split
  · exact ⟨rfl, hd, hc.advance_one hrest hrest' hw⟩
  next hblank =>
  have hline : c.restOfLine ≠ [] := by
    have hfirst : first ≠ '\n' := ne_lineFeed_of_not_isWhiteSpace (by simpa using hblank)
    simp [Cursor.restOfLine, hrest, hfirst]
  obtain ⟨hr, hr'⟩ | ⟨r, r', hr, hr', hreads⟩ :=
    rel_cases (readsAlike_declaration? hd hc hs hline)
  · simp only [hr, hr']
    obtain ⟨ho, ho'⟩ | ⟨o, o', ho, ho', hname, hbehind⟩ := rel_cases (aligned_header? hc)
    · simp only [ho, ho']
      have hreads := readsAlike_unrecognized hd hc hline
      exact ⟨rfl, hreads.draft, hreads.cursor⟩
    · simp only [ho, ho', hname]
      exact ⟨rfl, hd, hbehind⟩
  · simp only [hr, hr']
    exact ⟨rfl, hreads.draft, hreads.cursor⟩

end

/-- In front of the same character machines that agree take the same step. -/
theorem Agrees.step (hm : m.Agrees m') (hs : Unbroken m.cursor.rest)
    (hrest : m.cursor.rest = first :: s) (hrest' : m'.cursor.rest = first :: t)
    (hw : Widened s t) : (step limits first m).Agrees (step limits first m') := by
  unfold Machine.step
  rw [hm.state]
  split
  · exact agrees_stepOutside hm.draft hm.cursor hs hrest hrest' hw
  · exact agrees_stepHeader hm.draft hm.cursor hs hrest hrest' hw
  · exact agrees_stepBody hm.draft hm.cursor

end Machine

end GrammarLab.Source
