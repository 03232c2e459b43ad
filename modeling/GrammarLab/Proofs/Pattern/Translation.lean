import GrammarLab.Proofs.Body.Rendering
import GrammarLab.Proofs.Pattern.Sets
import GrammarLab.Proofs.Regex.Longest

/-!
# Texts of structures

The text that the pieces of a body spell is put together from the texts of its parts, and each of
these is read back as an item, a sequence or an alternation that matches what the part means.

    Translates G (wordsIn (elementsScript es))
      (Spells Follows (IsSequence (Means g (.elements es))))              (translates_elements)
-/

namespace GrammarLab.Pattern

open Body Regex

/-- In front of a text that satisfies `F`, the text may stand behind a quantifier, and its symbols
are set apart and satisfy `R`. -/
structure Spells (F : List Char → Prop) (R : List Symbol → Prop) (t : List Char) : Prop where
  follows : ∀ rest, F rest → Follows (t ++ rest)
  reads : Reads F t R

/-- The text of the pieces, where `G name t` holds of the texts of rules. -/
inductive Spelled (G : String → List Char → Prop) : List Piece → List Char → Prop
  | nil : Spelled G [] []
  | text {s ps u} : Spelled G ps u → Spelled G (.text s :: ps) (s ++ u)
  | lazyText {s ps u} : Spelled G ps u → Spelled G (.lazyText s :: ps) (s ++ u)
  | reference {name t ps u} : G name t → Spelled G ps u →
      Spelled G (.reference name :: ps) (grouped t ++ u)

/-! ## Groups and quantifiers -/

variable {P Q : List Char → Prop} {t u : List Char}

theorem Spells.mono {F : List Char → Prop} {R S : List Symbol → Prop} (h : Spells F R t)
    (hR : ∀ ys, R ys → S ys) : Spells F S t :=
  ⟨h.follows, h.reads.mono (fun _ h => h) hR⟩

theorem spells_grouped (h : Spells Follows (IsBranches P) t) :
    Spells Outside (IsItem P) (grouped t) := by
  have hclose : ∀ rest, Outside rest → Follows ([')'] ++ rest) :=
    fun rest hr => follows_cons (by decide) hr
  constructor
  · intro rest hr
    have hinner := (h.follows _ (hclose rest hr)).outside
    rw [grouped, List.append_assoc, List.append_assoc]
    exact follows_cons (by decide) (outside_append (t := ['?', ':']) (by simp) hinner)
  · have hopen := reads_groupOpen.append h.reads fun _ _ => trivial
    have hall := hopen.append (reads_groupClose.mono (fun _ (_ : Outside _) => trivial)
      fun _ h => h) hclose
    refine hall.mono (fun _ h => h) ?_
    rintro _ ⟨_, _, rfl, ⟨_, zs, rfl, rfl, hz⟩, rfl⟩
    exact isItem_group hz

theorem spells_behind {l : Bool} {q : Quantifier} (h : Spells Outside (IsItem P) t)
    (hu : Reads Follows u (· = [.quantifier q l]))
    (hbehind : ∀ rest, Follows rest → Outside (u ++ rest)) :
    Spells Follows (IsItem (Quantified P q)) (t ++ u) := by
  constructor
  · intro rest hr
    rw [List.append_assoc]
    exact h.follows _ (hbehind rest hr)
  · refine (h.reads.append hu hbehind).mono (fun _ h => h) ?_
    rintro _ ⟨ys, _, rfl, hy, rfl⟩
    exact isItem_quantified hy

theorem outside_quantifier {c : Char} {q : Quantifier} {rest : List Char}
    (hq : quantifier? c = some q) (hr : Outside rest) : Outside (c :: rest) := by
  refine .plain ?_ hr
  intro hc
  simp only [List.mem_cons, List.not_mem_nil, or_false] at hc
  rcases hc with rfl | rfl | rfl | rfl | rfl | rfl <;> simp [quantifier?] at hq

theorem spells_quantified {c : Char} {q : Quantifier} (hq : quantifier? c = some q)
    (h : Spells Outside (IsItem P) t) : Spells Follows (IsItem (Quantified P q)) (t ++ [c]) :=
  spells_behind h (reads_quantifier hq) fun _ hr => outside_quantifier hq hr.outside

theorem spells_lazyQuantified {c : Char} {q : Quantifier} (hq : quantifier? c = some q)
    (h : Spells Outside (IsItem P) t) :
    Spells Follows (IsItem (Quantified P q)) (t ++ [c, '?']) := by
  have hreads : Reads Follows [c, '?'] (· = [.quantifier q true]) :=
    (reads_lazyQuantifier hq).mono (fun _ _ => trivial) fun _ h => h
  exact spells_behind h hreads fun _ hr =>
    outside_quantifier hq (.plain (by decide) hr.outside)

theorem spells_item {R : List Symbol → Prop} (h : Spells Outside R t) : Spells Follows R t :=
  ⟨fun rest hr => h.follows rest hr.outside, h.reads.mono (fun _ h => h.outside) fun _ h => h⟩

/-! ## Sequences and alternations -/

theorem spells_nil : Spells Follows (IsSequence (· = [])) [] :=
  ⟨fun _ h => h, .nil isSequence_nil⟩

theorem spells_cons (ht : Spells Follows (IsItem P) t) (hu : Spells Follows (IsSequence Q) u) :
    Spells Follows (IsSequence (Chained P Q)) (t ++ u) := by
  constructor
  · intro rest hr
    rw [List.append_assoc]
    exact ht.follows _ (hu.follows rest hr)
  · refine (ht.reads.append hu.reads hu.follows).mono (fun _ h => h) ?_
    rintro _ ⟨ys, zs, rfl, hy, hz⟩
    exact isSequence_cons hy hz

theorem spells_branch (h : Spells Follows (IsSequence P) t) : Spells Follows (IsBranches P) t :=
  h.mono fun _ => isBranches_singleton

theorem spells_branches (ht : Spells Follows (IsSequence P) t)
    (hu : Spells Follows (IsBranches Q) u) :
    Spells Follows (IsBranches fun s => P s ∨ Q s) (t ++ (['|'] ++ u)) := by
  have hbar : ∀ rest, Follows rest → Follows (['|'] ++ u ++ rest) := by
    intro rest hr
    rw [List.append_assoc]
    exact follows_cons (by decide) (hu.follows rest hr).outside
  constructor
  · intro rest hr
    rw [List.append_assoc]
    exact ht.follows _ (hbar rest hr)
  · have hrest := reads_bar.append hu.reads fun _ _ => trivial
    refine (ht.reads.append hrest hbar).mono (fun _ h => h) ?_
    rintro _ ⟨ys, _, rfl, hy, _, zs, rfl, rfl, hz⟩
    exact isBranches_cons hy hz

/-- The expression that a text with the meaning `P` is read as. -/
theorem matches_iff_of_spells {P : List Char → Prop} {t : List Char} {q : Parsed}
    (h : Spells Follows (IsBranches P) t) (hq : parse? t = some q) (s : List Char) :
    q.regex.Matches s ↔ P s := by
  cases hx : symbols? t with
  | none => simp [parse?, hx] at hq
  | some xs =>
    obtain ⟨ys, zs, rfl, hys, hzs⟩ := h.reads [] xs follows_nil (by rwa [List.append_nil])
    obtain rfl : zs = [] := by simpa [symbols?] using hzs.symm
    rw [List.append_nil] at hx
    exact denotes_of_parse? hx hys hq s

/-! ## Characters -/

theorem spells_literalText (s : List Char) :
    Spells Follows (IsBranches (· = s)) (literalText s) := by
  refine spells_branch ⟨?_, ?_⟩
  · intro rest hr
    refine ⟨outside_literalText s hr.outside, ?_⟩
    cases s with
    | nil => exact hr.unquestioned
    | cons c s =>
      rw [literalText, List.flatMap_cons, List.append_assoc]
      cases hc : isMeta c with
      | true => simp [charText_of_isMeta hc]
      | false =>
        have hne := ne_of_not_isMeta hc
        simp only [List.mem_cons, List.not_mem_nil, or_false, not_or] at hne
        simp [charText_of_not_isMeta hc, hne]
  · exact (reads_literalText s).mono (fun _ _ => trivial) fun _ h => h

theorem spells_literal (s : List Char) :
    Spells Outside (IsItem (· = s)) (grouped (literalText s)) :=
  spells_grouped (spells_literalText s)

theorem anyText_eq : anyText = ['(', '?', 's', ':'] ++ ['.'] ++ [')'] := by decide +kernel

theorem spells_any : Spells Outside (IsItem fun s => ∃ c, s = [c]) anyText := by
  rw [anyText_eq]
  constructor
  · intro rest hr
    exact follows_cons (by decide) (outside_append (t := ['?', 's', ':', '.', ')']) (by simp) hr)
  · have hopen : Reads (fun _ => True) ['(', '?', 's', ':'] (· = [.groupOpen]) :=
      .of_symbol? fun _ _ => rfl
    have hdot : Reads (fun _ => True) ['.'] (· = [.atom .all 0]) := .of_symbol? fun _ _ => rfl
    have hall := (hopen.append hdot fun _ _ => trivial).append reads_groupClose
      fun _ _ => trivial
    refine hall.mono (fun _ (_ : Outside _) => trivial) ?_
    rintro _ ⟨_, _, rfl, ⟨_, _, rfl, rfl, rfl⟩, rfl⟩
    have hset : IsItem (fun s => ∃ c, s = [c]) [.atom .all 0] :=
      isItem_set fun _ s => by simp
    exact isItem_group (isBranches_singleton (isSequence_singleton hset))

/-! ## Sets -/

theorem pieces_of_leadingPiece {t : Token} {ts rest : List Token} {p : Piece}
    (h : leadingPiece t ts = .ok (p, rest)) : pieces (t :: ts) = p :: pieces rest := by
  rw [pieces]
  split
  · rename_i e he
    rw [h] at he
    simp at he
  · rename_i p' rest' he
    rw [h] at he
    obtain ⟨rfl, rfl⟩ := Prod.mk.inj (Except.ok.inj he)
    rfl

theorem pieces_of_error {t : Token} {ts : List Token} {e : PatternError}
    (h : leadingPiece t ts = .error e) : pieces (t :: ts) = [.failure e] := by
  rw [pieces]
  split
  · rename_i e' he
    rw [h] at he
    obtain rfl := Except.error.inj he
    rfl
  · rename_i p rest he
    rw [h] at he
    simp at he

/-- The tokens of a content that stands alone. -/
theorem map_lexeme_significant_render {c : Content} (h : Lexed c.script) :
    (significant c.render).map Token.lexeme = wordsIn c.script := by
  rw [← textOf_script]
  refine (map_lexeme_significant_of_words ?_).trans h
  intro l hl
  rw [h] at hl
  rcases isWritten_script c l (List.mem_filter.1 hl).1 with rfl | ⟨-, hg⟩
  · exact nofun
  · exact hg

/-- Words that make one piece wherever they stand are the one piece of a body. -/
theorem pieces_of_words {body : List Char} {W : List Lexeme} {p : Piece} (hne : W ≠ [])
    (hW : (significant body).map Token.lexeme = W)
    (hp : ∀ t ts, (t :: ts).map Token.lexeme = W → leadingPiece t ts = .ok (p, [])) :
    pieces (significant body) = [p] := by
  cases hs : significant body with
  | nil => exact absurd (by rw [← hW, hs]; rfl) hne
  | cons t ts =>
    rw [hs] at hW
    rw [pieces_of_leadingPiece (hp t ts hW), pieces]

/-- A body with one piece is compiled to what the text of the piece is read as. -/
theorem compile_of_pieces {body t : List Char} (h : pieces (significant body) = [.text t]) :
    Pattern.compile body = ofSpelling ⟨t, false⟩ := by
  have hspell : spellAlone body = .ok ⟨t, false⟩ := by
    simp [spellAlone, spell, h, assemble, Piece.spell, Id.run]
    rfl
  simp only [Pattern.compile, hspell, bind, Except.bind]

/-- A class alone is an expression unless it nests too deep. -/
theorem parse?_of_class {inner : List Char} {s : CharSet} {d : Nat}
    (hs : symbol? '[' (inner ++ [']']) = some (.atom s d, [])) :
    parse? ('[' :: inner ++ [']']) = if d ≤ maxDepth then some ⟨.set s, d⟩ else none := by
  have hsymbols : symbols? ('[' :: inner ++ [']']) = some [.atom s d] := by
    rw [List.cons_append, symbols?_cons hs]
    simp [symbols?]
  rw [parse?, hsymbols]
  simp [assemble?, accept?, OpenGroup.push, OpenGroup.contents, OpenGroup.branch, jointDepth,
    Regex.sequence, alternation]

/-- A set that stands alone is compiled to the class that its text is read as. -/
theorem compile_of_class {body inner : List Char} {s : CharSet} {d : Nat}
    (hpieces : pieces (significant body) = [.text ('[' :: inner ++ [']'])])
    (hs : symbol? '[' (inner ++ [']']) = some (.atom s d, [])) (hd : d ≤ maxDepth) :
    ∃ p, Pattern.compile body = .ok p ∧ p.isLazy = false ∧ p.regex = .set s := by
  have hcompile : Pattern.compile body = .ok ⟨'[' :: inner ++ [']'], false, .set s, d, #[]⟩ := by
    rw [compile_of_pieces hpieces, ofSpelling, parse?_of_class hs, if_pos hd]
    rfl
  exact ⟨_, hcompile, rfl, rfl⟩

theorem spells_set {g : Grammar} {c : Content} (hc : c.isSet = true) {s : List Char}
    (hwhole : ClassWhole s) (hpieces : pieces (significant c.render) = [.text s]) :
    Spells Outside (IsItem (Means g (.content c))) s := by
  rcases hwhole with ⟨body, rfl, hin, hne, hcaret⟩ | rfl
  · refine ⟨fun rest _ => ⟨.opening, by simp⟩, ?_⟩
    refine (reads_class hin hne hcaret).mono (fun _ _ => trivial) ?_
    rintro _ ⟨cs, d, hsym, rfl⟩
    refine isItem_set fun hd t => ?_
    obtain ⟨p, hp, hlazy, hregex⟩ := compile_of_class hpieces hsym hd
    rw [means_oneOf_iff hc hp]
    refine exists_congr fun ch => and_congr_right fun _ => ?_
    simp [matchesWhole, hlazy, hregex, accepts_iff]
  · refine ⟨fun rest _ => ⟨.opening, by simp⟩, ?_⟩
    exact reads_emptyComplement.mono (fun _ h => h) fun _ h => h.elim

/-! ## Tokens -/

/-- A script whose text has its words. -/
def Clean (S : List Lexeme) : Prop := Spaced S ∧ Lexed S

theorem Clean.split {S T : List Lexeme} (h : Clean (S ++ T)) : Clean S ∧ Clean T := by
  obtain ⟨hs, hl⟩ := h
  obtain ⟨hS, hT⟩ := List.forall_mem_append.1 hs
  obtain ⟨hl₁, hl₂⟩ := hl.split hS
  exact ⟨⟨hS, hl₁⟩, hT, hl₂⟩

theorem Clean.of_cons {l : Lexeme} {S : List Lexeme} (h : Clean (l :: S)) : Clean S :=
  (Clean.split (S := [l]) h).2

/-- Tokens with the given words put a text that satisfies `V` in front of what the tokens behind
them spell. -/
def Translates (G : String → List Char → Prop) (W : List Lexeme) (V : List Char → Prop) : Prop :=
  ∀ ts rest u, ts.map Token.lexeme = W → (∀ t ∈ ts ++ rest, t.lexeme.Regular) → NoRange rest →
    Spelled G (pieces (ts ++ rest)) u → ∃ v w, u = v ++ w ∧ V v ∧ Spelled G (pieces rest) w

/-- No `..` in front. -/
def Unranged (W : List Lexeme) : Prop := ∀ l ∈ W.head?, l.kind ≠ .range

theorem Unranged.append {W W' : List Lexeme} (h : Unranged W) (h' : Unranged W') :
    Unranged (W ++ W') := by
  cases W with
  | nil => exact h'
  | cons l W => exact h

variable {G : String → List Char → Prop} {V V' : List Char → Prop} {W W' : List Lexeme}

theorem Translates.mono (h : Translates G W V) (hV : ∀ v, V v → V' v) : Translates G W V' := by
  intro ts rest u hts hreg hrest hu
  obtain ⟨v, w, rfl, hv, hw⟩ := h ts rest u hts hreg hrest hu
  exact ⟨v, w, rfl, hV v hv, hw⟩

theorem translates_nil : Translates G [] (· = []) := by
  intro ts rest u hts _ _ hu
  obtain rfl := List.map_eq_nil_iff.1 hts
  exact ⟨[], u, rfl, rfl, hu⟩

theorem Translates.append (h : Translates G W V) (h' : Translates G W' V')
    (hW : Unranged W') : Translates G (W ++ W') fun v =>
      ∃ x y, v = x ++ y ∧ V x ∧ V' y := by
  intro ts rest u hts hreg hrest hu
  obtain ⟨ts₁, ts₂, rfl, h₁, h₂⟩ := List.map_eq_append_iff.1 hts
  rw [List.append_assoc] at hreg hu
  have hrange : NoRange (ts₂ ++ rest) := by
    cases ts₂ with
    | nil => exact hrest
    | cons t ts₂ =>
      intro t' ht'
      obtain rfl : t = t' := by simpa using ht'
      exact hW t.lexeme (by simp [← h₂])
  obtain ⟨x, v', rfl, hx, hv'⟩ := h ts₁ (ts₂ ++ rest) u h₁ hreg hrange hu
  obtain ⟨y, w, rfl, hy, hw⟩ :=
    h' ts₂ rest v' h₂ (fun t ht => hreg t (List.mem_append_right _ ht)) hrest hv'
  exact ⟨x ++ y, w, by rw [List.append_assoc], ⟨x, y, rfl, hx, hy⟩, hw⟩

theorem spelled_cons {p : Piece} {t : Token} {ts rest : List Token} {u : List Char}
    (hp : leadingPiece t ts = .ok (p, rest)) (h : Spelled G (pieces (t :: ts)) u) :
    Spelled G (p :: pieces rest) u := by
  rwa [pieces_of_leadingPiece hp] at h

/-- A token with a text of its own. -/
theorem translates_text {l : Lexeme} {s : List Char}
    (hp : ∀ t ts, t.lexeme = l → NoRange ts →
      leadingPiece t ts = .ok (.text s, ts) ∨ leadingPiece t ts = .ok (.lazyText s, ts)) :
    Translates G [l] (· = s) := by
  intro ts rest u hts _ hrest hu
  obtain ⟨t, rfl, ht⟩ := List.map_eq_singleton_iff.1 hts
  rcases hp t rest ht hrest with h | h
  · cases spelled_cons h hu with
    | text hw => exact ⟨s, _, rfl, rfl, hw⟩
  · cases spelled_cons h hu with
    | lazyText hw => exact ⟨s, _, rfl, rfl, hw⟩

theorem text_of_lexeme {t : Token} {l : Lexeme} (h : t.lexeme = l) : t.text = l.text :=
  congrArg Lexeme.text h

/-! ## Elements -/

/-- A token of a kind that stands alone is a piece by itself. -/
theorem leadingPiece_lone {t : Token} (ts : List Token)
    (h : t.kind ∉ [.literal, .charClass, .tilde, .arrow]) :
    leadingPiece t ts = .ok (lonePiece t ts, ts) := by
  simp only [List.mem_cons, List.not_mem_nil, or_false, not_or] at h
  simp [leadingPiece, h]

theorem translates_open : Translates G [openLexeme] (· = ['(', '?', ':']) := by
  refine translates_text fun t ts ht _ => .inl ?_
  have hk : t.kind = .parenOpen := kind_of_lexeme ht
  rw [leadingPiece_lone ts (by rw [hk]; decide), lonePiece, hk]

theorem translates_close : Translates G [closeLexeme] (· = [')']) := by
  refine translates_text fun t ts ht _ => .inl ?_
  have hk : t.kind = .parenClose := kind_of_lexeme ht
  rw [leadingPiece_lone ts (by rw [hk]; decide), lonePiece, hk]

theorem translates_pipe : Translates G [pipeLexeme] (· = ['|']) := by
  refine translates_text fun t ts ht _ => .inl ?_
  have hk : t.kind = .pipe := kind_of_lexeme ht
  rw [leadingPiece_lone ts (by rw [hk]; decide), lonePiece, hk]

theorem translates_quantifier {k : TokenKind} (hk : k.isQuantifier = true) (s : List Char) :
    Translates G [⟨k, s⟩] (· = s) := by
  refine translates_text fun t ts ht _ => ?_
  have hk' : t.kind = k := kind_of_lexeme ht
  have hs : t.text = s := text_of_lexeme ht
  rw [leadingPiece_lone ts (by rw [hk']; rintro hm; revert hk; revert hm; cases k <;> decide),
    lonePiece, hk', hs]
  cases k <;> simp [TokenKind.isQuantifier, TokenKind.isGreedy, TokenKind.isLazy] at hk ⊢

variable {g : Grammar}

/-- A modifier makes an element of the text in front of it. -/
theorem translates_modifier (c : Content) {m : Modifier} {greedy : Bool}
    (hm : (m ≠ .once || greedy) = true) :
    Translates G (modifierScript m greedy) fun q => ∀ v,
      Spells Outside (IsItem (Means g (.content c))) v →
        Spells Follows (IsItem (Means g (.element ⟨c, m, greedy⟩))) (v ++ q) := by
  cases m with
  | once =>
    obtain rfl : greedy = true := by simpa using hm
    refine translates_nil.mono ?_
    rintro _ rfl v hv
    rw [List.append_nil]
    exact (spells_item hv).mono fun _ h => h.congr fun _ => means_once_iff.symm
  | optional =>
    cases greedy with
    | true =>
      refine (translates_quantifier rfl ['?']).mono ?_
      rintro _ rfl v hv
      exact (spells_quantified rfl hv).mono fun _ h => h.congr fun _ => means_optional_iff.symm
    | false =>
      refine (translates_quantifier rfl ['?', '?']).mono ?_
      rintro _ rfl v hv
      exact (spells_lazyQuantified rfl hv).mono fun _ h => h.congr fun _ => means_optional_iff.symm
  | zeroOrMore =>
    cases greedy with
    | true =>
      refine (translates_quantifier rfl ['*']).mono ?_
      rintro _ rfl v hv
      exact (spells_quantified rfl hv).mono fun _ h => h.congr fun _ => means_zeroOrMore_iff.symm
    | false =>
      refine (translates_quantifier rfl ['*', '?']).mono ?_
      rintro _ rfl v hv
      exact (spells_lazyQuantified rfl hv).mono fun _ h =>
        h.congr fun _ => means_zeroOrMore_iff.symm
  | oneOrMore =>
    cases greedy with
    | true =>
      refine (translates_quantifier rfl ['+']).mono ?_
      rintro _ rfl v hv
      exact (spells_quantified rfl hv).mono fun _ h => h.congr fun _ => means_oneOrMore_iff.symm
    | false =>
      refine (translates_quantifier rfl ['+', '?']).mono ?_
      rintro _ rfl v hv
      exact (spells_lazyQuantified rfl hv).mono fun _ h =>
        h.congr fun _ => means_oneOrMore_iff.symm

/-! ## Structures -/

theorem wordsIn_script (e : Element) :
    wordsIn e.script = wordsIn e.content.script ++ modifierScript e.modifier e.greedy := by
  rw [ElementOf.script, wordsIn_append, wordsIn_modifierScript]

theorem unranged_script (c : Content) : Unranged (wordsIn c.script) := by
  cases c with
  | group bs =>
    rw [wordsIn_group]
    simp [Unranged, openLexeme]
  | negated inner =>
    rw [show wordsIn (Content.negated inner).script = ⟨.tilde, ['~']⟩ :: wordsIn inner.script
      from rfl]
    simp [Unranged]
  | _ => simp [Unranged, Content.script, wordsIn, TokenKind.isTrivia]

theorem unranged_modifierScript (m : Modifier) (greedy : Bool) :
    Unranged (modifierScript m greedy) := by
  cases m <;> cases greedy <;> simp [Unranged, modifierScript]

theorem unranged_elementsScript (es : List Element) : Unranged (wordsIn (elementsScript es)) := by
  induction es with
  | nil => simp [Unranged, elementsScript, wordsIn]
  | cons e es ih =>
    rw [wordsIn_elementsScript_cons, wordsIn_script]
    exact ((unranged_script _).append (unranged_modifierScript _ _)).append ih

theorem unranged_branchesScript (bs : List Branch) :
    Unranged (wordsIn (branchesScript true bs)) := by
  cases bs with
  | nil => simp [Unranged, branchesScript, wordsIn]
  | cons b bs =>
    rw [wordsIn_branchesScript_cons]
    refine (unranged_elementsScript b.elements).append ?_
    cases bs with
    | nil => simp [Unranged, branchesScript, wordsIn]
    | cons b' bs =>
      rw [wordsIn_branchesScript_false]
      simp [Unranged, pipeLexeme]

/-- The tokens of the content spell an item that matches what the content means. -/
def TranslatesContent (g : Grammar) (G : String → List Char → Prop) (c : Content) : Prop :=
  Translates G (wordsIn c.script) (Spells Outside (IsItem (Means g (.content c))))

theorem translates_element {e : Element} (hm : (e.modifier ≠ .once || e.greedy) = true)
    (hc : TranslatesContent g G e.content) :
    Translates G (wordsIn e.script) (Spells Follows (IsItem (Means g (.element e)))) := by
  rw [wordsIn_script]
  have hmodifier := translates_modifier (G := G) (g := g) e.content hm
  refine (hc.append hmodifier (unranged_modifierScript _ _)).mono ?_
  rintro _ ⟨v, q, rfl, hv, hq⟩
  exact hq v hv

theorem translates_elements {es : List Element} (hp : properElements es = true)
    (h : ∀ e ∈ es, TranslatesContent g G e.content) :
    Translates G (wordsIn (elementsScript es))
      (Spells Follows (IsSequence (Means g (.elements es)))) := by
  induction es with
  | nil =>
    refine translates_nil.mono ?_
    rintro _ rfl
    exact spells_nil.mono fun _ h => h.congr fun _ => means_nil_iff.symm
  | cons e es ih =>
    obtain ⟨he, hes⟩ := List.forall_mem_cons.1 h
    simp only [properElements, Bool.and_eq_true] at hp
    rw [wordsIn_elementsScript_cons]
    have hfirst := translates_element hp.1.2 he
    refine (hfirst.append (ih hp.2 hes) (unranged_elementsScript es)).mono ?_
    rintro _ ⟨v, w, rfl, hv, hw⟩
    exact (spells_cons hv hw).mono fun _ h => h.congr fun _ => means_cons_iff.symm

theorem translates_branches {bs : List Branch} (hne : bs ≠ []) (hp : properBranches bs = true)
    (h : ∀ b ∈ bs, ∀ e ∈ b.elements, TranslatesContent g G e.content) :
    Translates G (wordsIn (branchesScript true bs))
      (Spells Follows (IsBranches (Means g (.branches bs)))) := by
  induction bs with
  | nil => exact absurd rfl hne
  | cons b bs ih =>
    obtain ⟨hb, hbs⟩ := List.forall_mem_cons.1 h
    simp only [properBranches, Bool.and_eq_true] at hp
    have hfirst := translates_elements hp.1 hb
    rw [wordsIn_branchesScript_cons]
    cases bs with
    | nil =>
      rw [show wordsIn (branchesScript false []) = [] from rfl, List.append_nil]
      refine hfirst.mono fun v hv => (spells_branch hv).mono fun _ h => h.congr fun s => ?_
      rw [means_branches_iff]
      simp
    | cons b' bs =>
      rw [wordsIn_branchesScript_false]
      have hrest := translates_pipe.append (ih (by simp) hp.2 hbs) (unranged_branchesScript _)
      refine (hfirst.append hrest (by simp [Unranged, pipeLexeme])).mono ?_
      rintro _ ⟨v, _, rfl, hv, _, w, rfl, rfl, hw⟩
      refine (spells_branches hv hw).mono fun _ h => h.congr fun s => ?_
      simp only [means_branches_iff, List.mem_cons, or_and_right, exists_or, exists_eq_left]

/-- The texts of rules match what their names mean, and only lexer rules have them. -/
def Faithful (g : Grammar) (G : String → List Char → Prop) : Prop :=
  ∀ name t, G name t → isLexerName name = true ∧
    Spells Follows (IsBranches (Means g (.content (.token name)))) t

theorem translates_name (name : String) (V : List Char → Prop)
    (h : ∀ t, name ≠ endOfInput → G name t → V (grouped t)) :
    Translates G [⟨.ident, name.toList⟩] V := by
  intro ts rest u hts _ _ hu
  obtain ⟨t, rfl, ht⟩ := List.map_eq_singleton_iff.1 hts
  have hk : t.kind = .ident := kind_of_lexeme ht
  have hname : t.name = name := by
    rw [Token.name, text_of_lexeme ht]
    exact String.ofList_toList
  have hlead : leadingPiece t rest = .ok (lonePiece t rest, rest) :=
    leadingPiece_lone rest (by rw [hk]; decide)
  rw [lonePiece, hk, hname] at hlead
  by_cases he : name = endOfInput
  · simp only [he, if_true] at hlead
    cases spelled_cons hlead hu
  · simp only [he, if_false] at hlead
    cases spelled_cons hlead hu with
    | reference hG hw => exact ⟨_, _, rfl, h _ he hG, hw⟩

theorem wordsIn_ne_nil_of_isSet {c : Content} (hc : c.isSet = true) : wordsIn c.script ≠ [] := by
  cases c with
  | charSet text => simp [Content.script, wordsIn, TokenKind.isTrivia]
  | range first last => simp [Content.script, wordsIn, TokenKind.isTrivia]
  | negated inner => simp [Content.script, wordsIn, TokenKind.isTrivia]
  | _ => simp [Content.isSet] at hc

theorem translates_set {c : Content} (hc : c.isSet = true) (hclean : Clean c.script) :
    TranslatesContent g G c := by
  intro ts rest u hts hreg hrest hu
  cases ts with
  | nil => exact absurd hts.symm (wordsIn_ne_nil_of_isSet hc)
  | cons t ts =>
    cases hp : leadingPiece t (ts ++ rest) with
    | error e =>
      rw [List.cons_append, pieces_of_error hp] at hu
      cases hu
    | ok r =>
      obtain ⟨p, rest'⟩ := r
      obtain ⟨s, rfl, rfl, hwhole, halone⟩ :=
        classPiece_content hc t ts rest rest' p hts hreg hrest hp
      have hpieces : pieces (significant c.render) = [.text s] :=
        pieces_of_words (wordsIn_ne_nil_of_isSet hc) (map_lexeme_significant_render hclean.2) halone
      cases spelled_cons hp hu with
      | text hw => exact ⟨s, _, rfl, spells_set hc hwhole hpieces, hw⟩

theorem translates_literal (quoted : List Char) : TranslatesContent g G (.literal quoted) := by
  have hwords : wordsIn (Content.literal quoted).script = [⟨.literal, quoted⟩] := rfl
  rw [TranslatesContent, hwords]
  refine (translates_text (s := grouped (literalText (Literal.unescape quoted))) ?_).mono ?_
  · intro t ts ht hts
    have hk : t.kind = .literal := kind_of_lexeme ht
    have hquoted : t.text = quoted := text_of_lexeme ht
    left
    rw [leadingPiece, if_pos hk, rangeEnd?_of_noRange hts, hquoted]
  · rintro _ rfl
    exact (spells_literal _).mono fun _ h => h.congr fun _ => means_literal_iff.symm

theorem translates_wildcard : TranslatesContent g G .wildcard := by
  refine (translates_text (s := anyText) fun t ts ht _ => .inl ?_).mono ?_
  · have hk : t.kind = .dot := kind_of_lexeme ht
    rw [leadingPiece_lone ts (by rw [hk]; decide), lonePiece, hk]
  · rintro _ rfl
    exact spells_any.mono fun _ h => h.congr fun _ => means_wildcard_iff.symm

theorem translates_group {bs : List Branch} (hne : bs ≠ []) (hp : properBranches bs = true)
    (h : ∀ b ∈ bs, ∀ e ∈ b.elements, TranslatesContent g G e.content) :
    TranslatesContent g G (.group bs) := by
  have hbranches := translates_branches hne hp h
  have hopen := translates_open.append hbranches (unranged_branchesScript bs)
  rw [TranslatesContent, wordsIn_group]
  refine (hopen.append translates_close (by simp [Unranged, closeLexeme])).mono ?_
  rintro _ ⟨_, _, rfl, ⟨_, v, rfl, rfl, hv⟩, rfl⟩
  exact (spells_grouped hv).mono fun _ h => h.congr fun _ => means_group_iff.symm

theorem Clean.branches {first : Bool} {bs : List Branch} (h : Clean (branchesScript first bs)) :
    ∀ b ∈ bs, Clean (elementsScript b.elements) := by
  induction bs generalizing first with
  | nil => simp
  | cons b bs ih =>
    obtain ⟨elements, _, _, _⟩ := b
    rw [branchesScript] at h
    obtain ⟨h, hbs⟩ := h.split
    obtain ⟨-, h⟩ := h.split
    refine List.forall_mem_cons.2 ⟨?_, ih hbs⟩
    cases elements with
    | nil => exact h
    | cons e es => exact h.of_cons

theorem Clean.elements {es : List Element} (h : Clean (elementsScript es)) :
    ∀ e ∈ es, Clean e.content.script := by
  induction es with
  | nil => simp
  | cons e es ih =>
    rw [elementsScript] at h
    obtain ⟨h, hes⟩ := h.split
    refine List.forall_mem_cons.2 ⟨h.split.1, ?_⟩
    cases es with
    | nil => simp
    | cons e' es => exact ih hes.of_cons

theorem Clean.alternatives {bs : List Branch} (h : Clean (alternativesScript bs)) :
    ∀ b ∈ bs, Clean (elementsScript b.elements) := by
  induction bs with
  | nil => simp
  | cons b bs ih =>
    cases bs with
    | nil => simpa [alternativesScript] using h
    | cons b' bs =>
      rw [alternativesScript] at h
      · obtain ⟨h, hbs⟩ := h.split
        exact List.forall_mem_cons.2 ⟨h.split.1, ih hbs⟩
      · simp

mutual

theorem translates_content (hG : Faithful g G) : ∀ c : Content, c.isProper = true →
    Clean c.script → TranslatesContent g G c
  | .token name, _, _ => by
    refine translates_name name _ fun t _ h => ?_
    exact spells_grouped (hG name t h).2
  | .rule name, hp, _ => by
    refine translates_name name _ fun t _ h => ?_
    simp [Content.isProper, (hG name t h).1] at hp
  | .literal quoted, _, _ => translates_literal quoted
  | .charSet _, _, hc => translates_set rfl hc
  | .range _ _, _, hc => translates_set rfl hc
  | .group bs, hp, hc => by
    simp only [Content.isProper, Bool.and_eq_true, Bool.not_eq_true', List.isEmpty_eq_false_iff]
      at hp
    rw [Content.script] at hc
    have hclean := (Clean.of_cons hc).split.1
    exact translates_group hp.1 hp.2 (translates_contents hG bs hp.2 hclean.branches)
  | .wildcard, _, _ => translates_wildcard
  | .negated _, _, hc => translates_set rfl hc
  | .endOfInput, _, _ => translates_name endOfInput _ fun _ h => absurd rfl h

theorem translates_contents (hG : Faithful g G) : ∀ bs : List (AlternativeOf Content),
    properBranches bs = true → (∀ b ∈ bs, Clean (elementsScript b.elements)) →
    ∀ b ∈ bs, ∀ e ∈ b.elements, TranslatesContent g G e.content
  | [], _, _ => by simp
  | ⟨es, _, _, _⟩ :: bs, hp, hc => by
    simp only [properBranches, Bool.and_eq_true] at hp
    obtain ⟨he, hbs⟩ := List.forall_mem_cons.1 hc
    exact List.forall_mem_cons.2 ⟨translates_contentsOf hG es hp.1 (Clean.elements he),
      translates_contents hG bs hp.2 hbs⟩

theorem translates_contentsOf (hG : Faithful g G) : ∀ es : List (ElementOf Content),
    properElements es = true → (∀ e ∈ es, Clean e.content.script) →
    ∀ e ∈ es, TranslatesContent g G e.content
  | [], _, _ => by simp
  | ⟨c, _, _⟩ :: es, hp, hc => by
    simp only [properElements, Bool.and_eq_true] at hp
    obtain ⟨he, hes⟩ := List.forall_mem_cons.1 hc
    exact List.forall_mem_cons.2 ⟨translates_content hG c hp.1.1 he,
      translates_contentsOf hG es hp.2 hes⟩

end

/-- What the pieces of a body spell matches what its structure means. -/
theorem spells_of_isWritten (hG : Faithful g G) {body : List Char} {bs : List Branch}
    (h : IsWritten body bs) {t : List Char} (ht : Spelled G (pieces (significant body)) t) :
    Spells Follows (IsBranches (Means g (.branches bs))) t := by
  have hclean : Clean (alternativesScript bs) := ⟨h.spaced, h.lexed⟩
  have hbranches : Translates G (wordsIn (branchesScript true bs))
      (Spells Follows (IsBranches (Means g (.branches bs)))) :=
    translates_branches h.nonempty h.proper
      (translates_contents hG bs h.proper hclean.alternatives)
  obtain ⟨v, w, rfl, hv, hw⟩ := hbranches (significant body) [] t
    (h.tokens.trans (wordsIn_alternativesScript bs))
    (by simpa using fun u hu => (lawful_significant body u hu).1) (by simp [NoRange])
    (by rwa [List.append_nil])
  rw [pieces] at hw
  cases hw
  rwa [List.append_nil]

end GrammarLab.Pattern
