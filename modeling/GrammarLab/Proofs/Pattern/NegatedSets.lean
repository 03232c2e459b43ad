import GrammarLab.Proofs.Pattern.Classes
import GrammarLab.Proofs.Pattern.Quoted

/-!
# Negated sets

The texts of the members of a negated set are written one after the other into one class. The
class is the complement of their union unless a text runs on into the next: with a dash at the end
of one and in front of the other, which makes a range or an operator, or with an operator, which
takes all that is in front of it.

    bracket? ('^' :: (s ++ [']'])) = some (b, []) →
      (b.set.contains c ↔ no member matches [c])
-/

namespace GrammarLab.Pattern

open Body Regex

/-- What a set may have for a member: a class that is not empty, a literal of one character or a
range of literals. -/
inductive IsMember : Content → Prop
  | charSet {text} : Lexeme.IsWhole ⟨.charClass, text⟩ → text ≠ ['[', ']'] →
      IsMember (.charSet text)
  | literal {quoted c} : Lexeme.IsWhole ⟨.literal, quoted⟩ → Literal.unescape quoted = [c] →
      IsMember (.literal quoted)
  | range {first last} : Lexeme.IsWhole ⟨.literal, first⟩ → Lexeme.IsWhole ⟨.literal, last⟩ →
      IsMember (.range first last)

/-- The members with bars between them. -/
def unionText : List Content → List Char
  | [] => []
  | [x] => x.render
  | x :: xs => x.render ++ ' ' :: '|' :: ' ' :: unionText xs

def negatedText (xs : List Content) : List Char := '~' :: '(' :: (unionText xs ++ [')'])

/-- No operator is read between the brackets. -/
def Unoperated (s : List Char) : Prop :=
  ∀ ps rest, opening? (s ++ [']']) = some (ps, rest) → ∀ op, ClassPart.operator op ∉ ps

/-- The texts of two members next to each other do not run on into each other. -/
def Apart (x y : Content) : Prop :=
  ∀ s t, MemberText x s → MemberText y t →
    Unoperated s ∧ Unoperated t ∧ ¬EndsWithDash s ∧ t.head? ≠ some '-'

/-- No text of the member runs on into the text of another one. -/
def StandsApart (x : Content) : Prop :=
  ∀ s, MemberText x s → Unoperated s ∧ ¬EndsWithDash s ∧ s.head? ≠ some '-'

/-- The member, compiled alone, matches the character. -/
def MatchesAlone (x : Content) (c : Char) : Prop :=
  ∃ q, Pattern.compile x.render = .ok q ∧ q.matchesWhole [c] = true

/-! ## Tokens -/

theorem IsMember.isLegible {x : Content} (h : IsMember x) : x.IsLegible := by
  cases h with
  | charSet hwhole _ => exact hwhole
  | literal hwhole _ => exact hwhole
  | range hfirst hlast => exact ⟨hfirst, hlast⟩

/-- Whatever stands behind a member, it has the same words. -/
theorem IsMember.words_append {x : Content} (h : IsMember x) (s : List Char) :
    words (x.render ++ s) = wordsIn x.script ++ words s := by
  cases h with
  | charSet hwhole _ => exact words_charClass hwhole s
  | literal hwhole _ => exact words_literal hwhole s
  | @range first last hfirst hlast =>
    have htext : (Content.range first last).render ++ s = first ++ ('.' :: '.' :: (last ++ s)) := by
      simp [Content.render]
    rw [htext, words_literal hfirst, words_operatorPair _ rfl rfl, words_literal hlast]
    rfl

def unionWords : List Content → List Lexeme
  | [] => []
  | [x] => wordsIn x.script
  | x :: xs => wordsIn x.script ++ pipeLexeme :: unionWords xs

theorem words_unionText {xs : List Content} (h : ∀ x ∈ xs, IsMember x) (s : List Char) :
    words (unionText xs ++ s) = unionWords xs ++ words s := by
  induction xs with
  | nil => rfl
  | cons x xs ih =>
    obtain ⟨hx, hxs⟩ := List.forall_mem_cons.1 h
    cases xs with
    | nil => exact hx.words_append s
    | cons y ys =>
      rw [unionText, unionWords, List.append_assoc, hx.words_append, List.cons_append,
        List.cons_append, List.cons_append, words_blank rfl,
        words_operator (k := .pipe) rfl (by simp [operatorPair?]), words_blank rfl, ih hxs]
      · simp [pipeLexeme]
      · simp
      · simp

theorem IsMember.ne_garbage {x : Content} (h : IsMember x) :
    ∀ l ∈ wordsIn x.script, l.kind ≠ .garbage := by
  cases h with
  | charSet _ _ => simp [Content.script, wordsIn, TokenKind.isTrivia]
  | literal _ _ => simp [Content.script, wordsIn, TokenKind.isTrivia]
  | range _ _ => simp [Content.script, wordsIn, TokenKind.isTrivia]

theorem ne_garbage_unionWords {xs : List Content} (h : ∀ x ∈ xs, IsMember x) :
    ∀ l ∈ unionWords xs, l.kind ≠ .garbage := by
  induction xs with
  | nil => simp [unionWords]
  | cons x xs ih =>
    obtain ⟨hx, hxs⟩ := List.forall_mem_cons.1 h
    cases xs with
    | nil => exact hx.ne_garbage
    | cons y ys =>
      rw [unionWords]
      · refine List.forall_mem_append.2 ⟨hx.ne_garbage, List.forall_mem_cons.2 ⟨?_, ih hxs⟩⟩
        simp [pipeLexeme]
      · simp

theorem lexemes_negatedText {xs : List Content} (h : ∀ x ∈ xs, IsMember x) :
    (significant (negatedText xs)).map Token.lexeme =
      ⟨.tilde, ['~']⟩ :: openLexeme :: (unionWords xs ++ [closeLexeme]) := by
  have hwords : words (negatedText xs) =
      ⟨.tilde, ['~']⟩ :: openLexeme :: (unionWords xs ++ [closeLexeme]) := by
    rw [negatedText, words_operator (k := .tilde) rfl (by simp [operatorPair?]),
      words_operator (k := .parenOpen) rfl (by simp [operatorPair?]), words_unionText h,
      words_operator (k := .parenClose) rfl (by simp), words_nil]
    rfl
  rw [map_lexeme_significant_of_words, hwords]
  rw [hwords]
  simp only [List.forall_mem_cons, List.forall_mem_append]
  exact ⟨by simp, by simp [openLexeme], ne_garbage_unionWords h, by simp [closeLexeme], by simp⟩

/-- `UnionMembers xs s`: the texts of the members, one after the other. -/
inductive UnionMembers : List Content → List Char → Prop
  | nil : UnionMembers [] []
  | cons {x xs s t} : MemberText x s → UnionMembers xs t → UnionMembers (x :: xs) (s ++ t)

theorem setMembers_close {t : Token} {ts : List Token} (h : t.kind = .parenClose) :
    setMembers (t :: ts) = .ok ([], ts) := by
  rw [setMembers, if_pos h]

theorem setMembers_union {xs : List Content} {s : List Char} {ts : List Token}
    (h : UnionMembers xs s) (hts : ts.map Token.lexeme = unionWords xs ++ [closeLexeme]) :
    setMembers ts = .ok (s, []) := by
  induction h generalizing ts with
  | nil =>
    obtain ⟨t, rfl, ht⟩ := List.map_eq_singleton_iff.1 hts
    exact setMembers_close (kind_of_lexeme ht)
  | @cons x xs s s' hs hs' ih =>
    cases xs with
    | nil =>
      obtain ⟨ts₁, ts₂, rfl, h₁, h₂⟩ := List.map_eq_append_iff.1 hts
      refine setMembers_member hs h₁ ?_ (ih h₂)
      obtain ⟨t, rfl, ht⟩ := List.map_eq_singleton_iff.1 h₂
      have hk : t.kind = .parenClose := kind_of_lexeme ht
      simp [NoRange, hk]
    | cons y ys =>
      rw [unionWords, List.append_assoc] at hts
      · obtain ⟨ts₁, ts₂, rfl, h₁, h₂⟩ := List.map_eq_append_iff.1 hts
        rw [List.cons_append] at h₂
        obtain ⟨t, ts₂, rfl, ht, h₂⟩ := List.map_eq_cons_iff.1 h₂
        have hk : t.kind = .pipe := kind_of_lexeme ht
        refine setMembers_member hs h₁ (by simp [NoRange, hk]) ?_
        rw [setMembers, if_neg (by simp [hk]), if_pos hk, ih h₂]
      · simp

theorem pieces_negatedText {xs : List Content} {s : List Char} (hxs : ∀ x ∈ xs, IsMember x)
    (h : UnionMembers xs s) :
    pieces (significant (negatedText xs)) = [.text ('[' :: '^' :: s ++ [']'])] := by
  refine pieces_of_words (by simp) (lexemes_negatedText hxs) fun t ts hts => ?_
  rw [List.map_cons, List.cons.injEq] at hts
  obtain ⟨ht, hts⟩ := hts
  obtain ⟨u, us, rfl, hu, hus⟩ := List.map_eq_cons_iff.1 hts
  have hk : t.kind = .tilde := kind_of_lexeme ht
  have hk' : u.kind = .parenOpen := kind_of_lexeme hu
  simp only [leadingPiece, hk, reduceCtorEq, if_false, if_true, negatedSet, hk',
    setMembers_union h hus]
  rfl

/-! ## Single members -/

/-- What is written for a member and read from it between brackets of its own. -/
structure IsRead (x : Content) (s : List Char) (ps : List ClassPart) : Prop where
  text : MemberText x s
  inside : ClassInside s
  nonempty : s ≠ []
  opening : opening? (s ++ [']']) = some (ps, [])
  depth : 1 + (denoted ps).depth ≤ maxDepth
  holds : ∀ c, (denoted ps).set.contains c = true ↔ MatchesAlone x c

theorem matchesAlone_iff {x : Content} {q : Pattern} (hq : Pattern.compile x.render = .ok q)
    (c : Char) : MatchesAlone x c ↔ q.matchesWhole [c] = true := by
  constructor
  · rintro ⟨q', hq', hc⟩
    obtain rfl := Except.ok.inj (hq.symm.trans hq')
    exact hc
  · exact fun hc => ⟨q, hq, hc⟩

/-- The first token of what is compiled begins a piece. -/
theorem exists_leadingPiece {body : List Char} {q : Pattern} {t : Token} {ts : List Token}
    (hs : significant body = t :: ts) (hq : Pattern.compile body = .ok q) :
    ∃ p rest, leadingPiece t ts = .ok (p, rest) := by
  cases hlead : leadingPiece t ts with
  | ok r => exact ⟨r.1, r.2, rfl⟩
  | error e =>
    simp [Pattern.compile, spellAlone, spell, hs, pieces_of_error hlead, assemble, Piece.spell,
      Id.run, bind, Except.bind, pure] at hq

theorem unescape_of_singleChar {t : Token} {c : Char} (h : singleChar t = .ok c) :
    Literal.unescape t.text = [c] := by
  unfold singleChar at h
  split at h
  · rename_i d hd
    rw [hd, Except.ok.inj h]
  · simp at h

/-- Text that begins with a backslash, a dash or a character that means nothing to the expression
language. -/
def BeginsMember (s : List Char) : Prop :=
  ∃ c t, s = c :: t ∧ (c = '\\' ∨ c = '-' ∨ isMeta c = false)

theorem beginsMember_charText (c : Char) (s : List Char) : BeginsMember (charText c ++ s) := by
  cases h : isMeta c with
  | true => exact ⟨'\\', c :: s, by rw [charText_of_isMeta h]; rfl, .inl rfl⟩
  | false => exact ⟨c, s, by rw [charText_of_not_isMeta h]; rfl, .inr (.inr h)⟩

theorem beginsMember_backslash (s : List Char) : BeginsMember ('\\' :: s) := ⟨_, s, rfl, .inl rfl⟩

theorem beginsMember_of_classText? {s t : List Char} (hs : s ≠ []) (h : classText? s = some t) :
    BeginsMember t := by
  fun_induction classText? s generalizing t with
  | case1 => exact absurd rfl hs
  | case2 => simp at h
  | case8 e rest _ _ _ _ _ =>
    obtain ⟨u, -, rfl⟩ := Option.map_eq_some_iff.1 h
    exact beginsMember_charText e u
  | case9 c rest _ _ =>
    obtain ⟨u, -, rfl⟩ := Option.map_eq_some_iff.1 h
    by_cases hc : c = '-'
    · simp only [hc, if_true]
      exact ⟨'-', u, rfl, .inr (.inl rfl)⟩
    · simp only [hc, if_false]
      exact beginsMember_charText c u
  | _ =>
    obtain ⟨u, -, rfl⟩ := Option.map_eq_some_iff.1 h
    exact beginsMember_backslash _

theorem BeginsMember.ne_nil {s : List Char} (h : BeginsMember s) : s ≠ [] := by
  obtain ⟨c, t, rfl, -⟩ := h
  simp

/-- What is written for a member may stand behind another one unless it begins with a dash. -/
theorem BeginsMember.exists_head {s : List Char} (h : BeginsMember s) (hdash : s.head? ≠ some '-')
    (more : List Char) : ∃ c t, s ++ more = c :: t ∧ c ∉ ['-', '&', '~'] := by
  obtain ⟨c, t, rfl, hc⟩ := h
  refine ⟨c, t ++ more, rfl, ?_⟩
  simp only [List.head?_cons, ne_eq, Option.some.injEq] at hdash
  simp only [List.mem_cons, List.not_mem_nil, or_false, not_or]
  refine ⟨hdash, ?_, ?_⟩
  · rintro rfl
    simp [isMeta] at hc
  · rintro rfl
    simp [isMeta] at hc

theorem IsMember.begins {x : Content} {s : List Char} (hx : IsMember x) (h : MemberText x s) :
    BeginsMember s := by
  cases h with
  | charSet hs =>
    refine beginsMember_of_classText? ?_ hs
    cases hx with
    | charSet hwhole hne =>
      obtain ⟨body, rfl, -⟩ := exists_inside_of_isWhole hwhole
      rw [List.cons_append, List.drop_one, List.tail_cons, List.dropLast_concat]
      rintro rfl
      exact hne rfl
  | @literal quoted c _ => simpa using beginsMember_charText c []
  | @range first last lo hi _ _ => exact beginsMember_charText lo _

theorem exists_memberText {x : Content} {q : Pattern} (hx : IsMember x)
    (hq : Pattern.compile x.render = .ok q) : ∃ s, MemberText x s := by
  have hlexemes := lexemes_of_isLegible hx.isLegible
  cases hx with
  | @charSet text _ _ =>
    obtain ⟨t, hs, ht⟩ := List.map_eq_singleton_iff.1 hlexemes
    obtain ⟨p, rest, hlead⟩ := exists_leadingPiece hs hq
    have hk : t.kind = .charClass := kind_of_lexeme ht
    simp only [leadingPiece, hk, reduceCtorEq, if_false, if_true] at hlead
    obtain ⟨s, hbody, -⟩ := ok_of_map hlead
    rw [classBody, text_of_lexeme ht] at hbody
    cases hs : classText? ((text.drop 1).dropLast) with
    | none =>
      rw [hs] at hbody
      simp at hbody
    | some s => exact ⟨s, .charSet hs⟩
  | @literal quoted c _ hc => exact ⟨_, .literal hc⟩
  | @range first last _ _ =>
    obtain ⟨t, op, l, hs, ht, hl, hk, hkop, hkl⟩ := exists_of_range_words hlexemes
    obtain ⟨p, rest, hlead⟩ := exists_leadingPiece hs hq
    simp only [leadingPiece, hk, if_true, rangeEnd?_range hkop hkl] at hlead
    obtain ⟨s, hrange, -⟩ := ok_of_map hlead
    obtain ⟨lo, hlo, hrange⟩ := bind_eq_ok.1 hrange
    obtain ⟨hi, hhi, -⟩ := bind_eq_ok.1 hrange
    have hfirst := unescape_of_singleChar hlo
    have hlast := unescape_of_singleChar hhi
    rw [text_of_lexeme ht] at hfirst
    rw [text_of_lexeme hl] at hlast
    exact ⟨_, .range hfirst hlast⟩

/-- A class or a range is compiled to what is read between its own brackets. -/
theorem exists_isRead_of_isSet {x : Content} {q : Pattern} (hx : IsMember x) (hset : x.isSet = true)
    (hq : Pattern.compile x.render = .ok q) : ∃ s ps, IsRead x s ps := by
  obtain ⟨s, hs⟩ := exists_memberText hx hq
  have hin := hs.classInside hx.isLegible
  have hne := (hx.begins hs).ne_nil
  obtain ⟨b, hb, hdepth, hmatches⟩ :=
    exists_bracket?_of_compile (pieces_member hs hset hx.isLegible hne) hin hne hq
  rw [bracket?_eq (head?_append_of_classInside hin hne)] at hb
  obtain ⟨⟨ps, rest⟩, hopen, he⟩ := Option.map_eq_some_iff.1 hb
  obtain ⟨rfl, rfl⟩ := Prod.mk.inj he
  refine ⟨s, ps, hs, hin, hne, hopen, hdepth, fun c => ?_⟩
  rw [matchesAlone_iff hq]
  exact (hmatches.iff c).symm

theorem exists_isRead_literal {quoted : List Char} {c : Char}
    (h : Lexeme.IsWhole ⟨.literal, quoted⟩) (hc : Literal.unescape quoted = [c]) :
    ∃ s ps, IsRead (.literal quoted) s ps := by
  obtain ⟨q, hq, hmatches⟩ := exists_compile_literal h
  obtain ⟨sets, hopen, hsets⟩ := exists_opening_charText c
  obtain ⟨hdepth, hset⟩ := denoted_map_member sets
  refine ⟨charText c, _, .literal hc, classInside_charText c, (writes_charText c).ne_nil, hopen,
    hdepth, fun d => ?_⟩
  rw [matchesAlone_iff (x := .literal quoted) hq, hset, hsets, matchesWhole_iff, hmatches.exact, hc]
  simp [hmatches.greedy]

theorem exists_isRead {x : Content} {q : Pattern} (hx : IsMember x)
    (hq : Pattern.compile x.render = .ok q) : ∃ s ps, IsRead x s ps := by
  cases hx with
  | charSet hwhole hne => exact exists_isRead_of_isSet (.charSet hwhole hne) rfl hq
  | literal hwhole hc => exact exists_isRead_literal hwhole hc
  | range hfirst hlast => exact exists_isRead_of_isSet (.range hfirst hlast) rfl hq

/-- A member without operators is dashes in front and a list of members behind them. -/
theorem IsRead.exists_lists {x : Content} {s : List Char} {ps : List ClassPart}
    (h : IsRead x s ps) (hs : Unoperated s) :
    ∃ dashes t P, s = dashes ++ t ∧ (∀ c ∈ dashes, c = '-') ∧ t.head? ≠ some '-' ∧ Inside t ∧
      Lists (Fits s) t P ∧ ∀ c, MatchesAlone x c ↔ c ∈ dashes ∨ P c := by
  obtain ⟨sets, rfl⟩ := exists_sets_of_no_operator (hs ps [] h.opening)
  obtain ⟨dashes, t, P, he, hd, ht, hin, hlists, hP⟩ :=
    exists_lists_of_opening? h.inside.1 h.nonempty h.opening
  refine ⟨dashes, t, P, he, hd, ht, hin, hlists, fun c => ?_⟩
  rw [← h.holds, (denoted_map_member sets).2, hP]

/-! ## Members that stand apart -/

theorem unoperated_of_opening? {s : List Char} {sets : List CharSet}
    (h : opening? (s ++ [']']) = some (sets.map .member, [])) : Unoperated s := by
  rintro ps rest hps op hop
  obtain ⟨rfl, -⟩ := Prod.mk.inj (Option.some.inj (h.symm.trans hps))
  simp at hop

theorem StandsApart.apart {x y : Content} (hx : StandsApart x) (hy : StandsApart y) : Apart x y :=
  fun s t hs ht => ⟨(hx s hs).1, (hy t ht).1, (hx s hs).2.1, (hy t ht).2.2⟩

/-- A literal stands apart, whatever its character is. -/
theorem standsApart_literal (quoted : List Char) : StandsApart (.literal quoted) := by
  rintro _ (_ | @⟨_, c, _⟩)
  have hdash := (writes_charText c).head?_ne_dash []
  rw [List.append_nil] at hdash
  obtain ⟨sets, hopen, -⟩ := exists_opening_charText c
  exact ⟨unoperated_of_opening? hopen, not_endsWithDash_charText c, hdash⟩

/-- So does a range of literals; the dash between its ends is none of its own. -/
theorem standsApart_range (first last : List Char) : StandsApart (.range first last) := by
  intro s hs
  cases hs with
  | @range _ _ lo hi _ _ =>
    have hlo := writes_charText lo
    have hhi := writes_charText hi
    have hdash := hlo.head?_ne_dash ('-' :: charText hi)
    refine ⟨?_, fun hends => not_endsWithDash_charText hi ?_, hdash⟩
    · by_cases hle : lo ≤ hi
      · obtain ⟨sets, hopen, -⟩ := exists_opening_range hle
        exact unoperated_of_opening? hopen
      · intro ps rest hps
        have hnone := @opening?_dashes [] _ [] (by simp) hdash (by simp) (classInside_range lo hi).1
        rw [List.nil_append, parts?_of_descending hlo hhi hle] at hnone
        exact absurd (hps.symm.trans hnone) (by simp)
    · rw [List.append_cons] at hends
      have hin : Inside (charText lo ++ ['-']) :=
        (inside_charText lo).append (.plain (by decide) (by decide) .nil)
      exact hends.of_append hin hhi.ne_nil

/-- A class of items stands apart when neither its first nor its last item is a dash. -/
theorem standsApart_charSet {items : List ClassItem} (hne : items ≠ [])
    (hascending : ∀ r ∈ spans items, r.1 ≤ r.2) (hsep : Separated items)
    (hfirst : ∀ i ∈ items.head?, i.isDash = false)
    (hlast : ∀ i ∈ items.getLast?, i.isDash = false) :
    StandsApart (.charSet ('[' :: (itemsText items ++ [']']))) := by
  intro s hs
  cases hs with
  | charSet hs =>
    rw [List.drop_one, List.tail_cons, List.dropLast_concat, classText?_itemsText] at hs
    obtain rfl := Option.some.inj hs
    obtain ⟨sets, hopen, -⟩ := exists_opening_of_items hne hascending hsep
    refine ⟨unoperated_of_opening? hopen, fun hends => ?_, head?_written hfirst⟩
    obtain rfl | ⟨init, i, rfl⟩ := List.eq_nil_or_concat items
    · exact hne rfl
    · have hi := ClassItem.writes (hlast i (by simp))
      rw [List.concat_eq_append, List.flatMap_append, List.flatMap_singleton] at hends
      exact hi.2 (hends.of_append (classInside_written init).1 hi.1.ne_nil)

/-! ## Members next to each other -/

section

variable {x : Content} {xs : List Content} {s : List Char}

/-- The members behind one list what each of them matches alone, and fit behind it. -/
theorem exists_lists_of_apart (hs : MemberText x s) (hxs : ∀ y ∈ xs, IsMember y)
    (hread : ∀ y ∈ xs, ∃ t ps, IsRead y t ps) (hapart : (x :: xs).IsChain Apart) :
    ∃ t, UnionMembers xs t ∧ Inside t ∧
      Lists (· = [']']) t (fun c => ∃ y ∈ xs, MatchesAlone y c) ∧ Fits s (t ++ [']']) := by
  induction xs generalizing x s with
  | nil => exact ⟨[], .nil, .nil, lists_nil.congr (by simp), fits_close s []⟩
  | cons y ys ih =>
    obtain ⟨hy, hys⟩ := List.forall_mem_cons.1 hxs
    obtain ⟨⟨t, ps, ht⟩, hread⟩ := List.forall_mem_cons.1 hread
    rw [List.isChain_cons_cons] at hapart
    obtain ⟨hxy, hapart⟩ := hapart
    obtain ⟨-, hop, hend, hfirst⟩ := hxy s t hs ht.text
    obtain ⟨more, hmore, hin, hlists, hfits⟩ := ih ht.text hys hread hapart
    obtain ⟨dashes, t', P, rfl, hd, -, -, hlists', hP⟩ := ht.exists_lists hop
    -- What stands behind another member does not begin with a dash.
    obtain rfl : dashes = [] := by
      cases dashes with
      | nil => rfl
      | cons c ds => exact absurd (by rw [hd c List.mem_cons_self]; rfl) hfirst
    rw [List.nil_append] at *
    refine ⟨t' ++ more, .cons ht.text hmore, ht.inside.1.append hin, ?_, ?_⟩
    · refine (hlists'.append hlists fun _ he => ?_).congr fun c => ?_
      · rw [he]
        exact hfits
      · simp [hP]
    · obtain ⟨c, u, hc, hne⟩ := (hy.begins ht.text).exists_head hfirst (more ++ [']'])
      exact ⟨c, u, by rw [List.append_assoc, hc], hne, fun h => absurd h hend⟩

/-- The texts of the members are read as one class of what any of them matches alone. -/
theorem exists_opening_union (hxs : ∀ y ∈ xs, IsMember y)
    (hread : ∀ y ∈ x :: xs, ∃ t ps, IsRead y t ps) (hapart : (x :: xs).IsChain Apart) :
    ∃ s ps, UnionMembers (x :: xs) s ∧ opening? (s ++ [']']) = some (ps, []) ∧
      1 + (denoted ps).depth ≤ maxDepth ∧
      ∀ c, (denoted ps).set.contains c = true ↔ ∃ y ∈ x :: xs, MatchesAlone y c := by
  obtain ⟨⟨s, ps, hs⟩, hread⟩ := List.forall_mem_cons.1 hread
  cases xs with
  | nil =>
    refine ⟨s, ps, ?_, hs.opening, hs.depth, fun c => by rw [hs.holds]; simp⟩
    simpa using UnionMembers.cons hs.text .nil
  | cons y ys =>
    obtain ⟨more, hmore, hin, hlists, hfits⟩ := exists_lists_of_apart hs.text hxs hread hapart
    have hop : Unoperated s := by
      obtain ⟨t, _, ht⟩ := hread y List.mem_cons_self
      exact ((List.isChain_cons_cons.1 hapart).1 s t hs.text ht.text).1
    obtain ⟨dashes, t, P, rfl, hd, ht, hin', hlists', hP⟩ := hs.exists_lists hop
    have hfirst : (t ++ more).head? ≠ some '-' := by
      cases t with
      | nil => exact hfits.head?_ne_dash
      | cons c t => simpa using ht
    have hne : dashes ++ (t ++ more) ≠ [] := by
      rw [← List.append_assoc]
      exact List.append_ne_nil_of_left_ne_nil hs.nonempty more
    obtain ⟨sets, hopen, hsets⟩ := exists_opening dashes hd hfirst hne (hin'.append hin)
      (hlists'.append hlists fun _ he => he ▸ hfits) rfl
    obtain ⟨hdepth, hset⟩ := denoted_map_member sets
    refine ⟨dashes ++ t ++ more, sets.map .member, .cons hs.text hmore, ?_, hdepth, fun c => ?_⟩
    · rw [List.append_assoc dashes, hopen]
    · rw [hset, hsets, ← or_assoc, ← hP]
      simp

end

/-- **Negated sets.** When the texts of its members do not run on into each other, the negation of a
set is compiled, and matches one character that no member matches alone. -/
theorem compile_negatedText_of_apart (xs : List Content) (hne : xs ≠ [])
    (hxs : ∀ x ∈ xs, IsMember x) (hcompiles : ∀ x ∈ xs, ∃ q, Pattern.compile x.render = .ok q)
    (hapart : xs.IsChain Apart) :
    ∃ p, Pattern.compile (negatedText xs) = .ok p ∧
      p.MatchesOneOf fun c => ∀ x ∈ xs, ¬MatchesAlone x c := by
  obtain ⟨x, xs, rfl⟩ := List.exists_cons_of_ne_nil hne
  have hread : ∀ y ∈ x :: xs, ∃ s ps, IsRead y s ps := by
    intro y hy
    obtain ⟨q, hq⟩ := hcompiles y hy
    exact exists_isRead (hxs y hy) hq
  obtain ⟨s, ps, hunion, hopen, hdepth, hset⟩ :=
    exists_opening_union (List.forall_mem_cons.1 hxs).2 hread hapart
  have hb := bracket?_complement (s ++ [']'])
  rw [hopen] at hb
  obtain ⟨p, hp, hmatches⟩ := exists_compile_of_bracket? (pieces_negatedText hxs hunion) hb hdepth
  refine ⟨p, hp, hmatches.congr fun c => ?_⟩
  rw [CharSet.contains_compl, Bool.not_eq_true', ← Bool.not_eq_true, hset]
  simp

/-- All but the small letters, the digits and the line below: the members stand apart. -/
theorem compile_negatedText_letters :
    ∃ p, Pattern.compile (negatedText [.charSet ['[', 'a', '-', 'z', ']'],
        .range ['\'', '0', '\''] ['\'', '9', '\''], .literal ['\'', '_', '\'']]) = .ok p ∧
      p.MatchesOneOf fun c => ∀ x ∈ ([.charSet ['[', 'a', '-', 'z', ']'],
        .range ['\'', '0', '\''] ['\'', '9', '\''], .literal ['\'', '_', '\'']] : List Content),
          ¬MatchesAlone x c := by
  have hwhole (c : Char) (hc : c ∉ ['\\', '\'']) : Lexeme.IsWhole ⟨.literal, ['\'', c, '\'']⟩ := by
    simp only [List.mem_cons, List.not_mem_nil, or_false, not_or] at hc
    exact isWhole_literal (s := [c]) (.plain hc.1 hc.2 .nil)
  have hzero := hwhole '0' (by decide)
  have hnine := hwhole '9' (by decide)
  have hline := hwhole '_' (by decide)
  have hletters := isLegible_itemsText [.plain 'a' (by decide), .dash, .plain 'z' (by decide)]
  refine compile_negatedText_of_apart _ (by simp) ?_ ?_ ?_
  · simp only [List.forall_mem_cons]
    exact ⟨.charSet hletters (by decide), .range hzero hnine, .literal hline rfl, by simp⟩
  · obtain ⟨p, hp, -⟩ := @exists_compile_class
      [.plain 'a' (by decide), .dash, .plain 'z' (by decide)] (by decide) (by decide)
    obtain ⟨q, hq, -⟩ := exists_compile_range hzero hnine rfl rfl (by decide)
    obtain ⟨r, hr, -⟩ := exists_compile_literal hline
    simp only [List.forall_mem_cons]
    exact ⟨⟨p, hp⟩, ⟨q, hq⟩, ⟨r, hr⟩, by simp⟩
  · have hclass := @standsApart_charSet [.plain 'a' (by decide), .dash, .plain 'z' (by decide)]
      (by simp) (by decide) (by decide) (by decide) (by decide)
    rw [List.isChain_cons_cons, List.isChain_cons_cons]
    exact ⟨hclass.apart (standsApart_range _ _),
      (standsApart_range _ _).apart (standsApart_literal _), .singleton _⟩

end GrammarLab.Pattern
