import GrammarLab.Proofs.Body.Legible
import GrammarLab.Proofs.Pattern.Matching
import GrammarLab.Proofs.Pattern.Translation
import GrammarLab.Proofs.Regex.Members

/-!
# Patterns of single characters

A class or a range of literals is compiled to the set that the expression language reads in the
text between its brackets, and the negation of one to the complement of that set.

    bracket? (inner ++ [']']) = some (b, []) → b.depth ≤ maxDepth →
      ∃ p, Pattern.compile body = .ok p ∧ p.MatchesOneOf (b.set.contains · = true)
                                                                (exists_compile_of_bracket?)
-/

namespace GrammarLab.Pattern

open Body Regex

/-- The pattern matches the single characters that satisfy `P` and nothing else. -/
def MatchesOneOf (p : Pattern) (P : Char → Prop) : Prop :=
  ∀ s, p.matchesWhole s = true ↔ ∃ c, s = [c] ∧ P c

/-- `MemberText c s`: for `c` as a member of a set, `s` is written inside the class. -/
inductive MemberText : Content → List Char → Prop
  | charSet {text s} : classText? ((text.drop 1).dropLast) = some s → MemberText (.charSet text) s
  | literal {quoted c} : Literal.unescape quoted = [c] → MemberText (.literal quoted) (charText c)
  | range {first last lo hi} : Literal.unescape first = [lo] → Literal.unescape last = [hi] →
      MemberText (.range first last) (charText lo ++ '-' :: charText hi)

/-! ## Expressions of one class -/

section

variable {p : Pattern} {P Q : Char → Prop} {body inner : List Char} {b : Bracketed}

theorem MatchesOneOf.congr (h : p.MatchesOneOf P) (hPQ : ∀ c, P c ↔ Q c) : p.MatchesOneOf Q :=
  fun s => (h s).trans (exists_congr fun c => and_congr_right fun _ => hPQ c)

theorem MatchesOneOf.iff (h : p.MatchesOneOf P) (c : Char) : p.matchesWhole [c] = true ↔ P c := by
  rw [h]
  constructor
  · rintro ⟨d, hd, hP⟩
    obtain rfl : c = d := by simpa using hd
    exact hP
  · exact fun hP => ⟨c, rfl, hP⟩

theorem matchesOneOf_set {m : CharSet} (hlazy : p.isLazy = false) (hregex : p.regex = .set m) :
    p.MatchesOneOf (fun c => m.contains c = true) := by
  intro s
  rw [matchesWhole_iff, hregex, matches_set_iff]
  constructor
  · rintro ⟨-, hm, -⟩
    exact hm
  · rintro ⟨c, rfl, hc⟩
    exact ⟨by simp, ⟨c, rfl, hc⟩, .inl hlazy⟩

theorem symbol?_of_bracket? (h : bracket? (inner ++ [']']) = some (b, [])) :
    symbol? '[' (inner ++ [']']) = some (.atom b.set b.depth, []) := by
  show (bracket? _).map _ = _
  rw [h]
  rfl

theorem exists_compile_of_bracket?
    (hpieces : pieces (significant body) = [.text ('[' :: inner ++ [']'])])
    (hb : bracket? (inner ++ [']']) = some (b, [])) (hd : b.depth ≤ maxDepth) :
    ∃ p, Pattern.compile body = .ok p ∧ p.MatchesOneOf (fun c => b.set.contains c = true) := by
  obtain ⟨p, hp, hlazy, hregex⟩ := compile_of_class hpieces (symbol?_of_bracket? hb) hd
  exact ⟨p, hp, matchesOneOf_set hlazy hregex⟩

theorem head?_append_of_classInside (hin : ClassInside inner) (hne : inner ≠ []) :
    (inner ++ [']']).head? ≠ some '^' := by
  rw [List.head?_append_of_ne_nil _ hne]
  exact hin.2

/-- A class without operators is compiled to the union of its members. -/
theorem exists_compile_of_opening? {sets : List CharSet}
    (hpieces : pieces (significant body) = [.text ('[' :: inner ++ [']'])])
    (hin : ClassInside inner) (hne : inner ≠ [])
    (h : opening? (inner ++ [']']) = some (sets.map .member, [])) :
    ∃ p, Pattern.compile body = .ok p ∧
      p.MatchesOneOf fun c => ∃ m ∈ sets, m.contains c = true := by
  obtain ⟨b, hb, hdepth, hset⟩ :=
    exists_bracket?_of_opening? (head?_append_of_classInside hin hne) h
  obtain ⟨p, hp, hmatches⟩ := exists_compile_of_bracket? hpieces hb hdepth
  exact ⟨p, hp, hmatches.congr hset⟩

/-- Behind a caret it is compiled to the complement of the union. -/
theorem exists_compile_complement {sets : List CharSet}
    (hpieces : pieces (significant body) = [.text ('[' :: '^' :: inner ++ [']'])])
    (h : opening? (inner ++ [']']) = some (sets.map .member, [])) :
    ∃ p, Pattern.compile body = .ok p ∧
      p.MatchesOneOf fun c => ¬∃ m ∈ sets, m.contains c = true := by
  obtain ⟨b, hb, hdepth, hset⟩ := exists_bracket?_complement h
  obtain ⟨p, hp, hmatches⟩ := exists_compile_of_bracket? hpieces hb hdepth
  exact ⟨p, hp, hmatches.congr hset⟩

/-- What a class is compiled to has been read from all the text between its brackets. -/
theorem exists_bracket?_of_compile
    (hpieces : pieces (significant body) = [.text ('[' :: inner ++ [']'])])
    (hin : ClassInside inner) (hne : inner ≠ []) (hp : Pattern.compile body = .ok p) :
    ∃ b, bracket? (inner ++ [']']) = some (b, []) ∧ b.depth ≤ maxDepth ∧
      p.MatchesOneOf (fun c => b.set.contains c = true) := by
  have hcaret : inner ≠ ['^'] := by
    rintro rfl
    exact hin.2 rfl
  cases hb : bracket? (inner ++ [']']) with
  | none =>
    have hsymbol : symbol? '[' (inner ++ [']']) = none := by
      show (bracket? _).map _ = _
      rw [hb]
      rfl
    have hparse : parse? ('[' :: inner ++ [']']) = none := by
      rw [parse?, List.cons_append, symbols?_eq_none hsymbol]
      rfl
    rw [compile_of_pieces hpieces, ofSpelling, hparse] at hp
    simp at hp
  | some r =>
    obtain ⟨b, rest⟩ := r
    obtain ⟨rfl, -⟩ := bracket?_append hin.1 hne hcaret hb
    by_cases hd : b.depth ≤ maxDepth
    · obtain ⟨q, hq, hmatches⟩ := exists_compile_of_bracket? hpieces hb hd
      obtain rfl := Except.ok.inj (hq.symm.trans hp)
      exact ⟨b, rfl, hd, hmatches⟩
    · rw [compile_of_pieces hpieces, ofSpelling, parse?_of_class (symbol?_of_bracket? hb),
        if_neg hd] at hp
      simp at hp

end

/-! ## Members of sets -/

theorem writes_charText (c : Char) : Writes (charText c) c := by
  cases h : isMeta c with
  | true =>
    rw [charText_of_isMeta h]
    exact ⟨'\\', [c], rfl, by decide, fun more => by simp [unit?, escape?_of_isMeta h]⟩
  | false =>
    rw [charText_of_not_isMeta h]
    have hne := ne_of_not_isMeta h
    simp only [List.mem_cons, List.not_mem_nil, or_false, not_or] at hne
    exact ⟨c, [], rfl, by simp [hne], fun more => by simp [unit?, hne]⟩

theorem not_endsWithDash_charText (c : Char) : ¬EndsWithDash (charText c) := by
  cases h : isMeta c with
  | true =>
    rw [charText_of_isMeta h]
    exact not_endsWithDash_escaped c
  | false =>
    have hne := ne_of_not_isMeta h
    simp only [List.mem_cons, List.not_mem_nil, or_false, not_or] at hne
    rw [charText_of_not_isMeta h]
    exact not_endsWithDash_concat (by simp [hne]) []

theorem exists_opening_charText (c : Char) :
    ∃ sets : List CharSet, opening? (charText c ++ [']']) = some (sets.map .member, []) ∧
      ∀ d, (∃ m ∈ sets, m.contains d = true) ↔ d = c := by
  have hwrites := writes_charText c
  have hdash := hwrites.head?_ne_dash []
  rw [List.append_nil] at hdash
  obtain ⟨sets, hopen, hsets⟩ := exists_opening [] (by simp) hdash hwrites.ne_nil
    (inside_charText c) (lists_single hwrites) ⟨']', [], rfl, by simp⟩
  exact ⟨sets, hopen, fun d => by simp [hsets]⟩

theorem classInside_range (lo hi : Char) : ClassInside (charText lo ++ '-' :: charText hi) :=
  (classInside_charText lo).append
    ⟨.plain (by decide) (by decide) (inside_charText hi), by simp⟩

theorem exists_opening_range {lo hi : Char} (hle : lo ≤ hi) :
    ∃ sets : List CharSet,
      opening? (charText lo ++ '-' :: charText hi ++ [']']) = some (sets.map .member, []) ∧
        ∀ c, (∃ m ∈ sets, m.contains c = true) ↔ lo ≤ c ∧ c ≤ hi := by
  have hlists := lists_between (writes_charText lo) (writes_charText hi) hle
  obtain ⟨sets, hopen, hsets⟩ := exists_opening [] (by simp)
    ((writes_charText lo).head?_ne_dash ('-' :: charText hi)) (by simp)
    (classInside_range lo hi).1 hlists trivial
  exact ⟨sets, hopen, fun c => by simp [hsets]⟩

theorem exists_inside_of_isWhole {text : List Char} (h : Lexeme.IsWhole ⟨.charClass, text⟩) :
    ∃ body, text = '[' :: body ++ [']'] ∧ Inside body := by
  obtain ⟨cs, htext, hreach⟩ := h
  obtain ⟨body, hbody, hin⟩ := inside_of_quotedReach (s := cs) (by rw [hreach])
  rw [hreach, List.take_length] at hbody
  obtain rfl : text = '[' :: cs := htext
  exact ⟨body, by rw [hbody, List.cons_append], hin⟩

theorem lexemes_of_isLegible {c : Content} (h : c.IsLegible) :
    (significant c.render).map Token.lexeme = wordsIn c.script := by
  apply map_lexeme_significant_render
  have hwords := words_content c h [] (by simp [FollowsContent])
  rwa [List.append_nil, words_nil, List.append_nil] at hwords

section

variable {x : Content} {s : List Char}

theorem MemberText.classInside (h : MemberText x s) (hx : x.IsLegible) : ClassInside s := by
  cases h with
  | charSet hs =>
    obtain ⟨body, rfl, hin⟩ := exists_inside_of_isWhole hx
    rw [List.cons_append, List.drop_one, List.tail_cons, List.dropLast_concat] at hs
    exact inside_of_classText? hs (.inl hin)
  | @literal quoted c _ => exact classInside_charText c
  | @range first last lo hi _ _ =>
    exact classInside_range lo hi

section

variable {t u : Token} {text first last : List Char} {lo hi : Char}

theorem classBody_eq_ok (ht : t.text = text) (h : classText? ((text.drop 1).dropLast) = some s) :
    classBody t = .ok s := by
  rw [classBody, ht, h]

theorem singleChar_eq_ok (ht : t.text = text) (h : Literal.unescape text = [lo]) :
    singleChar t = .ok lo := by
  rw [singleChar, ht, h]

theorem rangeText_eq_ok (ht : t.text = first) (hu : u.text = last)
    (hlo : Literal.unescape first = [lo]) (hhi : Literal.unescape last = [hi]) :
    rangeText t u = .ok (charText lo ++ '-' :: charText hi) := by
  simp only [rangeText, singleChar_eq_ok ht hlo, singleChar_eq_ok hu hhi, bind, Except.bind, pure,
    Except.pure, List.append_assoc, List.singleton_append]

end

/-- A class or a range is one piece. -/
theorem leadingPiece_member (h : MemberText x s) (hset : x.isSet = true) {t : Token}
    {ts : List Token} (hts : (t :: ts).map Token.lexeme = wordsIn x.script) :
    leadingPiece t ts = .ok (.text (classOf s), []) := by
  cases h with
  | charSet hs =>
    obtain ⟨t', ht', ht⟩ := List.map_eq_singleton_iff.1 hts
    obtain ⟨rfl, rfl⟩ := List.cons.inj ht'
    have hk : t.kind = .charClass := kind_of_lexeme ht
    simp only [leadingPiece, hk, reduceCtorEq, if_false, if_true,
      classBody_eq_ok (text_of_lexeme ht) hs]
    rfl
  | literal hc => simp [Content.isSet] at hset
  | range hlo hhi =>
    obtain ⟨t', op, l, ht', ht, hl, hk, hkop, hkl⟩ := exists_of_range_words hts
    obtain ⟨rfl, rfl⟩ := List.cons.inj ht'
    simp only [leadingPiece, hk, if_true, rangeEnd?_range hkop hkl,
      rangeText_eq_ok (text_of_lexeme ht) (text_of_lexeme hl) hlo hhi]
    rfl

theorem classOf_of_ne_nil (hs : s ≠ []) : classOf s = '[' :: s ++ [']'] := by
  rw [classOf, if_neg (by simpa using hs)]
  rfl

theorem pieces_member (h : MemberText x s) (hset : x.isSet = true) (hx : x.IsLegible)
    (hs : s ≠ []) : pieces (significant x.render) = [.text ('[' :: s ++ [']'])] := by
  rw [← classOf_of_ne_nil hs]
  exact pieces_of_words (wordsIn_ne_nil_of_isSet hset) (lexemes_of_isLegible hx)
    fun t ts => leadingPiece_member h hset

/-- The negation of a class is one piece too. -/
theorem pieces_negatedClass {text : List Char} (h : MemberText (.charSet text) s)
    (hx : (Content.charSet text).IsLegible) :
    pieces (significant (Content.negated (.charSet text)).render) =
      [.text ('[' :: '^' :: s ++ [']'])] := by
  refine pieces_of_words (W := wordsIn (Content.negated (.charSet text)).script)
    (wordsIn_ne_nil_of_isSet rfl) (lexemes_of_isLegible hx) fun t ts hts => ?_
  obtain ⟨t', ts', hcons, ht, hts⟩ := List.map_eq_cons_iff.1 hts
  obtain ⟨rfl, rfl⟩ := List.cons.inj hcons
  obtain ⟨u, rfl, hu⟩ := List.map_eq_singleton_iff.1 hts
  have hk : t.kind = .tilde := kind_of_lexeme ht
  have hk' : u.kind = .charClass := kind_of_lexeme hu
  cases h with
  | charSet hs =>
    simp only [leadingPiece, hk, reduceCtorEq, if_false, if_true, negatedSet, hk',
      classBody_eq_ok (text_of_lexeme hu) hs]
    rfl

theorem setMembers_literal {t : Token} {ts behind rest : List Token} {more : List Char}
    (hk : t.kind = .literal) (hmember : literalMember t ts = .ok (s, behind))
    (hmore : setMembers behind = .ok (more, rest)) :
    setMembers (t :: ts) = .ok (s ++ more, rest) := by
  rw [setMembers, if_neg (by simp [hk]), if_neg (by simp [hk]), if_neg (by simp [hk]), if_pos hk]
  split
  · simp_all
  · rename_i he
    obtain ⟨rfl, rfl⟩ := Prod.mk.inj (Except.ok.inj (hmember.symm.trans he))
    rw [hmore]
    rfl

/-- The tokens of a member put its text in front of what the tokens behind them add. -/
theorem setMembers_member (h : MemberText x s) {ts rest rest' : List Token} {more : List Char}
    (hts : ts.map Token.lexeme = wordsIn x.script) (hrange : NoRange rest)
    (hmore : setMembers rest = .ok (more, rest')) :
    setMembers (ts ++ rest) = .ok (s ++ more, rest') := by
  cases h with
  | charSet hs =>
    obtain ⟨t, rfl, ht⟩ := List.map_eq_singleton_iff.1 hts
    have hk : t.kind = .charClass := kind_of_lexeme ht
    rw [List.singleton_append, setMembers]
    simp only [hk, reduceCtorEq, if_false, if_true, classBody_eq_ok (text_of_lexeme ht) hs, hmore]
    rfl
  | literal hc =>
    obtain ⟨t, rfl, ht⟩ := List.map_eq_singleton_iff.1 hts
    have hk : t.kind = .literal := kind_of_lexeme ht
    rw [List.singleton_append]
    refine setMembers_literal hk ?_ hmore
    simp only [literalMember, rangeEnd?_of_noRange hrange, singleChar_eq_ok (text_of_lexeme ht) hc]
    rfl
  | range hlo hhi =>
    obtain ⟨t, op, l, rfl, ht, hl, hk, hkop, hkl⟩ := exists_of_range_words hts
    rw [List.cons_append, List.cons_append, List.singleton_append]
    refine setMembers_literal hk ?_ hmore
    simp only [literalMember, rangeEnd?_range hkop hkl,
      rangeText_eq_ok (text_of_lexeme ht) (text_of_lexeme hl) hlo hhi]
    rfl

end

end GrammarLab.Pattern
