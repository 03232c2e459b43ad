import GrammarLab.Proofs.Body.Coverage

/-!
# Bodies that are their own written form

Whatever reading a body loses or makes up shows in the characters of the written form. So a body
that equals the written form of its structure has been read in full: its tokens are the words of
the structure.

    (Structure.parse body).render = body →
      (significant body).map Token.lexeme = wordsIn (alternativesScript alternatives)
-/

namespace GrammarLab.Body

/-- The number of characters `c` in the texts of the lexemes. -/
def marks (c : Char) (ls : List Lexeme) : Nat := (textOf ls).count c

/-! ## Counts -/

theorem marks_append (c : Char) (S T : List Lexeme) : marks c (S ++ T) = marks c S + marks c T := by
  rw [marks, textOf_append, List.count_append]
  rfl

theorem marks_cons (c : Char) (l : Lexeme) (S : List Lexeme) :
    marks c (l :: S) = l.text.count c + marks c S := by
  rw [marks, textOf_cons, List.count_append]
  rfl

theorem marks_replicate_close (c : Char) (n : Nat) :
    marks c (List.replicate n closeLexeme) = if c = ')' then n else 0 := by
  induction n with
  | zero => simp [marks, textOf]
  | succ n ih =>
    rw [List.replicate_succ, marks_cons, ih]
    by_cases hc : c = ')'
    · simp [hc, closeLexeme]; omega
    · simp [hc, closeLexeme, Ne.symm hc]

/-- The lexemes that are no words. -/
def triviaIn (ls : List Lexeme) : List Lexeme := ls.filter (·.kind.isTrivia)

theorem countP_textOf (p : Char → Bool) (ls : List Lexeme) :
    (textOf ls).countP p = (textOf (wordsIn ls)).countP p + (textOf (triviaIn ls)).countP p := by
  induction ls with
  | nil => rfl
  | cons l ls ih =>
    rw [textOf_cons, List.countP_append, ih]
    cases hl : l.kind.isTrivia with
    | true =>
      simp only [wordsIn, triviaIn, List.filter_cons, hl, Bool.not_true, Bool.false_eq_true,
        if_true, if_false, textOf_cons, List.countP_append]
      omega
    | false =>
      simp only [wordsIn, triviaIn, List.filter_cons, hl, Bool.not_false, Bool.false_eq_true,
        if_true, if_false, textOf_cons, List.countP_append]
      omega

/-- In a script only blanks are no words. -/
theorem countP_textOf_script (p : Char → Bool) (hp : p ' ' = false) {S : List Lexeme}
    (h : ∀ l ∈ S, l.IsWritten) : (textOf S).countP p = (textOf (wordsIn S)).countP p := by
  rw [countP_textOf]
  have hzero : (textOf (triviaIn S)).countP p = 0 := by
    induction S with
    | nil => rfl
    | cons l S ih =>
      obtain ⟨hl, hS⟩ := List.forall_mem_cons.1 h
      rcases hl with rfl | ⟨hl, -⟩
      · show (' ' :: textOf (triviaIn S)).countP p = 0
        rw [List.countP_cons_of_neg (by simp [hp])]
        exact ih hS
      · simp only [triviaIn, List.filter_cons, hl, Bool.false_eq_true, if_false]
        exact ih hS
  omega

/-- Trivia without weight are blanks. -/
theorem marks_of_weightless {c : Char} (hc : isBlank c = false) {ls : List Lexeme}
    (hreg : ∀ l ∈ ls, l.Regular) (hw : weight (textOf (triviaIn ls)) = 0) :
    marks c (triviaIn ls) = 0 := by
  induction ls with
  | nil => rfl
  | cons l ls ih =>
    obtain ⟨hl, hls⟩ := List.forall_mem_cons.1 hreg
    cases ht : l.kind.isTrivia with
    | false =>
      simp only [triviaIn, List.filter_cons, ht, Bool.false_eq_true, if_false] at hw ⊢
      exact ih hls hw
    | true =>
      simp only [triviaIn, List.filter_cons, ht, if_true] at hw ⊢
      rw [textOf_cons, weight_append, Nat.add_eq_zero_iff] at hw
      rw [marks_cons, show marks c (ls.filter (·.kind.isTrivia)) = 0 from ih hls hw.2]
      rw [Nat.add_zero, List.count_eq_zero]
      intro hmem
      by_cases hk : l.kind = .blank
      · simp [hl.blank hk c hmem] at hc
      · obtain ⟨d, ds, htext, hblank, -, hmark⟩ := hl.head
        have hd := hblank hk
        have hm := hmark (by rintro h; simp [h, TokenKind.isTrivia] at ht)
          (by rintro h; simp [h, TokenKind.isTrivia] at ht)
        have hsp : d ≠ ' ' := by
          rintro rfl
          simp [isBlank] at hd
        rw [htext, weight, List.countP_cons_of_pos (by simp [hsp, hm])] at hw
        omega

/-! ## Whole bodies -/

/-- The alternatives of a whole body lose weight, or gain pipes for stray parentheses, or hold all
the tokens, but for parentheses that are missing at the end. -/
structure ReadsAll (ts : List Token) (bs : List Branch) : Prop where
  nonempty : bs ≠ []
  proper : properBranches bs = true
  le : weight (textOf (wordsIn (branchesScript true bs))) ≤
    weight (textOf (ts.map Token.lexeme))
  cases : weight (textOf (wordsIn (branchesScript true bs))) <
      weight (textOf (ts.map Token.lexeme)) ∨
    marks '|' (ts.map Token.lexeme) < marks '|' (wordsIn (branchesScript true bs)) ∨
    ∃ n, ts.map Token.lexeme ++ List.replicate n closeLexeme = wordsIn (branchesScript true bs)

theorem properBranches_append {bs cs : List Branch} (hb : properBranches bs = true)
    (hc : properBranches cs = true) : properBranches (bs ++ cs) = true := by
  induction bs with
  | nil => exact hc
  | cons b bs ih =>
    obtain ⟨elements, _, _, _⟩ := b
    rw [properBranches, Bool.and_eq_true] at hb
    rw [List.cons_append, properBranches, hb.1, ih hb.2]
    rfl

theorem readsAll_stray {ts rest : List Token} {c : Token} {bs cs : List Branch}
    (hclose : c.lexeme = closeLexeme) (hb : ReadsBranches ts (bs, c :: rest))
    (hc : ReadsAll rest cs) : ReadsAll ts (bs ++ cs) := by
  have hne : bs ≠ [] := hb.nonempty
  have hwords := wordsIn_branchesScript_append hne hc.nonempty
  have hpipe : weight pipeLexeme.text = 0 := rfl
  have hcov : Covers ts (wordsIn (branchesScript true bs)) (c :: rest) := hb.covers
  have hle := hcov.le
  have hcle := hc.le
  simp only [List.map_cons, hclose, textOf_cons, weight_append] at hle
  have hclosing : weight closeLexeme.text = 0 := rfl
  refine ⟨by simp [hne], properBranches_append hb.proper hc.proper, ?_, ?_⟩
  · rw [hwords, weight_textOf_append, textOf_cons, weight_append]
    omega
  · rw [hwords, weight_textOf_append, textOf_cons, weight_append, marks_append, marks_cons]
    rcases hcov with h | ⟨n, h, hn⟩
    · left
      simp only [List.map_cons, hclose, textOf_cons, weight_append] at h
      omega
    · obtain rfl : n = 0 := by simpa using hn
      rw [List.replicate_zero, List.append_nil, List.map_cons, hclose] at h
      rw [h, weight_textOf_append, textOf_cons, weight_append, marks_append, marks_cons]
      have h₁ : pipeLexeme.text.count '|' = 1 := rfl
      have h₂ : closeLexeme.text.count '|' = 0 := rfl
      rcases hc.cases with hlt | hlt | ⟨m, hm⟩
      · left
        omega
      · right
        left
        omega
      · right
        left
        have hmarks := congrArg (marks '|') hm
        rw [marks_append, marks_replicate_close, if_neg (by decide)] at hmarks
        omega

theorem readsAll_allBranches (last fuel : Nat) (ts : List Token) (hts : Lawful ts)
    (hfuel : ts.length < fuel) : ReadsAll ts (allBranches last fuel ts) := by
  induction fuel generalizing ts with
  | zero => omega
  | succ fuel ih =>
    have hb := (reads last (4 * ts.length + 4)).1 ts hts (Nat.le_refl _)
    rw [allBranches]
    split
    · rename_i bs heq
      rw [heq] at hb
      have hle := hb.covers.le
      simp only [List.map_nil, textOf, List.flatMap_nil, weight, List.countP_nil,
        Nat.add_zero] at hle
      refine ⟨hb.nonempty, hb.proper, hle, ?_⟩
      rcases hb.covers with h | ⟨n, h, -⟩
      · exact .inl (by simpa [textOf, weight] using h)
      · exact .inr (.inr ⟨n, by simpa using h⟩)
    · rename_i bs c rest heq
      rw [heq] at hb
      have hclose : c.kind = .parenClose := hb.stop c (by simp)
      have hlaw := hts.of_suffix hb.suffix
      have hlen := hb.suffix.length_le
      simp only [List.length_cons] at hlen
      refine readsAll_stray ?_ hb
        (ih rest (hlaw.of_suffix (List.suffix_cons c rest)) (by omega))
      rw [lexeme_of_spelled? (hlaw c List.mem_cons_self).1 (by rw [hclose]; rfl), hclose]
      rfl

theorem lawful_significant (body : List Char) : Lawful (significant body) := by
  intro t ht
  refine ⟨?_, by simpa using (List.mem_filter.1 ht).2⟩
  have hmem : t.lexeme ∈ wordsIn (joinGarbage (lexemes body)) := by
    rw [← map_lexeme_significant]
    exact List.mem_map_of_mem ht
  exact regular_lexemes body _ (List.mem_filter.1 hmem).1

/-- The structure of a body is read of all its tokens. -/
theorem readsAll_parse (body : List Char) :
    ReadsAll (significant body) (Structure.parse body).alternatives :=
  readsAll_allBranches _ _ _ (lawful_significant body) (Nat.lt_succ_self _)

/-- The tokens of a body that is the written form of its structure are the words of the
structure. -/
theorem map_lexeme_significant_of_render {body : List Char}
    (h : (Structure.parse body).render = body) :
    (significant body).map Token.lexeme =
      wordsIn (alternativesScript (Structure.parse body).alternatives) := by
  obtain ⟨-, -, hle, hcases⟩ := readsAll_parse body
  rw [← wordsIn_alternativesScript] at hle hcases
  have hrender : textOf (alternativesScript (Structure.parse body).alternatives) = body := by
    rw [textOf_alternativesScript, h]
  have hbody : textOf (joinGarbage (lexemes body)) = body :=
    (flatMap_text_joinGarbage _).trans (flatMap_text_lexemes body)
  -- the body counted as the text of its tokens and as that of the structure
  have hcount (p : Char → Bool) (hp : p ' ' = false) :
      (textOf (wordsIn (alternativesScript (Structure.parse body).alternatives))).countP p =
        (textOf ((significant body).map Token.lexeme)).countP p +
          (textOf (triviaIn (joinGarbage (lexemes body)))).countP p := by
    rw [← countP_textOf_script p hp (isWritten_alternativesScript _), hrender,
      map_lexeme_significant, ← countP_textOf, hbody]
  have hweight := hcount (fun c => c ≠ ' ' && c ≠ '|' && c ≠ ')') rfl
  have hw : weight (textOf (triviaIn (joinGarbage (lexemes body)))) = 0 := by
    unfold weight at hle ⊢
    omega
  have hmarks (c : Char) (hc : isBlank c = false) :
      marks c (wordsIn (alternativesScript (Structure.parse body).alternatives)) =
        marks c ((significant body).map Token.lexeme) := by
    have hsp : ((fun d => d == c) ' ') = false := by
      rw [beq_eq_false_iff_ne]
      rintro rfl
      simp [isBlank] at hc
    have hz : (textOf (triviaIn (joinGarbage (lexemes body)))).countP (fun d => d == c) = 0 :=
      marks_of_weightless hc (regular_lexemes body) hw
    have hc := hcount (fun d => d == c) hsp
    rw [hz, Nat.add_zero] at hc
    exact hc
  rcases hcases with hlt | hlt | ⟨n, hn⟩
  · unfold weight at hlt
    omega
  · rw [hmarks '|' rfl] at hlt
    omega
  · have hclose := congrArg (marks ')') hn
    rw [marks_append, marks_replicate_close, if_pos rfl, hmarks ')' rfl] at hclose
    obtain rfl : n = 0 := by omega
    simpa using hn

/-- A body that is its own written form, and what is known of its structure. -/
structure IsWritten (body : List Char) (bs : List Branch) : Prop where
  tokens : (significant body).map Token.lexeme = wordsIn (alternativesScript bs)
  lexed : Lexed (alternativesScript bs)
  spaced : Spaced (alternativesScript bs)
  nonempty : bs ≠ []
  proper : properBranches bs = true

theorem isWritten_of_render {body : List Char} (h : (Structure.parse body).render = body) :
    IsWritten body (Structure.parse body).alternatives := by
  have htokens := map_lexeme_significant_of_render h
  have hread := readsAll_parse body
  have hwritten := isWritten_alternativesScript (Structure.parse body).alternatives
  refine ⟨htokens, ?_, ?_, hread.nonempty, hread.proper⟩
  · unfold Lexed
    rw [textOf_alternativesScript, h, words_of_significant, htokens]
    intro t ht hk
    have hmem : t.lexeme ∈ wordsIn (alternativesScript (Structure.parse body).alternatives) := by
      rw [← htokens]
      exact List.mem_map_of_mem ht
    obtain ⟨hmem, -⟩ := List.mem_filter.1 hmem
    rcases hwritten _ hmem with hs | ⟨-, hg⟩
    · have hk' : t.kind = .blank := congrArg Lexeme.kind hs
      simp [hk] at hk'
    · exact hg hk
  · intro l hl
    rcases hwritten l hl with hs | ⟨ht, hg⟩
    · exact .inl hs
    · right
      have hmem : l ∈ wordsIn (alternativesScript (Structure.parse body).alternatives) :=
        List.mem_filter.2 ⟨hl, by simp [ht]⟩
      rw [← htokens] at hmem
      obtain ⟨t, htm, rfl⟩ := List.mem_map.1 hmem
      obtain ⟨c, cs, htext, hblank, hslash, -⟩ := (lawful_significant body t htm).1.head
      refine ⟨ht, c, cs, htext, hblank fun hk => ?_, hslash ht hg⟩
      rw [hk] at ht
      simp [TokenKind.isTrivia] at ht

end GrammarLab.Body
