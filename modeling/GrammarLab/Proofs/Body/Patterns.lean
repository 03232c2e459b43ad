import GrammarLab.Proofs.Body.Legible

/-!
# Patterns of tokens

Each kind of token has a pattern, which tells of a text whether it is a token of that kind, and says
nothing of what stands behind it. At each place the lexer takes the longest text that fits any
pattern; no other pattern fits that text, so the order of the patterns does not matter. There is
garbage only where nothing fits.

    leading c cs = (k, n) ↔ IsLongest k (c :: cs.take n) (cs.drop n)          (leading_eq_iff)
-/

namespace GrammarLab.Body

open Text

/-- The text of a comment in front of the star and the slash that close it: a star takes along the
character behind it, which is no slash. -/
inductive Starred : List Char → Prop
  | nil : Starred []
  | pair {c s} : c ≠ '/' → Starred s → Starred ('*' :: c :: s)
  | plain {c s} : c ≠ '*' → Starred s → Starred (c :: s)

/-- The text is a token of the kind. An action goes up to the brace that closes it; unclosed, it can
end anywhere. -/
def TokenKind.Fits (k : TokenKind) (s : List Char) : Prop :=
  match k with
  | literal => ∃ body, s = '\'' :: (body ++ ['\'']) ∧ Quotable '\'' body
  | charClass => ∃ body, s = '[' :: (body ++ [']']) ∧ Quotable ']' body
  | action => ∃ body, s = '\x7b' :: body ∧ actionLength 0 .code body = body.length
  | ident => ∃ c cs, s = c :: cs ∧ isWordStart c = true ∧ ∀ d ∈ cs, isWordChar d = true
  | blank => s ≠ [] ∧ ∀ c ∈ s, isBlank c = true
  | lineComment => ∃ body, s = '/' :: '/' :: body ∧ ∀ c ∈ body, c ≠ '\n'
  | blockComment => ∃ body, s = '/' :: '*' :: (body ++ ['*', '/']) ∧ Starred body
  | garbage => False
  | k => k.spelled? = some s

/-- The text fits the pattern of the kind, no other pattern fits it, and none fits it with more of
what stands behind it. -/
structure IsLongest (k : TokenKind) (text rest : List Char) : Prop where
  fits : k.Fits text
  longest : ∀ j more, more <+: rest → j.Fits (text ++ more) → j = k ∧ more = []

/-- No pattern fits the beginning of the text. -/
def FitsNothing (s : List Char) : Prop := ∀ j text, text <+: s → ¬TokenKind.Fits j text

/-- What the lexer makes of a place: the longest token, or garbage where there is none. -/
def Lexeme.IsMunched (l : Lexeme) (rest : List Char) : Prop :=
  if l.kind = .garbage then FitsNothing (l.text ++ rest) else IsLongest l.kind l.text rest

variable {c : Char} {s u : List Char} {j k : TokenKind}

/-! ## Delimited tokens -/

theorem exists_starred_of_commentReach (h : (commentReach s).closed = true) :
    ∃ body, s.take (commentReach s).length = body ++ ['*', '/'] ∧ Starred body := by
  fun_induction commentReach s with
  | case1 => cases h
  | case2 => cases h
  | case3 ds => exact ⟨[], rfl, .nil⟩
  | case4 d ds hd ih =>
    obtain ⟨body, hbody, hstarred⟩ := ih h
    refine ⟨'*' :: d :: body, ?_, .pair hd hstarred⟩
    simp [Reach.beyond, Nat.add_comm 2, hbody]
  | case5 c cs hc ih =>
    obtain ⟨body, hbody, hstarred⟩ := ih h
    refine ⟨c :: body, ?_, .plain hc hstarred⟩
    simp [Reach.beyond, Nat.add_comm 1, hbody]

theorem quotedReach_closed_append {close : Char} {body : List Char} (hclose : close ≠ '\\')
    (h : Quotable close body) (rest : List Char) :
    quotedReach close (body ++ [close] ++ rest) = ⟨true, (body ++ [close]).length⟩ := by
  have hreach := quotedReach_of_quotable hclose h
  rw [quotedReach_append (by rw [hreach]), hreach]

theorem commentReach_closed_append {body : List Char} (h : Starred body) (rest : List Char) :
    commentReach (body ++ ['*', '/'] ++ rest) = ⟨true, (body ++ ['*', '/']).length⟩ := by
  induction h with
  | nil => simp [commentReach]
  | @pair c s hc _ ih =>
    simp only [List.cons_append] at ih ⊢
    rw [commentReach.eq_def]
    simp only [if_true, hc, if_false, ih, Reach.beyond, List.length_cons, Reach.mk.injEq, true_and]
    omega
  | @plain c s hc _ ih =>
    simp only [List.cons_append] at ih ⊢
    rw [commentReach.eq_def]
    simp only [hc, if_false, ih, Reach.beyond, List.length_cons, Reach.mk.injEq, true_and]
    omega

/-- With more text behind it an action is cut off where it was or farther on. -/
theorem actionLength_append_le (depth : Nat) (state : ActionState) (u v : List Char) :
    actionLength depth state u ≤ actionLength depth state (u ++ v) := by
  by_cases h : actionLength depth state (u ++ v) ≤ u.length
  · have htake := actionLength_take h
    rw [List.take_left] at htake
    exact Nat.le_of_eq htake
  · have hle := actionLength_le depth state u
    omega

/-! ## Operators -/

theorem fits_of_spelled (h : k.spelled? = some s) : k.Fits s := by
  cases k <;> first | exact h | cases h

theorem ne_garbage_of_spelled (h : k.spelled? = some s) : k ≠ .garbage := by
  rintro rfl
  cases h

theorem operator_of_spelled (h : k.spelled? = some (c :: u)) :
    (u = [] ∧ operator? c = some k) ∨ ∃ d, u = [d] ∧ operatorPair? c d = some k := by
  cases k
  all_goals first
    | cases h; exact .inl ⟨rfl, rfl⟩
    | cases h; exact .inr ⟨_, rfl, rfl⟩
    | cases h

theorem leading_of_operatorPair? {d : Char} (h : operatorPair? c d = some k) (cs : List Char) :
    leading c (d :: cs) = (k, 1) := by
  have hat : operatorAt c (d :: cs) = (k, 1) := by simp only [operatorAt, h]
  rw [← hat]
  simp only [operatorPair?, Bool.and_eq_true, decide_eq_true_eq] at h
  repeat' split at h
  all_goals first
    | (rename_i hc
       obtain ⟨rfl, rfl⟩ := hc
       rfl)
    | cases h

theorem fits_operatorAt {cs : List Char} (h : (operatorAt c cs).1 ≠ .garbage) :
    (operatorAt c cs).1.Fits (c :: cs.take (operatorAt c cs).2) := by
  have hsingle (h : (single c).1 ≠ .garbage) : (single c).1.Fits (c :: cs.take (single c).2) := by
    cases hc : operator? c with
    | none => simp [single, hc] at h
    | some k =>
      simp only [single, hc, Option.getD_some, List.take_zero]
      exact fits_of_spelled (spelled?_of_operator? hc).1
  cases cs with
  | nil => exact hsingle h
  | cons d ds =>
    cases hc : operatorPair? c d with
    | none =>
      simp only [operatorAt, hc] at h ⊢
      exact hsingle h
    | some k =>
      simp only [operatorAt, hc, List.take_succ_cons, List.take_zero]
      exact fits_of_spelled (spelled?_of_operatorPair? hc).1

/-! ## The longest token -/

theorem fits_leading {cs : List Char} (h : (leading c cs).1 ≠ .garbage) :
    (leading c cs).1.Fits (c :: cs.take (leading c cs).2) := by
  have hdelimited {k : TokenKind} {r : Reach} (h : (delimited k r).1 ≠ .garbage) :
      r.closed = true ∧ delimited k r = (k, r.length) := by
    cases hr : r.closed with
    | false => simp [delimited, hr] at h
    | true => exact ⟨rfl, by simp [delimited, hr]⟩
  have htakeWhile (p : Char → Bool) (t : List Char) :
      ∀ d ∈ t.take (t.takeWhile p).length, p d = true := by
    rw [take_length_takeWhile]
    exact List.all_eq_true.1 List.all_takeWhile
  unfold leading at h ⊢
  split at h
  · rename_i hc
    obtain ⟨hclosed, hreach⟩ := hdelimited h
    obtain ⟨body, hbody, hquotable⟩ := exists_quotable_of_quotedReach hclosed
    rw [if_pos hc, hreach]
    exact ⟨body, by rw [hbody, hc], hquotable⟩
  rename_i hquote
  rw [if_neg hquote]
  split at h
  · rename_i hc
    obtain ⟨hclosed, hreach⟩ := hdelimited h
    obtain ⟨body, hbody, hquotable⟩ := exists_quotable_of_quotedReach hclosed
    rw [if_pos hc, hreach]
    exact ⟨body, by rw [hbody, hc], hquotable⟩
  rename_i hbracket
  rw [if_neg hbracket]
  split at h
  · rename_i hc
    rw [if_pos hc]
    refine ⟨cs.take (actionLength 0 .code cs), by rw [hc], ?_⟩
    rw [actionLength_take (Nat.le_refl _), List.length_take_of_le (actionLength_le _ _ _)]
  rename_i hbrace
  rw [if_neg hbrace]
  split at h
  · rename_i hc
    rw [if_pos hc]
    subst hc
    split at h
    · rename_i rest
      refine ⟨rest.take (rest.takeWhile (· ≠ '\n')).length, ?_, ?_⟩
      · rw [Nat.add_comm, List.take_succ_cons]
      · intro d hd
        exact of_decide_eq_true (htakeWhile _ rest d hd)
    · rename_i rest
      obtain ⟨hclosed, hreach⟩ := hdelimited h
      obtain ⟨body, hbody, hstarred⟩ := exists_starred_of_commentReach (s := rest) hclosed
      rw [hreach]
      refine ⟨body, ?_, hstarred⟩
      show '/' :: ('*' :: rest).take (1 + (commentReach rest).length) = _
      rw [Nat.add_comm, List.take_succ_cons, hbody]
    · exact absurd rfl h
  rename_i hslash
  rw [if_neg hslash]
  split at h
  · rename_i hc
    rw [if_pos hc]
    exact ⟨List.cons_ne_nil _ _, List.forall_mem_cons.2 ⟨hc, htakeWhile isBlank cs⟩⟩
  rename_i hblank
  rw [if_neg hblank]
  split at h
  · rename_i hc
    rw [if_pos hc]
    exact ⟨c, _, rfl, hc, htakeWhile isWordChar cs⟩
  · rename_i hword
    rw [if_neg hword]
    exact fits_operatorAt h

/-- A text that fits a pattern is cut off behind its end or farther on. -/
def ReachesOver (j : TokenKind) (n : Nat) (r : TokenKind × Nat) : Prop :=
  r = (j, n) ∨ n < r.2 ∧ r.1 ≠ .garbage

theorem reachesOver_of_le {n m : Nat} (hk : k ≠ .garbage) (h : n ≤ m) :
    ReachesOver k n (k, m) := by
  rcases Nat.lt_or_eq_of_le h with hlt | rfl
  · exact .inr ⟨hlt, hk⟩
  · exact .inl rfl

theorem reachesOver_of_spelled (h : k.spelled? = some (c :: u)) (v : List Char) :
    ReachesOver k u.length (leading c (u ++ v)) := by
  rcases operator_of_spelled h with ⟨rfl, hc⟩ | ⟨d, rfl, hpair⟩
  · rw [List.nil_append, leading_of_operator? hc]
    cases v with
    | nil => exact .inl (by simp [operatorAt, single, hc])
    | cons d ds =>
      cases hpair : operatorPair? c d with
      | none => exact .inl (by simp [operatorAt, hpair, single, hc])
      | some l =>
        have hgarbage := ne_garbage_of_spelled (spelled?_of_operatorPair? hpair).1
        exact .inr (by simpa [operatorAt, hpair] using hgarbage)
  · exact .inl (leading_of_operatorPair? hpair v)

theorem reachesOver_of_fits (h : j.Fits (c :: u)) (v : List Char) :
    ReachesOver j u.length (leading c (u ++ v)) := by
  have hrun (p : Char → Bool) {t : List Char} (ht : ∀ d ∈ t, p d = true) :
      t.length ≤ ((t ++ v).takeWhile p).length := by
    rw [List.takeWhile_append_of_pos ht, List.length_append]
    exact Nat.le_add_right _ _
  cases j
  case literal =>
    obtain ⟨body, hs, hquotable⟩ := h
    obtain ⟨rfl, rfl⟩ := List.cons.inj hs
    left
    show delimited .literal (quotedReach '\'' (body ++ ['\''] ++ v)) = _
    rw [quotedReach_closed_append (by decide) hquotable]
    rfl
  case charClass =>
    obtain ⟨body, hs, hquotable⟩ := h
    obtain ⟨rfl, rfl⟩ := List.cons.inj hs
    left
    show delimited .charClass (quotedReach ']' (body ++ [']'] ++ v)) = _
    rw [quotedReach_closed_append (by decide) hquotable]
    rfl
  case action =>
    obtain ⟨body, hs, hlength⟩ := h
    obtain ⟨rfl, rfl⟩ := List.cons.inj hs
    have hle := actionLength_append_le 0 .code u v
    rw [hlength] at hle
    exact reachesOver_of_le (by decide) hle
  case ident =>
    obtain ⟨c', cs', hs, hc, hcs⟩ := h
    obtain ⟨rfl, rfl⟩ := List.cons.inj hs
    rw [leading_of_isWordStart hc]
    exact reachesOver_of_le (by decide) (hrun isWordChar hcs)
  case blank =>
    obtain ⟨hc, hcs⟩ := List.forall_mem_cons.1 h.2
    rw [leading_of_isBlank hc]
    exact reachesOver_of_le (by decide) (hrun isBlank hcs)
  case lineComment =>
    obtain ⟨body, hs, hbody⟩ := h
    obtain ⟨rfl, rfl⟩ := List.cons.inj hs
    have hle := hrun (· ≠ '\n') fun d hd => decide_eq_true (hbody d hd)
    refine reachesOver_of_le (by decide) ?_
    rw [List.length_cons, Nat.add_comm]
    exact Nat.add_le_add_left hle 1
  case blockComment =>
    obtain ⟨body, hs, hstarred⟩ := h
    obtain ⟨rfl, rfl⟩ := List.cons.inj hs
    left
    show delimited .blockComment ((commentReach (body ++ ['*', '/'] ++ v)).beyond 1) = _
    rw [commentReach_closed_append hstarred]
    simp [delimited, Reach.beyond, Nat.add_comm 1]
  case garbage => exact h.elim
  all_goals exact reachesOver_of_spelled h v

theorem TokenKind.Fits.exists_cons (h : k.Fits s) : ∃ c u, s = c :: u := by
  apply List.exists_cons_of_ne_nil
  rintro rfl
  cases k <;> simp [TokenKind.Fits, TokenKind.spelled?] at h

/-- A text that fits a pattern is one token by itself. -/
theorem lexemes_of_fits (h : k.Fits s) : lexemes s = [⟨k, s⟩] := by
  obtain ⟨c, u, rfl⟩ := h.exists_cons
  have hreach := reachesOver_of_fits h []
  rw [List.append_nil] at hreach
  rcases hreach with heq | ⟨hlt, -⟩
  · rw [lexemes_cons, heq, List.take_length, List.drop_length, lexemes]
  · have hle := leading_le c u
    omega

/-- What the lexer cuts off at a place is the longest token, or garbage where there is none. -/
theorem isMunched_leading (c : Char) (cs : List Char) :
    Lexeme.IsMunched ⟨(leading c cs).1, c :: cs.take (leading c cs).2⟩
      (cs.drop (leading c cs).2) := by
  unfold Lexeme.IsMunched
  split
  · rename_i hgarbage
    have hgarbage : (leading c cs).1 = .garbage := hgarbage
    show FitsNothing (c :: cs.take (leading c cs).2 ++ cs.drop (leading c cs).2)
    rw [List.cons_append, List.take_append_drop]
    rintro j text ⟨v, hv⟩ hfits
    obtain ⟨d, u, rfl⟩ := hfits.exists_cons
    obtain ⟨rfl, hcs⟩ := List.cons.inj hv
    have hreach := reachesOver_of_fits hfits v
    rw [show u ++ v = cs from hcs] at hreach
    rcases hreach with heq | ⟨-, hkind⟩
    · rw [heq] at hgarbage
      obtain rfl : j = .garbage := hgarbage
      exact hfits
    · exact hkind hgarbage
  · rename_i hkind
    refine ⟨fits_leading hkind, ?_⟩
    rintro j more ⟨v, hv⟩ hfits
    have hcs : cs.take (leading c cs).2 ++ more ++ v = cs := by
      rw [List.append_assoc, hv, List.take_append_drop]
    have hlength : (cs.take (leading c cs).2 ++ more).length =
        (leading c cs).2 + more.length := by
      rw [List.length_append, List.length_take_of_le (leading_le c cs)]
    have hreach := reachesOver_of_fits (u := cs.take (leading c cs).2 ++ more) hfits v
    rw [hcs, hlength] at hreach
    rcases hreach with heq | ⟨hlt, -⟩
    · have hn : (leading c cs).2 = (leading c cs).2 + more.length := congrArg Prod.snd heq
      refine ⟨(congrArg Prod.fst heq).symm, List.length_eq_zero_iff.1 ?_⟩
      omega
    · omega

theorem IsLongest.unique {text text' rest rest' : List Char} (h : IsLongest j text rest)
    (h' : IsLongest k text' rest') (heq : text ++ rest = text' ++ rest') :
    j = k ∧ text = text' := by
  have hprefix : text' <+: text ++ rest := by
    rw [heq]
    exact List.prefix_append text' rest'
  rcases List.prefix_or_prefix_of_prefix (List.prefix_append text rest) hprefix with
    ⟨more, rfl⟩ | ⟨more, rfl⟩
  · rw [List.append_assoc, List.append_cancel_left_eq] at heq
    obtain ⟨rfl, rfl⟩ := h.longest k more ⟨rest', heq.symm⟩ h'.fits
    exact ⟨rfl, (List.append_nil text).symm⟩
  · rw [List.append_assoc, List.append_cancel_left_eq] at heq
    obtain ⟨rfl, rfl⟩ := h'.longest j more ⟨rest, heq⟩ h.fits
    exact ⟨rfl, List.append_nil text'⟩

/-- The patterns alone determine which token is cut off. -/
theorem leading_eq_iff {cs : List Char} {n : Nat} (hk : k ≠ .garbage) (hn : n ≤ cs.length) :
    leading c cs = (k, n) ↔ IsLongest k (c :: cs.take n) (cs.drop n) := by
  have hmunched := isMunched_leading c cs
  unfold Lexeme.IsMunched at hmunched
  constructor
  · intro h
    rw [h, if_neg hk] at hmunched
    exact hmunched
  · intro h
    split at hmunched
    · refine absurd h.fits (hmunched k _ ⟨cs.drop n, ?_⟩)
      simp only [List.cons_append, List.take_append_drop]
    · have heq : c :: cs.take (leading c cs).2 ++ cs.drop (leading c cs).2 =
          c :: cs.take n ++ cs.drop n := by
        simp only [List.cons_append, List.take_append_drop]
      obtain ⟨hkind, htext⟩ := hmunched.unique h heq
      have hlength := congrArg List.length (List.cons.inj htext).2
      rw [List.length_take_of_le (leading_le c cs), List.length_take_of_le hn] at hlength
      exact Prod.ext hkind hlength

end GrammarLab.Body
