import GrammarLab.Body.Lexer
import GrammarLab.Proofs.Regex.Bracket

/-!
# Words of rule bodies

The words of a body are its tokens without blank space and comments. How a word is cut off does
not depend on the text behind the word next to it, so a stretch of a body between two words has
the same words when it stands alone.

    words (textOf (S ++ T)) = wordsIn (S ++ T) → words (textOf S) = wordsIn S    (Lexed.left)
-/

namespace GrammarLab.Body

open Text

def Token.lexeme (t : Token) : Lexeme := ⟨t.kind, t.text⟩

/-- The text of the lexemes. -/
def textOf (ls : List Lexeme) : List Char := ls.flatMap (·.text)

/-- The lexemes that are neither blank space nor comments. -/
def wordsIn (ls : List Lexeme) : List Lexeme := ls.filter (!·.kind.isTrivia)

/-- The words of a text. -/
def words (s : List Char) : List Lexeme := wordsIn (lexemes s)

/-- The text of an operator. -/
def TokenKind.spelled? : TokenKind → Option (List Char)
  | parenOpen => some ['(']
  | parenClose => some [')']
  | pipe => some ['|']
  | question => some ['?']
  | star => some ['*']
  | plus => some ['+']
  | starQuestion => some ['*', '?']
  | plusQuestion => some ['+', '?']
  | questionQuestion => some ['?', '?']
  | tilde => some ['~']
  | dot => some ['.']
  | range => some ['.', '.']
  | arrow => some ['-', '>']
  | hash => some ['#']
  | equals => some ['=']
  | plusEquals => some ['+', '=']
  | comma => some [',']
  | colon => some [':']
  | semicolon => some [';']
  | lt => some ['<']
  | gt => some ['>']
  | _ => none

/-- What the kind of a lexeme tells about its text. -/
structure Lexeme.Regular (l : Lexeme) : Prop where
  spelled : ∀ s, l.kind.spelled? = some s → l.text = s
  head : ∃ c cs, l.text = c :: cs ∧ (l.kind ≠ .blank → isBlank c = false) ∧
    (l.kind.isTrivia = false → l.kind ≠ .garbage → c ≠ '/') ∧
    (l.kind ≠ .pipe → l.kind ≠ .parenClose → c ≠ '|' ∧ c ≠ ')')
  blank : l.kind = .blank → ∀ c ∈ l.text, isBlank c = true
  bracketed : l.kind = .charClass →
    ∃ body, l.text = '[' :: body ++ [']'] ∧ Regex.Inside body

/-! ## Single tokens -/

theorem spelled?_of_operatorPair? {c d : Char} {k : TokenKind} (h : operatorPair? c d = some k) :
    k.spelled? = some [c, d] ∧ k.isTrivia = false ∧ k ≠ .charClass ∧ c ≠ '|' ∧ c ≠ ')' := by
  simp only [operatorPair?, Bool.and_eq_true, decide_eq_true_eq] at h
  repeat' split at h
  all_goals first
    | (rename_i hc
       obtain ⟨rfl, rfl⟩ := hc
       obtain rfl := Option.some.inj h
       decide)
    | simp at h

theorem spelled?_of_operator? {c : Char} {k : TokenKind} (h : operator? c = some k) :
    k.spelled? = some [c] ∧ k.isTrivia = false ∧ k ≠ .charClass ∧
      (c = '|' → k = .pipe) ∧ (c = ')' → k = .parenClose) := by
  by_cases hc : c ∈ ['(', ')', '|', '?', '*', '+', '~', '.', '#', '=', ',', ':', ';', '<', '>']
  · simp only [List.mem_cons, List.not_mem_nil, or_false] at hc
    repeat' rcases hc with hc | hc
    all_goals
      simp only [operator?, Char.reduceEq, if_true, if_false, Option.some.injEq] at h
      subst h
      decide
  · simp only [List.mem_cons, List.not_mem_nil, or_false, not_or] at hc
    simp [operator?, hc] at h

theorem take_length_takeWhile (p : Char → Bool) (s : List Char) :
    s.take (s.takeWhile p).length = s.takeWhile p :=
  (List.prefix_iff_eq_take.1 (List.takeWhile_prefix p)).symm

/-- Text that the mark behind it closes: the mark is not bare in it, and behind every backslash
there is a character other than a line feed. -/
inductive Quotable (close : Char) : List Char → Prop
  | nil : Quotable close []
  | escaped {c s} : c ≠ '\n' → Quotable close s → Quotable close ('\\' :: c :: s)
  | plain {c s} : c ≠ '\\' → c ≠ close → Quotable close s → Quotable close (c :: s)

theorem Quotable.inside {s : List Char} (h : Quotable ']' s) : Regex.Inside s := by
  induction h with
  | nil => exact .nil
  | escaped _ _ ih => exact .escaped ih
  | plain h₁ h₂ _ ih => exact .plain h₁ h₂ ih

/-- What is closed is closed by its last character. -/
theorem exists_quotable_of_quotedReach {close : Char} {s : List Char}
    (h : (quotedReach close s).closed = true) :
    ∃ body, s.take (quotedReach close s).length = body ++ [close] ∧ Quotable close body := by
  fun_induction quotedReach close s with
  | case1 => simp at h
  | case2 cs => exact ⟨[], rfl, .nil⟩
  | case3 => simp at h
  | case4 => simp at h
  | case5 d ds hd _ ih =>
    obtain ⟨body, hbody, hquotable⟩ := ih h
    refine ⟨'\\' :: d :: body, ?_, .escaped hd hquotable⟩
    simp [Reach.beyond, Nat.add_comm 2, hbody]
  | case6 c cs h₁ h₂ ih =>
    obtain ⟨body, hbody, hquotable⟩ := ih h
    refine ⟨c :: body, ?_, .plain h₂ h₁ hquotable⟩
    simp [Reach.beyond, Nat.add_comm 1, hbody]

/-- A closed class has no bare closing bracket but its last character. -/
theorem inside_of_quotedReach {s : List Char} (h : (quotedReach ']' s).closed = true) :
    ∃ body, s.take (quotedReach ']' s).length = body ++ [']'] ∧ Regex.Inside body := by
  obtain ⟨body, hbody, hquotable⟩ := exists_quotable_of_quotedReach h
  exact ⟨body, hbody, hquotable.inside⟩

/-- A lexeme of a kind that tells nothing about its text but how it begins. -/
theorem regular_of_first {k : TokenKind} {c : Char} {cs : List Char} (hk : k.spelled? = none)
    (hb : k ≠ .blank) (hs : k ≠ .charClass) (hc : isBlank c = false)
    (hslash : k.isTrivia = false → k ≠ .garbage → c ≠ '/') (hmark : c ≠ '|' ∧ c ≠ ')') :
    Lexeme.Regular ⟨k, c :: cs⟩ where
  spelled := by simp [hk]
  head := ⟨c, cs, rfl, fun _ => hc, hslash, fun _ _ => hmark⟩
  blank h := absurd h hb
  bracketed h := absurd h hs

theorem regular_delimited {k : TokenKind} {r : Reach} {c : Char} {cs : List Char}
    (hk : k.spelled? = none) (hb : k ≠ .blank) (hs : k ≠ .charClass) (hc : isBlank c = false)
    (hslash : k.isTrivia = false → c ≠ '/') (hmark : c ≠ '|' ∧ c ≠ ')') :
    Lexeme.Regular ⟨(delimited k r).1, c :: cs⟩ := by
  unfold delimited
  cases r.closed with
  | false =>
    show Lexeme.Regular ⟨.garbage, _⟩
    exact regular_of_first rfl (by decide) (by decide) hc (fun _ h => absurd rfl h) hmark
  | true => exact regular_of_first hk hb hs hc (fun h _ => hslash h) hmark

theorem regular_single {c : Char} (hc : isBlank c = false) (hslash : c ≠ '/') :
    Lexeme.Regular ⟨(single c).1, [c]⟩ := by
  cases h : operator? c with
  | none =>
    simp only [single, h, Option.getD_none]
    refine regular_of_first rfl (by decide) (by decide) hc (fun _ h => absurd rfl h) ⟨?_, ?_⟩
    · rintro rfl
      simp [operator?] at h
    · rintro rfl
      simp [operator?] at h
  | some k =>
    obtain ⟨hk, ht, hs, hpipe, hclose⟩ := spelled?_of_operator? h
    simp only [single, h, Option.getD_some]
    exact {
      spelled := by simp [hk]
      head := ⟨c, [], rfl, fun _ => hc, fun _ _ => hslash, fun h₁ h₂ =>
        ⟨fun he => h₁ (hpipe he), fun he => h₂ (hclose he)⟩⟩
      blank := by
        rintro rfl
        simp [TokenKind.spelled?] at hk
      bracketed := fun h => absurd h hs }

theorem regular_operatorAt {c : Char} {cs : List Char} (hc : isBlank c = false)
    (hslash : c ≠ '/') :
    Lexeme.Regular ⟨(operatorAt c cs).1, c :: cs.take (operatorAt c cs).2⟩ := by
  cases cs with
  | nil => exact regular_single hc hslash
  | cons d ds =>
    cases h : operatorPair? c d with
    | none =>
      simp only [operatorAt, h]
      exact regular_single hc hslash
    | some k =>
      obtain ⟨hk, ht, hs, h₁, h₂⟩ := spelled?_of_operatorPair? h
      simp only [operatorAt, h, List.take_succ_cons, List.take_zero]
      exact {
        spelled := by simp [hk]
        head := ⟨c, [d], rfl, fun _ => hc, fun _ _ => hslash, fun _ _ => ⟨h₁, h₂⟩⟩
        blank := by
          rintro rfl
          simp [TokenKind.spelled?] at hk
        bracketed := fun h => absurd h hs }

/-- A class that is closed ends at the first bare bracket. -/
theorem regular_charClass (cs : List Char) :
    Lexeme.Regular ⟨(delimited .charClass (quotedReach ']' cs)).1,
      '[' :: cs.take (delimited .charClass (quotedReach ']' cs)).2⟩ := by
  cases hr : (quotedReach ']' cs).closed with
  | false =>
    simp only [delimited, hr]
    exact regular_of_first rfl (by decide) (by decide) rfl (fun _ h => absurd rfl h) (by decide)
  | true =>
    obtain ⟨body, hbody, hin⟩ := inside_of_quotedReach hr
    simp only [delimited, hr, if_true]
    exact {
      spelled := by simp [TokenKind.spelled?]
      head := ⟨'[', _, rfl, fun _ => rfl, fun _ _ => by decide, fun _ _ => by decide⟩
      blank := by simp
      bracketed := fun _ => ⟨body, by rw [hbody]; rfl, hin⟩ }

theorem regular_blank {c : Char} {cs : List Char} (hc : isBlank c = true) :
    Lexeme.Regular ⟨.blank, c :: cs.take (cs.takeWhile isBlank).length⟩ where
  spelled := by simp [TokenKind.spelled?]
  head := by
    refine ⟨c, _, rfl, fun h => absurd rfl h, fun _ _ => ?_, fun _ _ => ⟨?_, ?_⟩⟩
    · rintro rfl
      exact absurd hc (by decide)
    · rintro rfl
      exact absurd hc (by decide)
    · rintro rfl
      exact absurd hc (by decide)
  blank := by
    intro _ d hd
    rw [take_length_takeWhile] at hd
    rcases List.mem_cons.1 hd with rfl | hd
    · exact hc
    · exact List.all_eq_true.1 List.all_takeWhile d hd
  bracketed := by simp

theorem regular_word {c : Char} {s : List Char} (hc : isWordStart c = true)
    (hblank : isBlank c = false) (hslash : c ≠ '/') : Lexeme.Regular ⟨.ident, c :: s⟩ := by
  refine regular_of_first rfl (by decide) (by decide) hblank (fun _ _ => hslash) ⟨?_, ?_⟩
  · rintro rfl
    exact absurd hc (by decide)
  · rintro rfl
    exact absurd hc (by decide)

theorem regular_slash (cs : List Char) :
    Lexeme.Regular ⟨(leading '/' cs).1, '/' :: cs.take (leading '/' cs).2⟩ := by
  simp only [leading, Char.reduceEq, if_false, if_true]
  split
  · show Lexeme.Regular ⟨.lineComment, _⟩
    exact regular_of_first rfl (by decide) (by decide) rfl (by decide) (by decide)
  · exact regular_delimited rfl (by decide) (by decide) rfl (by decide) (by decide)
  · show Lexeme.Regular ⟨.garbage, _⟩
    exact regular_of_first rfl (by decide) (by decide) rfl (by decide) (by decide)

theorem regular_leading (c : Char) (cs : List Char) :
    Lexeme.Regular ⟨(leading c cs).1, c :: cs.take (leading c cs).2⟩ := by
  by_cases hslash : c = '/'
  · rw [hslash]
    exact regular_slash cs
  unfold leading
  split
  · rename_i hc
    subst hc
    exact regular_delimited rfl (by decide) (by decide) rfl (by decide) (by decide)
  split
  · rename_i hc
    subst hc
    exact regular_charClass cs
  split
  · rename_i hc
    subst hc
    show Lexeme.Regular ⟨.action, _⟩
    exact regular_of_first rfl (by decide) (by decide) rfl (by decide) (by decide)
  split
  · rename_i hc
    exact regular_blank hc
  rename_i hblank
  have hblank : isBlank c = false := by simpa using hblank
  split
  · rename_i hc
    exact regular_word hc hblank hslash
  · exact regular_operatorAt hblank hslash

/-! ## Text cut off behind a token -/

theorem takeWhile_take {p : Char → Bool} {s : List Char} {n : Nat}
    (h : (s.takeWhile p).length ≤ n) : (s.take n).takeWhile p = s.takeWhile p := by
  induction s generalizing n with
  | nil => simp
  | cons c s ih =>
    cases hc : p c with
    | false => cases n <;> simp [hc]
    | true =>
      simp only [List.takeWhile_cons, hc, if_true, List.length_cons] at h ⊢
      cases n with
      | zero => omega
      | succ n => simp [hc, ih (Nat.le_of_succ_le_succ h)]

theorem quotedReach_take {close : Char} {s : List Char} {n : Nat}
    (h : (quotedReach close s).length ≤ n) :
    quotedReach close (s.take n) = quotedReach close s := by
  fun_induction quotedReach close s generalizing n with
  | case1 => simp [quotedReach]
  | case2 cs =>
    cases n with
    | zero => simp at h
    | succ n =>
      rw [List.take_succ_cons, quotedReach.eq_def]
      simp
  | case3 =>
    cases n with
    | zero => simp at h
    | succ n => simp_all [quotedReach]
  | case4 =>
    match n with
    | 0 => simp at h
    | 1 => simp_all [quotedReach]
    | n + 2 => simp_all [quotedReach]
  | case5 d ds _ _ ih =>
    simp only [Reach.beyond] at h
    match n with
    | 0 => omega
    | 1 => omega
    | n + 2 =>
      have := ih (n := n) (by omega)
      simp_all [quotedReach]
  | case6 c cs h₁ h₂ ih =>
    simp only [Reach.beyond] at h
    cases n with
    | zero => omega
    | succ n =>
      rw [List.take_succ_cons, quotedReach.eq_def]
      simp only [h₁, h₂, if_false, ih (n := n) (by omega)]

theorem length_quotedReach_le (close : Char) (s : List Char) :
    (quotedReach close s).length ≤ s.length := by
  fun_induction quotedReach close s with
  | case1 => simp
  | case2 => simp
  | case3 => simp
  | case4 => simp
  | case5 => simp only [Reach.beyond, List.length_cons]; omega
  | case6 => simp only [Reach.beyond, List.length_cons]; omega

theorem commentReach_take {s : List Char} {n : Nat} (h : (commentReach s).length ≤ n) :
    commentReach (s.take n) = commentReach s := by
  fun_induction commentReach s generalizing n with
  | case1 => simp [commentReach]
  | case2 =>
    cases n with
    | zero => simp at h
    | succ n => simp [commentReach]
  | case3 =>
    match n with
    | 0 => simp at h
    | 1 => simp at h
    | n + 2 => simp [commentReach]
  | case4 d ds _ ih =>
    simp only [Reach.beyond] at h
    match n with
    | 0 => omega
    | 1 => omega
    | n + 2 =>
      have := ih (n := n) (by omega)
      simp_all [commentReach]
  | case5 c cs hc ih =>
    simp only [Reach.beyond] at h
    cases n with
    | zero => omega
    | succ n =>
      rw [List.take_succ_cons, commentReach.eq_def]
      simp only [hc, if_false, ih (n := n) (by omega)]

theorem length_commentReach_le (s : List Char) : (commentReach s).length ≤ s.length := by
  fun_induction commentReach s with
  | case1 => simp
  | case2 => simp
  | case3 => simp
  | case4 => simp only [Reach.beyond, List.length_cons]; omega
  | case5 => simp only [Reach.beyond, List.length_cons]; omega

theorem actionLength_take {depth : Nat} {state : ActionState} {s : List Char} {n : Nat}
    (h : actionLength depth state s ≤ n) :
    actionLength depth state (s.take n) = actionLength depth state s := by
  fun_induction actionLength depth state s generalizing n
  all_goals first
    | simp [actionLength]; done
    | (cases n with
       | zero => omega
       | succ n =>
         first
          | (rename_i ih
             have := ih (n := n) (by omega)
             simp_all [actionLength])
          | simp_all [actionLength])

theorem actionLength_le (depth : Nat) (state : ActionState) (s : List Char) :
    actionLength depth state s ≤ s.length := by
  fun_induction actionLength depth state s
  all_goals simp only [List.length_cons, List.length_nil]; omega

theorem operatorAt_take (c : Char) {cs : List Char} {n : Nat} (h : (operatorAt c cs).2 ≤ n) :
    operatorAt c (cs.take n) = operatorAt c cs := by
  cases cs with
  | nil => simp
  | cons d ds =>
    cases n with
    | succ n => simp [operatorAt]
    | zero =>
      cases hp : operatorPair? c d with
      | none => simp [operatorAt, hp]
      | some k => simp [operatorAt, hp] at h

/-- A token is the same when the text is cut off behind it. -/
theorem leading_take (c : Char) (cs : List Char) {n : Nat} (h : (leading c cs).2 ≤ n) :
    leading c (cs.take n) = leading c cs := by
  unfold leading at h ⊢
  by_cases h₁ : c = '\''
  · simp only [if_pos h₁, delimited] at h ⊢
    rw [quotedReach_take h]
  simp only [if_neg h₁] at h ⊢
  by_cases h₂ : c = '['
  · simp only [if_pos h₂, delimited] at h ⊢
    rw [quotedReach_take h]
  simp only [if_neg h₂] at h ⊢
  by_cases h₃ : c = '\x7b'
  · simp only [if_pos h₃] at h ⊢
    rw [actionLength_take h]
  simp only [if_neg h₃] at h ⊢
  by_cases h₄ : c = '/'
  · simp only [if_pos h₄] at h ⊢
    split at h
    · rename_i rest
      cases n with
      | zero => simp at h
      | succ n =>
        simp only [List.take_succ_cons]
        rw [takeWhile_take (by omega)]
    · rename_i rest
      cases n with
      | zero => simp [delimited, Reach.beyond] at h
      | succ n =>
        simp only [List.take_succ_cons]
        simp only [delimited, Reach.beyond] at h ⊢
        rw [commentReach_take (by omega)]
    · rename_i hline hblock
      cases n with
      | zero => rfl
      | succ n =>
        cases cs with
        | nil => rfl
        | cons d ds =>
          simp only [List.take_succ_cons]
          split
          · rename_i he
            exact absurd (by rw [(List.cons.inj he).1]) (hline ds)
          · rename_i he
            exact absurd (by rw [(List.cons.inj he).1]) (hblock ds)
          · rfl
  simp only [if_neg h₄] at h ⊢
  by_cases h₅ : isBlank c = true
  · simp only [if_pos h₅] at h ⊢
    rw [takeWhile_take h]
  simp only [if_neg h₅] at h ⊢
  by_cases h₆ : isWordStart c = true
  · simp only [if_pos h₆] at h ⊢
    rw [takeWhile_take h]
  simp only [if_neg h₆] at h ⊢
  exact operatorAt_take c h

theorem leading_le (c : Char) (cs : List Char) : (leading c cs).2 ≤ cs.length := by
  have hwhile : ∀ (p : Char → Bool) (s : List Char), (s.takeWhile p).length ≤ s.length :=
    fun p s => (List.takeWhile_prefix p).length_le
  unfold leading
  split
  · exact length_quotedReach_le _ _
  split
  · exact length_quotedReach_le _ _
  split
  · exact actionLength_le _ _ _
  split
  · split
    · rename_i rest
      have := hwhile (· ≠ '\n') rest
      simp only [List.length_cons]
      omega
    · rename_i rest
      have := length_commentReach_le rest
      simp only [delimited, Reach.beyond, List.length_cons]
      omega
    · exact Nat.zero_le _
  split
  · exact hwhile _ _
  split
  · exact hwhile _ _
  · cases cs with
    | nil => exact Nat.le_refl _
    | cons d ds =>
      simp only [operatorAt]
      split
      · simp
      · exact Nat.zero_le _

/-! ## Words -/

theorem textOf_cons (l : Lexeme) (S : List Lexeme) : textOf (l :: S) = l.text ++ textOf S := rfl

theorem textOf_append (S T : List Lexeme) : textOf (S ++ T) = textOf S ++ textOf T := by
  simp [textOf]

theorem wordsIn_append (S T : List Lexeme) : wordsIn (S ++ T) = wordsIn S ++ wordsIn T := by
  simp [wordsIn]

theorem words_nil : words [] = [] := by simp [words, wordsIn, lexemes]

theorem words_cons (c : Char) (cs : List Char) :
    words (c :: cs) =
      wordsIn [⟨(leading c cs).1, c :: cs.take (leading c cs).2⟩] ++
        words (cs.drop (leading c cs).2) := by
  rw [words, lexemes_cons, words, ← wordsIn_append]
  rfl

theorem leading_of_isBlank {c : Char} (h : isBlank c = true) (cs : List Char) :
    leading c cs = (.blank, (cs.takeWhile isBlank).length) := by
  have hne : ∀ d, isBlank d = false → c ≠ d := by
    rintro d hd rfl
    simp [h] at hd
  simp only [leading, if_neg (hne '\'' rfl), if_neg (hne '[' rfl), if_neg (hne '\x7b' rfl),
    if_neg (hne '/' rfl), if_pos h]

theorem words_cons_of_isBlank {c : Char} (h : isBlank c = true) (cs : List Char) :
    words (c :: cs) = words (cs.dropWhile isBlank) := by
  have hdrop : cs.drop (cs.takeWhile isBlank).length = cs.dropWhile isBlank := by
    have hs : (cs.takeWhile isBlank ++ cs.dropWhile isBlank).drop (cs.takeWhile isBlank).length =
        cs.dropWhile isBlank := List.drop_left
    rwa [List.takeWhile_append_dropWhile] at hs
  rw [words_cons, leading_of_isBlank h, hdrop]
  rfl

/-- Blank space in front makes no word. -/
theorem words_blank {c : Char} (h : isBlank c = true) (s : List Char) :
    words (c :: s) = words s := by
  rw [words_cons_of_isBlank h]
  cases s with
  | nil => rfl
  | cons d ds =>
    cases hd : isBlank d with
    | false => simp [hd]
    | true => rw [List.dropWhile_cons, if_pos hd, words_cons_of_isBlank hd]

theorem isTrivia_leading {c : Char} {cs : List Char} (hb : isBlank c = false) (hs : c ≠ '/') :
    (leading c cs).1.isTrivia = false := by
  have hdelimited : ∀ {k : TokenKind} (r : Reach), k.isTrivia = false →
      (delimited k r).1.isTrivia = false := by
    intro k r hk
    unfold delimited
    cases r.closed with
    | false => rfl
    | true => exact hk
  have hsingle : (single c).1.isTrivia = false := by
    cases h : operator? c with
    | none => simp [single, h, TokenKind.isTrivia]
    | some k => simpa [single, h] using (spelled?_of_operator? h).2.1
  unfold leading
  split
  · exact hdelimited _ rfl
  split
  · exact hdelimited _ rfl
  split
  · rfl
  split
  · simp_all
  split
  · rfl
  · cases cs with
    | nil => exact hsingle
    | cons d ds =>
      cases h : operatorPair? c d with
      | none => simpa [operatorAt, h] using hsingle
      | some k => simpa [operatorAt, h] using (spelled?_of_operatorPair? h).2.1

/-- A word by itself: nothing that begins like it is blank space or a comment. -/
def Lexeme.IsWord (w : Lexeme) : Prop :=
  w.kind.isTrivia = false ∧ ∃ c cs, w.text = c :: cs ∧ isBlank c = false ∧ c ≠ '/'

/-- The blank between two words. -/
def space : Lexeme := ⟨.blank, [' ']⟩

/-- Nothing but words and single blanks. -/
def Spaced (S : List Lexeme) : Prop := ∀ l ∈ S, l = space ∨ l.IsWord

/-- The text of the lexemes has the words that are among them. -/
def Lexed (S : List Lexeme) : Prop := words (textOf S) = wordsIn S

/-- A word in front of a text that begins with it is cut off behind it. -/
theorem leading_of_words {w : Lexeme} {c : Char} {cs s : List Char} {W : List Lexeme}
    (hb : isBlank c = false) (hs : c ≠ '/') (hw : w.text = c :: cs)
    (h : words (w.text ++ s) = w :: W) :
    leading c (cs ++ s) = (w.kind, cs.length) ∧ words s = W := by
  rw [hw, List.cons_append, words_cons] at h
  have ht : wordsIn [⟨(leading c (cs ++ s)).1, c :: (cs ++ s).take (leading c (cs ++ s)).2⟩] =
      [⟨(leading c (cs ++ s)).1, c :: (cs ++ s).take (leading c (cs ++ s)).2⟩] := by
    simp [wordsIn, isTrivia_leading hb hs]
  rw [ht, List.singleton_append, List.cons.injEq] at h
  obtain ⟨rfl, h⟩ := h
  simp only [List.cons.injEq, true_and] at hw
  have hlen : (leading c (cs ++ s)).2 = cs.length := by
    have := leading_le c (cs ++ s)
    have hl := congrArg List.length hw
    rw [List.length_take_of_le this] at hl
    exact hl
  rw [hlen, List.drop_left] at h
  exact ⟨by rw [← hlen], h⟩

theorem words_append {k : TokenKind} {c : Char} {cs s : List Char}
    (hk : k.isTrivia = false) (h : leading c (cs ++ s) = (k, cs.length)) :
    words (c :: (cs ++ s)) = ⟨k, c :: cs⟩ :: words s := by
  rw [words_cons, h, List.take_left, List.drop_left]
  simp [wordsIn, hk]

/-- What stands between two words has the same words alone. -/
theorem Lexed.split {S T : List Lexeme} (hS : Spaced S) (h : Lexed (S ++ T)) :
    Lexed S ∧ Lexed T := by
  induction S with
  | nil => exact ⟨words_nil, h⟩
  | cons l S ih =>
    obtain ⟨hl, hS'⟩ := List.forall_mem_cons.1 hS
    unfold Lexed at h ⊢
    rcases hl with rfl | ⟨hk, c, cs, hw, hb, hs⟩
    · have hblank : ∀ R : List Lexeme, words (textOf (space :: R)) = words (textOf R) :=
        fun R => words_blank rfl _
      rw [List.cons_append, hblank] at h
      rw [hblank]
      exact ih hS' h
    · have hin : ∀ R : List Lexeme, wordsIn (l :: R) = l :: wordsIn R := by
        intro R
        simp [wordsIn, hk]
      rw [List.cons_append, hin, textOf_cons] at h
      obtain ⟨hlead, h⟩ := leading_of_words hb hs hw h
      obtain ⟨hl, hr⟩ := ih hS' h
      refine ⟨?_, hr⟩
      have hcut : leading c (cs ++ textOf S) = (l.kind, cs.length) := by
        have htake := leading_take c (cs ++ textOf (S ++ T)) (n := (cs ++ textOf S).length)
          (by rw [hlead, List.length_append]; exact Nat.le_add_right _ _)
        have htext : (cs ++ textOf (S ++ T)).take (cs ++ textOf S).length = cs ++ textOf S := by
          rw [textOf_append, ← List.append_assoc]
          exact List.take_left
        rwa [htext, hlead] at htake
      rw [textOf_cons, hw, List.cons_append, words_append hk hcut, hin, hl, ← hw]

/-! ## Tokens -/

theorem map_lexeme_locate (n : Nat) (ls : List Lexeme) : (locate n ls).map Token.lexeme = ls := by
  induction ls generalizing n with
  | nil => rfl
  | cons l ls ih => simp [locate, Token.lexeme, ih]

theorem map_lexeme_lex (s : List Char) : (lex s).map Token.lexeme = joinGarbage (lexemes s) :=
  map_lexeme_locate 0 _

theorem map_lexeme_significant (s : List Char) :
    (significant s).map Token.lexeme = wordsIn (joinGarbage (lexemes s)) := by
  rw [wordsIn, ← map_lexeme_lex, List.filter_map]
  rfl

/-- Without garbage there is nothing to join. -/
theorem joinGarbage_eq_self {ls : List Lexeme} (h : ∀ l ∈ ls, l.kind ≠ .garbage) :
    joinGarbage ls = ls := by
  induction ls with
  | nil => rfl
  | cons l ls ih =>
    obtain ⟨hl, hls⟩ := List.forall_mem_cons.1 h
    rw [joinGarbage, ih hls]
    cases ls with
    | nil => rfl
    | cons m ls => simp [Lexeme.joinTo, hl]

theorem garbage_mem_joinGarbage {ls : List Lexeme} (h : ∃ l ∈ ls, l.kind = .garbage) :
    ∃ l ∈ joinGarbage ls, l.kind = .garbage := by
  have hjoin : ∀ (l : Lexeme) (ls : List Lexeme),
      (l.kind = .garbage ∨ ∃ m ∈ ls, m.kind = .garbage) →
        ∃ m ∈ l.joinTo ls, m.kind = .garbage := by
    intro l ls h
    cases ls with
    | nil => simpa [Lexeme.joinTo] using h
    | cons m ls =>
      simp only [Lexeme.joinTo]
      split
      · exact ⟨_, List.mem_cons_self, rfl⟩
      · simpa using h
  induction ls with
  | nil => simp at h
  | cons l ls ih =>
    rw [joinGarbage]
    apply hjoin
    obtain ⟨m, hm, hk⟩ := h
    rcases List.mem_cons.1 hm with rfl | hm
    · exact .inl hk
    · exact .inr (ih ⟨m, hm, hk⟩)

/-- Tokens without garbage among them are the words of the text. -/
theorem map_lexeme_significant_of_words {s : List Char}
    (h : ∀ l ∈ words s, l.kind ≠ .garbage) :
    (significant s).map Token.lexeme = words s := by
  rw [map_lexeme_significant, joinGarbage_eq_self, words]
  intro l hl hk
  refine h l (List.mem_filter.2 ⟨hl, ?_⟩) hk
  simp [hk, TokenKind.isTrivia]

theorem words_of_significant {s : List Char} (h : ∀ t ∈ significant s, t.kind ≠ .garbage) :
    words s = (significant s).map Token.lexeme := by
  rw [map_lexeme_significant, joinGarbage_eq_self, words]
  intro l hl hk
  obtain ⟨m, hm, hmk⟩ := garbage_mem_joinGarbage ⟨l, hl, hk⟩
  have hmem : m ∈ (significant s).map Token.lexeme := by
    rw [map_lexeme_significant]
    refine List.mem_filter.2 ⟨hm, ?_⟩
    simp [hmk, TokenKind.isTrivia]
  obtain ⟨t, ht, rfl⟩ := List.mem_map.1 hmem
  exact h t ht hmk

theorem regular_joinGarbage {ls : List Lexeme} (h : ∀ l ∈ ls, l.Regular) :
    ∀ l ∈ joinGarbage ls, l.Regular := by
  induction ls with
  | nil => exact h
  | cons l ls ih =>
    obtain ⟨hl, hls⟩ := List.forall_mem_cons.1 h
    have hrest := ih hls
    rw [joinGarbage]
    cases hj : joinGarbage ls with
    | nil => simpa [Lexeme.joinTo] using hl
    | cons m ms =>
      rw [hj] at hrest
      obtain ⟨hm, hms⟩ := List.forall_mem_cons.1 hrest
      simp only [Lexeme.joinTo]
      split
      · rename_i hk
        simp only [Bool.and_eq_true, decide_eq_true_eq] at hk
        refine List.forall_mem_cons.2 ⟨?_, hms⟩
        obtain ⟨c, cs, htext, hblank, -, hmark⟩ := hl.head
        rw [htext]
        refine regular_of_first rfl (by decide) (by decide) (hblank (by simp [hk.1]))
          (fun _ h => absurd rfl h) (hmark (by simp [hk.1]) (by simp [hk.1]))
      · exact List.forall_mem_cons.2 ⟨hl, hrest⟩

/-- What holds of everything that is cut off at a place holds of all lexemes. -/
theorem forall_mem_lexemes {P : Lexeme → Prop}
    (h : ∀ c cs, P ⟨(leading c cs).1, c :: cs.take (leading c cs).2⟩) (s : List Char) :
    ∀ l ∈ lexemes s, P l := by
  fun_induction lexemes s with
  | case1 => simp
  | case2 c cs kind n heq ih =>
    have hfirst := h c cs
    rw [heq] at hfirst
    exact List.forall_mem_cons.2 ⟨hfirst, ih⟩

theorem regular_lexemes (s : List Char) : ∀ l ∈ joinGarbage (lexemes s), l.Regular :=
  regular_joinGarbage (forall_mem_lexemes regular_leading s)

end GrammarLab.Body
