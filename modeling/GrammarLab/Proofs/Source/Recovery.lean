import GrammarLab.Proofs.Source.LineGrammar

/-!
# Scanning a grammar that is written line by line

Every line is read as what it was written as, also behind a line that lacks its `;`: the next line
opens a rule or a mode, and there the body ends.

    (scan limits t.text).1.rules = t.rules ∧ (scan limits t.text).2 = t.reports     (scan_text)
-/

namespace GrammarLab.Source

open Text

variable {limits : ScanLimits} {d : Draft} {n : Nat} {rest : List Char}

/-! ## Places on a line -/

section

variable {w : List Char}

theorem advance_append (hw : '\n' ∉ w) (n : Nat) (rest : List Char) :
    Cursor.advance w.length ⟨n, w ++ rest⟩ = ⟨n, rest⟩ := by
  simp [Cursor.advance, lineFeeds_eq_zero hw]

theorem takeWhile_append_cons {p : Char → Bool} {c : Char} (hw : ∀ d ∈ w, p d = true)
    (hc : p c = false) (rest : List Char) : (w ++ c :: rest).takeWhile p = w := by
  rw [List.takeWhile_append_of_pos hw]
  simp [hc]

theorem pass_append_cons {p : Char → Bool} {c : Char} (hw : ∀ d ∈ w, p d = true)
    (hc : p c = false) (hfeed : '\n' ∉ w) (n : Nat) (rest : List Char) :
    Cursor.pass p ⟨n, w ++ c :: rest⟩ = ⟨n, c :: rest⟩ := by
  rw [Cursor.pass, takeWhile_append_cons hw hc, advance_append hfeed]

variable {c : Char} (hw : ∀ d ∈ w, isWordChar d = true)

include hw

theorem lineFeed_notMem_of_isWordChar : '\n' ∉ w := fun h => absurd (hw _ h) (by decide)

variable (hc : isWordChar c = false) (n : Nat) (rest : List Char)

include hc

theorem word_append_cons : Cursor.word ⟨n, w ++ c :: rest⟩ = w := takeWhile_append_cons hw hc rest

theorem passWord_append_cons : Cursor.passWord ⟨n, w ++ c :: rest⟩ = ⟨n, c :: rest⟩ :=
  pass_append_cons hw hc (lineFeed_notMem_of_isWordChar hw) n rest

end

section

variable {c : Char} (n : Nat) (rest : List Char)

theorem passBlank_space_cons (hc : isWhiteSpace c = false) :
    Cursor.passBlank ⟨n, ' ' :: c :: rest⟩ = ⟨n, c :: rest⟩ :=
  pass_append_cons (w := [' ']) (List.all_eq_true.1 rfl) hc (by decide) n rest

theorem not_isInlineBlank {c : Char} (hc : isWhiteSpace c = false) :
    (decide (c = ' ') || decide (c = '\t')) = false := by
  have hspace : c ≠ ' ' := fun h => absurd (h ▸ hc) (by decide)
  have htab : c ≠ '\t' := fun h => absurd (h ▸ hc) (by decide)
  simp [hspace, htab]

theorem passInlineBlank_cons (hc : isWhiteSpace c = false) :
    Cursor.passInlineBlank ⟨n, c :: rest⟩ = ⟨n, c :: rest⟩ :=
  pass_append_cons (w := []) (by simp) (not_isInlineBlank hc) (by simp) n rest

theorem passInlineBlank_space_cons (hc : isWhiteSpace c = false) :
    Cursor.passInlineBlank ⟨n, ' ' :: c :: rest⟩ = ⟨n, c :: rest⟩ :=
  pass_append_cons (w := [' ']) (List.all_eq_true.1 rfl) (not_isInlineBlank hc) (by decide) n rest

end

/-- The keyword in front is the word that stands there. -/
theorem hasKeyword_append_cons {w : List Char} {c : Char} {keyword : String}
    (hw : ∀ d ∈ w, isWordChar d = true) (hc : isWordChar c = false) (n : Nat) (rest : List Char) :
    Cursor.hasKeyword keyword ⟨n, w ++ c :: rest⟩ = (w == keyword.toList) := by
  rw [Cursor.hasKeyword, word_append_cons hw hc]

theorem hasKeyword_eq_false {c : Cursor} {keyword : String} {ws : List (List Char)}
    (hc : c.word ∉ ws) (hk : keyword.toList ∈ ws) : c.hasKeyword keyword = false := by
  simpa [Cursor.hasKeyword] using fun h : c.word = keyword.toList => hc (h ▸ hk)

theorem exists_rest_eq_of_word {c : Cursor} (hc : c.word ≠ []) :
    ∃ first rest, c.rest = first :: rest ∧ isWordChar first = true := by
  cases hrest : c.rest with
  | nil => simp [Cursor.word, hrest] at hc
  | cons first rest =>
    refine ⟨first, rest, rfl, ?_⟩
    by_contra hfirst
    simp [Cursor.word, hrest, hfirst] at hc

/-- Nothing is declared where a word stands that begins no declaration. -/
theorem declaration?_eq_none {c : Cursor} (hne : c.word ≠ []) (hc : c.word ∉ declarationWords) :
    Machine.declaration? d c = none := by
  have hat : c.startsWith '@' = false := by
    obtain ⟨first, rest, hrest, hfirst⟩ := exists_rest_eq_of_word hne
    simpa [Cursor.startsWith, hrest] using fun h : first = '@' => absurd (h ▸ hfirst) (by decide)
  have hno : ∀ kw : String, kw.toList ∈ declarationWords → c.hasKeyword kw = false := fun kw hk =>
    hasKeyword_eq_false hc hk
  unfold Machine.declaration?
  simp only [hno "grammar" (by decide), hno "lexer" (by decide), hno "parser" (by decide),
    hno "import" (by decide), hno "options" (by decide), hno "tokens" (by decide),
    hno "channels" (by decide), hno "mode" (by decide), hno "catch" (by decide),
    hno "finally" (by decide), hat, Bool.or_self, Bool.false_eq_true, if_false]

theorem modifier?_eq_none {c : Cursor} (hc : c.word ∉ modifierWords) : modifier? c = none := by
  have hno : ∀ kw : String, kw.toList ∈ modifierWords → c.hasKeyword kw = false := fun kw hk =>
    hasKeyword_eq_false hc hk
  unfold modifier?
  simp only [hno "fragment" (by decide), hno "public" (by decide), hno "private" (by decide),
    hno "protected" (by decide), Bool.false_eq_true, if_false]

/-! ## Names -/

namespace RuleLine

variable (r : RuleLine)

theorem exists_name_eq : ∃ c cs, r.name = c :: cs ∧ c.isAlpha = true ∧
    (∀ d ∈ cs, isWordChar d = true) ∧ r.name ∉ declarationWords ++ modifierWords := by
  have hvalid := r.valid
  cases hname : r.name with
  | nil => simp [hname, isRuleName] at hvalid
  | cons c cs =>
    simp only [hname, isRuleName, Bool.and_eq_true, List.all_eq_true, Bool.not_eq_true',
      List.contains_eq_mem, decide_eq_false_iff_not] at hvalid
    exact ⟨c, cs, rfl, hvalid.1.1, hvalid.1.2, hvalid.2⟩

theorem isIdentifier_name : isIdentifier r.name = true := by
  obtain ⟨c, cs, hname, hc, hcs, _⟩ := r.exists_name_eq
  have hfirst : isAlphabetic c = true := by
    have hword : isWordChar c = true := by simp [isWordChar, Char.isAlphanum, hc]
    rw [isAlphabetic, if_pos (toNat_of_isWordChar hword).2, hc]
  have hrest : ∀ d ∈ cs, (isAlphanumeric d || d = '_') = true := fun d hd => by
    have hword := hcs d hd
    have hascii := (toNat_of_isWordChar hword).2
    rw [isAlphanumeric, isAlphabetic, if_pos hascii, isNumeric, if_pos hascii]
    exact hword
  rw [hname, isIdentifier, hfirst, Bool.true_and, List.all_eq_true]
  exact hrest

theorem name_notMem_declarationWords : r.name ∉ declarationWords := by
  obtain ⟨_, _, _, _, _, hnot⟩ := r.exists_name_eq
  exact fun h => hnot (List.mem_append_left _ h)

theorem name_notMem_modifierWords : r.name ∉ modifierWords := by
  obtain ⟨_, _, _, _, _, hnot⟩ := r.exists_name_eq
  exact fun h => hnot (List.mem_append_right _ h)

/-- The header of the line, which is line `n`. -/
def header (n : Nat) : Header := ⟨r.name, r.isFragment, n, false⟩

/-- What stands behind the name. -/
def behindName : List Char :=
  ' ' :: ':' :: (r.behindColon ++ if r.terminated then [';'] else [])

theorem text_eq : r.text =
    (if r.isFragment then "fragment".toList ++ [' '] else []) ++ (r.name ++ r.behindName) := by
  simp only [text, behindName, List.append_assoc, List.cons_append, List.nil_append]

theorem modifier?_name (n : Nat) (rest : List Char) :
    modifier? ⟨n, r.name ++ ' ' :: rest⟩ = none := by
  refine modifier?_eq_none ?_
  rw [word_append_cons r.isWordChar_name (by decide)]
  exact r.name_notMem_modifierWords

/-- Behind `fragment` and a blank the name stands. -/
theorem passModifiers_fragment (n : Nat) (rest : List Char) :
    passModifiers false ⟨n, "fragment".toList ++ [' '] ++ (r.name ++ ' ' :: rest)⟩ =
      (true, ⟨n, r.name ++ ' ' :: rest⟩) := by
  have hword : ∀ c ∈ "fragment".toList, isWordChar c = true := List.all_eq_true.1 (by decide)
  obtain ⟨c, cs, hname, hc, _⟩ := r.exists_name_eq
  have hblank : isWhiteSpace c = false :=
    not_isWhiteSpace_of_isWordChar (r.isWordChar_name c (hname ▸ List.mem_cons_self))
  rw [List.append_assoc, List.singleton_append]
  have hmod : modifier? ⟨n, "fragment".toList ++ ' ' :: (r.name ++ ' ' :: rest)⟩ =
      some (true, "fragment".toList.length) := by
    rw [modifier?, hasKeyword_append_cons hword (by decide), if_pos (by decide)]
    rfl
  rw [passModifiers_of_some hmod, advance_append (lineFeed_notMem_of_isWordChar hword), hname,
    List.cons_append, passBlank_space_cons _ _ hblank, ← List.cons_append, ← hname]
  exact passModifiers_of_none (r.modifier?_name n rest)

/-- The header of the line is read up to its name. -/
theorem header?_line (n : Nat) (rest : List Char) :
    header? ⟨n, r.text ++ rest⟩ = some (r.header n, ⟨n, r.behindName ++ rest⟩) := by
  have hblank : isWordChar ' ' = false := by decide
  obtain ⟨tail, htail⟩ : ∃ tail, r.behindName ++ rest = ' ' :: tail := ⟨_, rfl⟩
  have hmodifiers : passModifiers false ⟨n, r.text ++ rest⟩ =
      (r.isFragment, ⟨n, r.name ++ ' ' :: tail⟩) := by
    rw [text_eq, List.append_assoc, List.append_assoc, htail]
    cases hf : r.isFragment with
    | false => exact passModifiers_of_none (r.modifier?_name n tail)
    | true => exact r.passModifiers_fragment n tail
  rw [header?, hmodifiers]
  simp only [word_append_cons r.isWordChar_name hblank,
    passWord_append_cons r.isWordChar_name hblank, r.isIdentifier_name, if_true, header, htail]

theorem word_line (n : Nat) (rest : List Char) :
    Cursor.word ⟨n, r.text ++ rest⟩ = if r.isFragment then "fragment".toList else r.name := by
  rw [text_eq, List.append_assoc]
  split
  · rw [List.append_assoc, List.singleton_append]
    exact word_append_cons (List.all_eq_true.1 (by decide)) (by decide) _ _
  · rw [List.nil_append, List.append_assoc]
    exact word_append_cons r.isWordChar_name (by decide) _ _

/-- A rule's line opens its header. -/
theorem run_line (d : Draft) (n : Nat) (rest : List Char) :
    Machine.run limits ⟨.outside, d, ⟨n, r.text ++ rest⟩⟩ =
      Machine.run limits ⟨.header (r.header n), d, ⟨n, r.behindName ++ rest⟩⟩ := by
  obtain ⟨c, cs, hname, _⟩ := r.exists_name_eq
  have hword : Cursor.word ⟨n, r.text ++ rest⟩ ≠ [] := by
    rw [word_line]
    split
    · decide
    · rw [hname]
      exact List.cons_ne_nil c cs
  have hnot : Cursor.word ⟨n, r.text ++ rest⟩ ∉ declarationWords := by
    rw [word_line]
    split
    · decide
    · exact r.name_notMem_declarationWords
  obtain ⟨first, tail, hrest, hfirst⟩ := exists_rest_eq_of_word hword
  rw [Machine.run_of_rest_cons hrest]
  simp only [Machine.step, Machine.stepOutside, not_isWhiteSpace_of_isWordChar hfirst,
    declaration?_eq_none hword hnot, header?_line, Bool.false_eq_true, if_false]

/-- Behind the name a blank and the colon are passed over. -/
theorem run_behindName (h : Header) (d : Draft) (n : Nat) (rest : List Char) :
    Machine.run limits ⟨.header h, d, ⟨n, r.behindName ++ rest⟩⟩ =
      Machine.run limits ⟨.body h, d,
        ⟨n, r.behindColon ++ ((if r.terminated then [';'] else []) ++ rest)⟩⟩ := by
  have hblank : isWhiteSpace ' ' = true := by decide
  have hcolon : isWhiteSpace ':' = false := by decide
  have hfirst : ∀ tail, Machine.step limits ' ' ⟨.header h, d, ⟨n, ' ' :: tail⟩⟩ =
      ⟨.header h, d, ⟨n, tail⟩⟩ := fun tail => by
    simp [Machine.step, Machine.stepHeader, hblank, Cursor.advance, lineFeeds]
  have hsecond : ∀ tail, Machine.step limits ':' ⟨.header h, d, ⟨n, ':' :: tail⟩⟩ =
      ⟨.body h, d, ⟨n, tail⟩⟩ := fun tail => by
    simp [Machine.step, Machine.stepHeader, hcolon, Cursor.advance, lineFeeds]
  rw [behindName, List.cons_append, List.cons_append, List.append_assoc,
    Machine.run_of_rest_cons rfl, hfirst, Machine.run_of_rest_cons rfl, hsecond]

end RuleLine

/-! ## Bodies -/

/-- What may stand behind a line: nothing, the end of the last line or a line that opens a rule or a
mode. -/
inductive LineEnd : List Char → Prop
  | nothing : LineEnd []
  | last : LineEnd ['\n']
  | next {rest : List Char} : opensRule ⟨0, rest⟩ = true → LineEnd ('\n' :: rest)

/-- A body that lacks its `;` ends with its line. -/
theorem bodyReach_lineEnd (h : LineEnd rest) (left : Nat) :
    (bodyReach left 0 .code rest).reason ≠ .terminator ∧
      (bodyReach left 0 .code rest).length = (rest.take 1).length := by
  cases h with
  | nothing => simp [bodyReach]
  | last =>
    rw [bodyReach]
    split
    · split
      · simp
      · split <;> simp [bodyReach, BodyReach.beyond]
    · simp at *
  | next hopens =>
    rw [bodyReach]
    split
    · split
      · simp
      · simp [hopens]
    · simp at *

theorem run_lineEnd (h : LineEnd rest) (d : Draft) (n : Nat) :
    Machine.run limits ⟨.outside, d, ⟨n, rest⟩⟩ =
      Machine.run limits ⟨.outside, d, Cursor.advance 1 ⟨n, rest⟩⟩ := by
  have hfeed : isWhiteSpace '\n' = true := by decide
  cases h with
  | nothing => rfl
  | last =>
    rw [Machine.run_of_rest_cons rfl]
    simp [Machine.step, Machine.stepOutside, hfeed]
  | next hopens =>
    rw [Machine.run_of_rest_cons rfl]
    simp [Machine.step, Machine.stepOutside, hfeed]

/-- What a body does whose reach is known. -/
theorem stepBody_of_reach {h : Header} {d : Draft} {c : Cursor} {raw : List Char}
    {reason : BodyEnd} (hc : c.rest = raw ++ rest)
    (hreach : bodyReach (limits.maxRuleLines - (c.line - h.line)) 0 .code c.rest =
      ⟨reason, raw.length⟩) :
    Machine.stepBody limits h d c = ⟨.outside, d.finishRule h c raw (reason = .terminator),
      c.advance (max (if reason = .terminator then raw.length + 1 else raw.length) 1)⟩ := by
  simp only [Machine.stepBody, hreach]
  rw [hc, List.take_left]

theorem run_body {h : Header} {d : Draft} {c : Cursor} (hc : c.rest ≠ []) :
    Machine.run limits ⟨.body h, d, c⟩ = Machine.run limits (Machine.stepBody limits h d c) := by
  obtain ⟨first, tail, hfirst⟩ := List.exists_cons_of_ne_nil hc
  exact Machine.run_of_rest_cons hfirst

namespace RuleLine

variable (r : RuleLine)

theorem ruleOf_line {feed : List Char} (hfeed : feed = [] ∨ feed = ['\n'])
    (hterm : r.terminated = true → feed = []) (d : Draft) (n : Nat) (cs : List Char) :
    d.ruleOf (r.header n) ⟨n, cs⟩ (r.behindColon ++ feed) r.terminated = r.rule d.mode n := by
  have hline := r.neutral_behindColon.oneLine
  have hblank : ∀ c ∈ feed, isWhiteSpace c = true := by
    rcases hfeed with rfl | rfl <;> exact List.all_eq_true.1 rfl
  simp only [Draft.ruleOf, definitionOf_line hline hfeed, r.trim_behindColon,
    bodyLine_line hline hblank, endLine_line hline hblank hterm, header, rule]
  rfl

/-- The draft behind the line, which is line `n`. -/
def read (n : Nat) (d : Draft) : Draft :=
  (if r.terminated then d else d.report (r.report n)).addRule (r.rule d.mode n)

theorem finishRule_line {feed : List Char} (hfeed : feed = [] ∨ feed = ['\n'])
    (hterm : r.terminated = true → feed = []) {d : Draft}
    (hfresh : d.grammar.rule? (String.ofList r.name) = none) (n : Nat) (cs : List Char) :
    d.finishRule (r.header n) ⟨n, cs⟩ (r.behindColon ++ feed) r.terminated = r.read n d := by
  obtain ⟨d', hd', hcases⟩ :=
    finishRule_cases (r.header n) ⟨n, cs⟩ (r.behindColon ++ feed) r.terminated d
  have hdraft : d' = if r.terminated then d else d.report (r.report n) := hd'
  have hsame : d'.grammar = d.grammar ∧ d'.mode = d.mode := by
    rw [hdraft]
    split <;> exact ⟨rfl, rfl⟩
  obtain ⟨first, hfirst, _⟩ | ⟨_, hclosed⟩ := hcases
  · rw [hsame.1] at hfirst
    exact absurd (hfresh.symm.trans hfirst) (by simp)
  · rw [hclosed, r.ruleOf_line hfeed hterm, hsame.2, hdraft, read]

/-- A body that ends with `;` is read up to it, any other one up to the next line. -/
theorem run_behindColon (hrest : LineEnd rest) {d : Draft}
    (hfresh : d.grammar.rule? (String.ofList r.name) = none) (n : Nat) :
    Machine.run limits ⟨.body (r.header n), d,
        ⟨n, r.behindColon ++ ((if r.terminated then [';'] else []) ++ rest)⟩⟩ =
      Machine.run limits ⟨.outside, r.read n d, Cursor.advance 1 ⟨n, rest⟩⟩ := by
  have hline := r.neutral_behindColon.oneLine
  have hpos : 1 ≤ r.behindColon.length := by simp [behindColon]
  cases hterm : r.terminated with
  | true =>
    have hreach : ∀ left, bodyReach left 0 .code (r.behindColon ++ ';' :: rest) =
        ⟨.terminator, r.behindColon.length⟩ := fun left => by
      simp [r.neutral_behindColon.passed left, bodyReach]
    have hplace : Cursor.advance (r.behindColon.length + 1) ⟨n, r.behindColon ++ ';' :: rest⟩ =
        ⟨n, rest⟩ := by
      have := advance_append (w := r.behindColon ++ [';']) (by simpa using hline) n rest
      simpa using this
    have hstep : Machine.stepBody limits (r.header n) d ⟨n, r.behindColon ++ ';' :: rest⟩ =
        ⟨.outside, r.read n d, ⟨n, rest⟩⟩ := by
      have hfinish := r.finishRule_line (.inl rfl) (fun _ => rfl) hfresh n
        (r.behindColon ++ ';' :: rest)
      rw [hterm, List.append_nil] at hfinish
      rw [stepBody_of_reach rfl (hreach _), if_pos rfl, Nat.max_eq_left (by omega), hplace]
      simp [hfinish]
    rw [if_pos rfl, List.singleton_append, run_body (by simp), hstep, run_lineEnd hrest]
  | false =>
    have hfeed : rest.take 1 = [] ∨ rest.take 1 = ['\n'] := by
      cases hrest <;> simp
    have hraw : r.behindColon ++ rest = (r.behindColon ++ rest.take 1) ++ rest.drop 1 := by
      rw [List.append_assoc, List.take_append_drop]
    have hplace : Cursor.advance (r.behindColon ++ rest.take 1).length ⟨n, r.behindColon ++ rest⟩ =
        Cursor.advance 1 ⟨n, rest⟩ := by
      rw [List.length_append, advance_add, advance_append hline]
      cases hrest <;> rfl
    obtain ⟨hreason, hlength⟩ := bodyReach_lineEnd hrest (limits.maxRuleLines - (n - n))
    have hreach := r.neutral_behindColon.passed (limits.maxRuleLines - (n - n)) rest
    rw [hlength, ← List.length_append] at hreach
    have hstep : Machine.stepBody limits (r.header n) d ⟨n, r.behindColon ++ rest⟩ =
        ⟨.outside, r.read n d, Cursor.advance 1 ⟨n, rest⟩⟩ := by
      have hfinish := r.finishRule_line hfeed (by simp [hterm]) hfresh n (r.behindColon ++ rest)
      rw [hterm] at hfinish
      rw [stepBody_of_reach hraw hreach, if_neg hreason,
        Nat.max_eq_left (by rw [List.length_append]; omega), hplace, decide_eq_false hreason,
        hfinish]
    rw [if_neg (by simp), List.nil_append, run_body (by simp [behindColon]), hstep]

/-- A rule's line is read as its rule, up to the start of the next line. -/
theorem run_text (hrest : LineEnd rest) {d : Draft}
    (hfresh : d.grammar.rule? (String.ofList r.name) = none) (n : Nat) :
    Machine.run limits ⟨.outside, d, ⟨n, r.text ++ rest⟩⟩ =
      Machine.run limits ⟨.outside, r.read n d, Cursor.advance 1 ⟨n, rest⟩⟩ := by
  rw [run_line, run_behindName, r.run_behindColon hrest hfresh]

end RuleLine

/-! ## Statements -/

namespace Title

variable (t : Title) (n : Nat) (rest : List Char)

theorem word_title : Cursor.word ⟨n, t.text ++ ';' :: rest⟩ = t.text :=
  word_append_cons t.isWordChar_text (by decide) n rest

theorem text_ne_nil : t.text ≠ [] := by
  have hvalid := t.valid
  simp only [Bool.and_eq_true, Bool.not_eq_true', List.isEmpty_eq_false_iff] at hvalid
  exact hvalid.1

/-- A statement ends behind its `;`. -/
theorem passStatement_title : Cursor.passStatement ⟨n, t.text ++ ';' :: rest⟩ = ⟨n, rest⟩ := by
  have hfeed : '\n' ∉ t.text := lineFeed_notMem_of_isWordChar t.isWordChar_text
  have hsemi : ';' ∉ t.text := fun h => absurd (t.isWordChar_text _ h) (by decide)
  have hline : (t.text ++ ';' :: rest).takeWhile (· ≠ '\n') =
      t.text ++ ';' :: rest.takeWhile (· ≠ '\n') := by
    rw [List.takeWhile_append_of_pos fun c hc => by simpa using fun h : c = '\n' => hfeed (h ▸ hc)]
    simp
  have hstatement : Cursor.statement ⟨n, t.text ++ ';' :: rest⟩ = t.text ++ [';'] := by
    rw [Cursor.statement, Cursor.restOfLine, hline]
    simp only [List.contains_eq_mem, List.mem_append, List.mem_cons, true_or, or_true,
      decide_true, if_true]
    rw [takeWhile_append_cons (fun c hc => by simpa using fun h : c = ';' => hsemi (h ▸ hc))
      (by simp)]
  have := advance_append (w := t.text ++ [';']) (by simpa using hfeed) n rest
  rw [Cursor.passStatement, hstatement]
  simpa using this

/-- The first character of a title is not blank. -/
theorem passBlank_title (n : Nat) (rest : List Char) :
    Cursor.passBlank ⟨n, ' ' :: (t.text ++ ';' :: rest)⟩ = ⟨n, t.text ++ ';' :: rest⟩ := by
  obtain ⟨c, cs, htext⟩ := List.exists_cons_of_ne_nil t.text_ne_nil
  have hc : isWhiteSpace c = false :=
    not_isWhiteSpace_of_isWordChar (t.isWordChar_text c (htext ▸ List.mem_cons_self))
  rw [htext, List.cons_append, passBlank_space_cons _ _ hc]

end Title

theorem statement_append (keyword : List Char) (t : Title) (rest : List Char) :
    t.statement keyword ++ rest = keyword ++ ' ' :: (t.text ++ ';' :: rest) := by
  simp only [Title.statement, List.append_assoc, List.cons_append, List.nil_append]

/-- What stands behind a keyword, a blank and a title. -/
theorem passBlank_keyword (keyword : List Char) (hk : '\n' ∉ keyword) (t : Title) (n : Nat)
    (rest : List Char) :
    (Cursor.advance keyword.length ⟨n, keyword ++ ' ' :: (t.text ++ ';' :: rest)⟩).passBlank =
      ⟨n, t.text ++ ';' :: rest⟩ := by
  rw [advance_append hk, t.passBlank_title]

theorem modeDeclaration_line (name : Title) (d : Draft) (n : Nat) (rest : List Char) :
    d.modeDeclaration ⟨n, "mode".toList ++ ' ' :: (name.text ++ ';' :: rest)⟩ =
      (d.enterMode (String.ofList name.text) n, ⟨n, rest⟩) := by
  have hplace := passBlank_keyword "mode".toList (by decide) name n rest
  have hlength : "mode".toList.length = 4 := by decide
  rw [hlength] at hplace
  rw [Draft.modeDeclaration]
  simp only [hplace, name.word_title, name.passStatement_title]
  rw [if_neg (by simpa using name.text_ne_nil)]

theorem grammarDeclaration_line (name : Title) {d : Draft} (hd : d.declared = false) (n : Nat)
    (rest : List Char) :
    d.grammarDeclaration ⟨n, "grammar".toList ++ ' ' :: (name.text ++ ';' :: rest)⟩ =
      ({ d with
        grammar := { d.grammar with name := String.ofList name.text, kind := .combined }
        declared := true }, ⟨n, rest⟩) := by
  have hword : ∀ c ∈ "grammar".toList, isWordChar c = true := List.all_eq_true.1 (by decide)
  have hplace := passBlank_keyword "grammar".toList (by decide) name n rest
  have hlength : "grammar".toList.length = 7 := by decide
  rw [hlength] at hplace
  have hkind : Draft.grammarKindAt ⟨n, "grammar".toList ++ ' ' :: (name.text ++ ';' :: rest)⟩ =
      (.combined, ⟨n, "grammar".toList ++ ' ' :: (name.text ++ ';' :: rest)⟩) := by
    rw [Draft.grammarKindAt, hasKeyword_append_cons hword (by decide),
      hasKeyword_append_cons hword (by decide), if_neg (by decide), if_neg (by decide)]
  rw [Draft.grammarDeclaration, hkind]
  simp only [hasKeyword_append_cons hword (by decide : isWordChar ' ' = false), hplace,
    name.word_title, name.passStatement_title, beq_self_eq_true, if_true, Draft.declare, hd]
  rw [if_neg (by simp), if_neg (by simpa using name.text_ne_nil)]

/-- Where a word stands that begins a declaration, the declaration is read. -/
theorem run_declaration {c : Cursor} {r : Draft × Cursor} (hword : c.word ≠ [])
    (hr : Machine.declaration? d c = some r) :
    Machine.run limits ⟨.outside, d, c⟩ = Machine.run limits ⟨.outside, r.1, r.2⟩ := by
  obtain ⟨first, tail, hrest, hfirst⟩ := exists_rest_eq_of_word hword
  rw [Machine.run_of_rest_cons hrest]
  simp only [Machine.step, Machine.stepOutside, not_isWhiteSpace_of_isWordChar hfirst, hr,
    Bool.false_eq_true, if_false]

/-- A mode's line enters the mode. -/
theorem run_modeLine (name : Title) (hrest : LineEnd rest) (d : Draft) (n : Nat) :
    Machine.run limits ⟨.outside, d, ⟨n, (Line.mode name).text ++ rest⟩⟩ =
      Machine.run limits ⟨.outside, d.enterMode (String.ofList name.text) n,
        Cursor.advance 1 ⟨n, rest⟩⟩ := by
  have hblank : isWordChar ' ' = false := by decide
  have hword : ∀ c ∈ "mode".toList, isWordChar c = true := List.all_eq_true.1 (by decide)
  have hdeclaration : Machine.declaration? d
      ⟨n, "mode".toList ++ ' ' :: (name.text ++ ';' :: rest)⟩ =
        some (d.enterMode (String.ofList name.text) n, ⟨n, rest⟩) := by
    rw [← modeDeclaration_line name d n rest]
    simp only [Machine.declaration?, hasKeyword_append_cons hword hblank]
    rfl
  have hne : Cursor.word ⟨n, "mode".toList ++ ' ' :: (name.text ++ ';' :: rest)⟩ ≠ [] := by
    rw [word_append_cons hword hblank]
    decide
  rw [Line.text, statement_append, run_declaration hne hdeclaration, run_lineEnd hrest]

/-- The declaration is read as that of a grammar of both kinds. -/
theorem run_grammarLine (name : Title) {d : Draft} (hd : d.declared = false)
    (hrest : LineEnd rest) (n : Nat) :
    Machine.run limits ⟨.outside, d, ⟨n, name.statement "grammar".toList ++ rest⟩⟩ =
      Machine.run limits ⟨.outside,
        { d with
          grammar := { d.grammar with name := String.ofList name.text, kind := .combined }
          declared := true }, Cursor.advance 1 ⟨n, rest⟩⟩ := by
  have hblank : isWordChar ' ' = false := by decide
  have hword : ∀ c ∈ "grammar".toList, isWordChar c = true := List.all_eq_true.1 (by decide)
  have hdeclaration : Machine.declaration? d
      ⟨n, "grammar".toList ++ ' ' :: (name.text ++ ';' :: rest)⟩ =
        some (d.grammarDeclaration ⟨n, "grammar".toList ++ ' ' :: (name.text ++ ';' :: rest)⟩) := by
    simp only [Machine.declaration?, hasKeyword_append_cons hword hblank]
    rfl
  have hne : Cursor.word ⟨n, "grammar".toList ++ ' ' :: (name.text ++ ';' :: rest)⟩ ≠ [] := by
    rw [word_append_cons hword hblank]
    decide
  rw [statement_append, run_declaration hne hdeclaration, grammarDeclaration_line name hd,
    run_lineEnd hrest]

/-! ## Lines -/

theorem opensRule_modeLine (name : Title) (n : Nat) (rest : List Char) :
    opensRule ⟨n, (Line.mode name).text ++ rest⟩ = true := by
  have hword : ∀ c ∈ "mode".toList, isWordChar c = true := List.all_eq_true.1 (by decide)
  have hblank : isWordChar ' ' = false := by decide
  obtain ⟨c, cs, htext⟩ := List.exists_cons_of_ne_nil name.text_ne_nil
  have hc : isWhiteSpace c = false :=
    not_isWhiteSpace_of_isWordChar (name.isWordChar_text c (htext ▸ List.mem_cons_self))
  have hplace : (Cursor.advance 4
      ⟨n, "mode".toList ++ ' ' :: (name.text ++ ';' :: rest)⟩).passInlineBlank =
        ⟨n, name.text ++ ';' :: rest⟩ := by
    have hadvance := advance_append (w := "mode".toList) (by decide) n
      (' ' :: (name.text ++ ';' :: rest))
    rw [show "mode".toList.length = 4 by decide] at hadvance
    rw [hadvance, htext, List.cons_append, passInlineBlank_space_cons _ _ hc]
  rw [Line.text, statement_append, opensRule, hasKeyword_append_cons hword hblank,
    hasKeyword_append_cons hword hblank, if_neg (by decide), if_pos (by decide)]
  simp only [hplace, name.word_title,
    passWord_append_cons name.isWordChar_text (by decide : isWordChar ';' = false),
    passInlineBlank_cons _ _ (by decide : isWhiteSpace ';' = false)]
  simpa [Cursor.startsWith] using name.text_ne_nil

theorem opensRule_ruleLine (r : RuleLine) (n : Nat) (rest : List Char) :
    opensRule ⟨n, r.text ++ rest⟩ = true := by
  cases hf : r.isFragment with
  | true =>
    rw [opensRule, Cursor.hasKeyword, r.word_line, hf, if_pos rfl, if_pos (by simp)]
  | false =>
    have hblank : isWordChar ' ' = false := by decide
    have htext : r.text ++ rest =
        r.name ++ ' ' :: ':' :: ' ' :: (r.behindName ++ rest).drop 3 := by
      rw [r.text_eq, hf]
      simp [RuleLine.behindName, RuleLine.behindColon]
    have hmodifier : r.name ≠ "fragment".toList := fun h =>
      absurd (h ▸ r.name_notMem_modifierWords) (by decide)
    have hmode : r.name ≠ "mode".toList := fun h =>
      absurd (h ▸ r.name_notMem_declarationWords) (by decide)
    rw [htext, opensRule, hasKeyword_append_cons r.isWordChar_name hblank,
      hasKeyword_append_cons r.isWordChar_name hblank, if_neg (by simpa using hmodifier),
      if_neg (by simpa using hmode)]
    simp only [word_append_cons r.isWordChar_name hblank, r.isIdentifier_name, if_true,
      passWord_append_cons r.isWordChar_name hblank,
      passInlineBlank_space_cons _ _ (by decide : isWhiteSpace ':' = false)]
    simp [Cursor.startsWith]

/-- Every line opens a rule or a mode. -/
theorem opensRule_line (l : Line) (n : Nat) (rest : List Char) :
    opensRule ⟨n, l.text ++ rest⟩ = true := by
  cases l with
  | mode name => exact opensRule_modeLine name n rest
  | rule r => exact opensRule_ruleLine r n rest

theorem linesText_cons (lineFeed : Bool) (l : Line) (ls : List Line) :
    linesText lineFeed (l :: ls) = '\n' :: (l.text ++ linesText lineFeed ls) := by
  simp only [linesText, List.flatMap_cons, List.cons_append, List.append_assoc]

theorem lineEnd_linesText (lineFeed : Bool) (ls : List Line) : LineEnd (linesText lineFeed ls) := by
  cases ls with
  | nil =>
    cases lineFeed
    · exact .nothing
    · exact .last
  | cons l ls =>
    rw [linesText_cons]
    exact .next (opensRule_line l 0 _)

namespace RuleLine

variable (r : RuleLine) (n : Nat) (d : Draft)

theorem rules_read : (r.read n d).grammar.rules = d.grammar.rules ++ [r.rule d.mode n] := by
  unfold read
  split <;> rfl

theorem diagnostics_read : (r.read n d).diagnostics =
    d.diagnostics ++ if r.terminated then [] else [r.report n] := by
  unfold read
  split
  · exact (List.append_nil _).symm
  · rfl

theorem mode_read : (r.read n d).mode = d.mode := by
  unfold read
  split <;> rfl

theorem declared_read : (r.read n d).declared = d.declared := by
  unfold read
  split <;> rfl

/-- Names other than that of the line are as new as they were. -/
theorem rule?_read {name : List Char} (hne : name ≠ r.name)
    (hfresh : d.grammar.rule? (String.ofList name) = none) :
    (r.read n d).grammar.rule? (String.ofList name) = none := by
  have hname : (r.rule d.mode n).name ≠ String.ofList name := fun h =>
    hne (String.ofList_injective h).symm
  rw [Grammar.rule?, rules_read, List.find?_append]
  rw [Grammar.rule?] at hfresh
  simp [hfresh, hname]

end RuleLine

/-- What the machine `m` at the end has read from line `n` on, having started with `d`. -/
structure ReadsLines (d : Draft) (n : Nat) (ls : List Line) (m : Machine) : Prop where
  outside : m.state = .outside
  rules : m.draft.grammar.rules = d.grammar.rules ++ rulesFrom d.mode n ls
  reports : m.draft.diagnostics = d.diagnostics ++ reportsFrom n ls
  declared : m.draft.declared = d.declared

/-- Line by line, each of the rules is read as a new one. -/
theorem run_lines (lineFeed : Bool) (ls : List Line) {d : Draft} {n : Nat}
    (hnodup : (namesOn ls).Nodup)
    (hfresh : ∀ name ∈ namesOn ls, d.grammar.rule? (String.ofList name) = none) :
    ReadsLines d (n + 1) ls (Machine.run limits
      ⟨.outside, d, Cursor.advance 1 ⟨n, linesText lineFeed ls⟩⟩) := by
  induction ls generalizing d n with
  | nil =>
    rw [Machine.run_of_rest_nil (by cases lineFeed <;> rfl)]
    exact ⟨rfl, (List.append_nil _).symm, (List.append_nil _).symm, rfl⟩
  | cons l ls ih =>
    have hend := lineEnd_linesText lineFeed ls
    have hplace : Cursor.advance 1 ⟨n, linesText lineFeed (l :: ls)⟩ =
        ⟨n + 1, l.text ++ linesText lineFeed ls⟩ := by
      simp [linesText_cons, Cursor.advance, lineFeeds]
    rw [hplace]
    cases l with
    | mode name =>
      rw [run_modeLine name hend]
      have hread := ih (d := d.enterMode (String.ofList name.text) (n + 1)) (n := n + 1) hnodup
        hfresh
      exact ⟨hread.outside, hread.rules, hread.reports, hread.declared⟩
    | rule r =>
      have hnames : namesOn (.rule r :: ls) = r.name :: namesOn ls := rfl
      rw [hnames] at hnodup hfresh
      rw [List.forall_mem_cons] at hfresh
      obtain ⟨hnew, hnodup⟩ := List.nodup_cons.1 hnodup
      rw [Line.text, r.run_text hend hfresh.1]
      have hread := ih (d := r.read (n + 1) d) (n := n + 1) hnodup fun name hname =>
        r.rule?_read (n + 1) d (fun h => hnew (h ▸ hname)) (hfresh.2 name hname)
      refine ⟨hread.outside, ?_, ?_, hread.declared.trans (r.declared_read _ d)⟩
      · rw [hread.rules, r.rules_read, r.mode_read, List.append_assoc]
        rfl
      · rw [hread.reports, r.diagnostics_read, List.append_assoc]
        rfl

/-! ## Results -/

namespace LineGrammar

variable (t : LineGrammar)

/-- The draft behind the declaration. -/
def start : Draft where
  grammar := { name := String.ofList t.name.text }
  declared := true

theorem readsLines_scanned (limits : ScanLimits) :
    ReadsLines t.start 2 t.lines (Machine.scanned limits t.text) := by
  have hnodup : (namesOn t.lines).Nodup := t.namesOn_lines ▸ t.distinct
  have hdeclared : Machine.scanned limits t.text =
      Machine.run limits ⟨.outside, t.start,
        Cursor.advance 1 ⟨1, linesText t.lineFeed t.lines⟩⟩ := by
    rw [Machine.scanned, t.strip_text]
    exact run_grammarLine t.name rfl (lineEnd_linesText t.lineFeed t.lines) 1
  rw [hdeclared]
  exact run_lines t.lineFeed t.lines hnodup fun _ _ => rfl

end LineGrammar

/-- A grammar that is written line by line is scanned as it was written, and each line without its
`;` is reported, and nothing else is. -/
theorem scan_text (limits : ScanLimits) (t : LineGrammar) :
    (scan limits t.text).1.rules = t.rules ∧ (scan limits t.text).2 = t.reports := by
  have hread := t.readsLines_scanned limits
  have hclose : (Machine.scanned limits t.text).close = (Machine.scanned limits t.text).draft := by
    rw [Machine.close, hread.outside]
  constructor
  · rw [Machine.grammar_scan, hclose, hread.rules]
    rfl
  · have hdeclared : t.start.declared = true := rfl
    rw [Machine.diagnostics_scan, hclose, hread.declared, if_pos hdeclared, hread.reports]
    rfl

/-- Two rules that lack their `;`, one of them behind a mode, and one that has it. -/
def brokenGrammar : LineGrammar where
  name := ⟨"L".toList, by decide⟩
  first :=
    [⟨"A".toList, false, [⟨"';//'".toList, by decide⟩, ⟨"[\"']".toList, by decide⟩], true, false,
      by decide⟩,
     ⟨"b".toList, true, [⟨"A".toList, by decide⟩, ⟨"+=".toList, by decide⟩], true, true, by decide⟩]
  sections := [(⟨"M".toList, by decide⟩,
    [⟨"C".toList, false, [⟨"'\\''".toList, by decide⟩], false, false, by decide⟩])]
  lineFeed := false
  distinct := by decide

theorem scan_brokenGrammar :
    brokenGrammar.text =
        "grammar L;\nA : ';//' [\"'] \nfragment b : A += ;\nmode M;\nC : '\\''".toList ∧
      ((scan {} brokenGrammar.text).1.rules.map fun r => (r.name, r.lineNumber, r.mode)) =
        [("A", 2, some defaultMode), ("b", 3, none), ("C", 5, some "M")] ∧
      (scan {} brokenGrammar.text).2.map (·.line) = [some 2, some 5] := by
  refine ⟨by decide, ?_, ?_⟩
  · rw [(scan_text {} brokenGrammar).1]
    decide
  · rw [(scan_text {} brokenGrammar).2]
    decide

end GrammarLab.Source
