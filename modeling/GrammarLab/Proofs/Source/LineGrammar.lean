import GrammarLab.Proofs.Source.Lines

/-!
# Grammars written line by line

A grammar as most are written: its declaration, then one rule a line, the modes opened by lines of
their own. Bodies are words between single blanks, so nothing in them is taken for a comment, for
the end of the rule or for the start of the next one.

    strip t.text = t.text                                         (strip_text)
-/

namespace GrammarLab.Source

open Text

/-! ## Words -/

/-- What stands behind the opening of a literal or a class: `mark` closes it at the end and not
before, a backslash takes any character with it, and nothing ends the line. -/
def closedBy (mark : Char) : List Char → Bool
  | [] => false
  | [c] => c = mark
  | c :: d :: cs =>
    if c = '\\' then d ≠ '\n' && closedBy mark cs
    else c ≠ mark && c ≠ '\n' && closedBy mark (d :: cs)

def operators : List (List Char) :=
  ["(", ")", "|", "?", "*", "+", "~", ".", "..", "->", "#", "=", "+=", ",", "<", ">"].map
    String.toList

/-- An identifier, a literal, a character class or an operator. -/
def isWord (s : List Char) : Bool :=
  match s with
  | [] => false
  | c :: cs =>
    isWordStart c && cs.all isWordChar || c = '\'' && closedBy '\'' cs ||
      c = '[' && closedBy ']' cs || operators.contains (c :: cs)

structure Word where
  text : List Char
  valid : isWord text = true

/-- The words that begin a declaration or a handler at the start of a line. -/
def declarationWords : List (List Char) :=
  ["grammar", "lexer", "parser", "import", "options", "tokens", "channels", "mode", "catch",
    "finally"].map String.toList

/-- The words that stand in front of a rule's name. -/
def modifierWords : List (List Char) :=
  ["fragment", "public", "private", "protected"].map String.toList

def isRuleName (s : List Char) : Bool :=
  match s with
  | [] => false
  | c :: cs =>
    c.isAlpha && cs.all isWordChar && !(declarationWords ++ modifierWords).contains (c :: cs)

/-- The name of a grammar or of a mode. -/
structure Title where
  text : List Char
  valid : (!text.isEmpty && text.all isWordChar) = true

/-- A statement of a keyword and a title. -/
def Title.statement (keyword : List Char) (t : Title) : List Char :=
  keyword ++ ' ' :: (t.text ++ [';'])

/-! ## Lines -/

/-- A rule on a line of its own. -/
structure RuleLine where
  name : List Char
  isFragment : Bool
  body : List Word
  /-- A blank stands behind the body. -/
  spaced : Bool
  /-- The line ends with `;`. -/
  terminated : Bool
  valid : isRuleName name = true

namespace RuleLine

def definition (r : RuleLine) : List Char := [' '].intercalate (r.body.map (·.text))

/-- What stands behind the colon, the `;` left out. -/
def behindColon (r : RuleLine) : List Char :=
  ' ' :: r.definition ++ if r.spaced then [' '] else []

def text (r : RuleLine) : List Char :=
  (if r.isFragment then "fragment".toList ++ [' '] else []) ++ r.name ++ [' ', ':'] ++
    r.behindColon ++ if r.terminated then [';'] else []

/-- The rule of the line, which is line `n` and belongs to a mode. -/
def rule (mode : String) (n : Nat) (r : RuleLine) : Rule :=
  let name := String.ofList r.name
  { name, isFragment := r.isFragment, definition := r.definition, lineNumber := n, bodyLine := n
    endLine := n, referencedRules := Body.referencedNames r.definition
    mode := if isLexerName name then some mode else none }

/-- The report that line `n` lacks its `;`. -/
def report (n : Nat) (r : RuleLine) : Diagnostic :=
  let name := String.ofList r.name
  (Diagnostic.ofKind .missingTerminator).onLine n |>.onRule name |>.withDetail name

end RuleLine

inductive Line
  | mode (name : Title)
  | rule (r : RuleLine)

def Line.text : Line → List Char
  | .mode name => name.statement "mode".toList
  | .rule r => r.text

/-- The lines, each behind the line feed that begins it. -/
def linesText (lineFeed : Bool) (ls : List Line) : List Char :=
  ls.flatMap (fun l => '\n' :: l.text) ++ if lineFeed then ['\n'] else []

/-- The rules on the lines from line `n` on, the first of which belong to `mode`. -/
def rulesFrom (mode : String) (n : Nat) : List Line → List Rule
  | [] => []
  | .mode name :: ls => rulesFrom (String.ofList name.text) (n + 1) ls
  | .rule r :: ls => r.rule mode n :: rulesFrom mode (n + 1) ls

/-- One report for each rule without `;` on the lines from line `n` on. -/
def reportsFrom (n : Nat) : List Line → Diagnostics
  | [] => []
  | .mode _ :: ls => reportsFrom (n + 1) ls
  | .rule r :: ls => (if r.terminated then [] else [r.report n]) ++ reportsFrom (n + 1) ls

/-- The names of the rules on the lines. -/
def namesOn (ls : List Line) : List (List Char) :=
  ls.filterMap fun l => match l with
    | .mode _ => none
    | .rule r => some r.name

/-! ## Grammars -/

structure LineGrammar where
  name : Title
  /-- The rules in front of the first mode. -/
  first : List RuleLine
  /-- The modes with their rules. -/
  sections : List (Title × List RuleLine)
  /-- The last line ends with a line feed. -/
  lineFeed : Bool
  distinct : ((first ++ sections.flatMap (·.2)).map (·.name)).Nodup

namespace LineGrammar

def lines (t : LineGrammar) : List Line :=
  t.first.map .rule ++ t.sections.flatMap fun s => .mode s.1 :: s.2.map .rule

def text (t : LineGrammar) : List Char :=
  t.name.statement "grammar".toList ++ linesText t.lineFeed t.lines

/-- The rules in order; the line behind the declaration is line 2. -/
def rules (t : LineGrammar) : List Rule := rulesFrom defaultMode 2 t.lines

def reports (t : LineGrammar) : Diagnostics := reportsFrom 2 t.lines

theorem namesOn_lines (t : LineGrammar) :
    namesOn t.lines = (t.first ++ t.sections.flatMap (·.2)).map (·.name) := by
  have hrules : ∀ rs : List RuleLine, namesOn (rs.map .rule) = rs.map (·.name) := fun rs => by
    simp [namesOn, List.filterMap_map, List.filterMap_eq_map']
  have hsections : ∀ ss : List (Title × List RuleLine),
      namesOn (ss.flatMap fun s => .mode s.1 :: s.2.map .rule) =
        (ss.flatMap (·.2)).map (·.name) := fun ss => by
    induction ss with
    | nil => rfl
    | cons s ss ih =>
      rw [List.flatMap_cons, List.flatMap_cons, List.map_append, ← ih, ← hrules]
      simp [namesOn]
  rw [lines, List.map_append, ← hrules, ← hsections, namesOn, List.filterMap_append]
  rfl

end LineGrammar

/-! ## Texts that keep code code -/

/-- No comment begins in `s`, and a literal or class that opens in it is closed in it. -/
def Kept (s : List Char) : Prop := ∀ t, stripFrom .code (s ++ t) = s ++ stripFrom .code t

/-- Neither a body ends in `s` nor a line, and a literal or class that opens in it is closed in
it. -/
def Passed (s : List Char) : Prop :=
  ∀ left t, bodyReach left 0 .code (s ++ t) =
    ⟨(bodyReach left 0 .code t).reason, s.length + (bodyReach left 0 .code t).length⟩

theorem kept_nil : Kept [] := fun _ => rfl

theorem Kept.append {s s' : List Char} (h : Kept s) (h' : Kept s') : Kept (s ++ s') := fun t => by
  rw [List.append_assoc, h, h', List.append_assoc]

theorem Passed.append {s s' : List Char} (h : Passed s) (h' : Passed s') : Passed (s ++ s') :=
  fun left t => by
    rw [List.append_assoc, h, h', List.length_append, Nat.add_assoc]

/-- Neither opens a comment, a literal or a class. -/
def opensNothing (c : Char) : Bool := c ≠ '/' && c ≠ '\'' && c ≠ '"' && c ≠ '['

/-- Nor does it end a line or a body, or open an action. -/
def isPlain (c : Char) : Bool :=
  opensNothing c && c ≠ '\n' && c ≠ ';' && c ≠ '\x7b' && c ≠ '\x7d'

theorem kept_of_opensNothing {s : List Char} (hs : ∀ c ∈ s, opensNothing c = true) : Kept s := by
  intro t
  induction s with
  | nil => rfl
  | cons c s ih =>
    rw [List.forall_mem_cons] at hs
    obtain ⟨hc, hs⟩ := hs
    simp only [opensNothing, Bool.and_eq_true, decide_eq_true_eq] at hc
    rw [List.cons_append, List.cons_append, ← ih hs]
    by_cases hfeed : c = '\n'
    · rw [hfeed, stripFrom.eq_def]
      simp [CommentState.afterLineFeed]
    · rw [stripFrom_code_cons hc.1.1.1 hfeed]
      simp [CommentState.afterCode, hc]

theorem bodyReach_cons {left : Nat} {state : BodyState} {c : Char} (hfeed : c ≠ '\n')
    (hsemi : c = ';' → state ≠ .code) (t : List Char) :
    bodyReach left 0 state (c :: t) =
      (bodyReach left (state.next 0 c).2 (state.next 0 c).1 t).beyond := by
  rw [bodyReach, if_neg hfeed, if_neg]
  simpa using hsemi

theorem passed_of_isPlain {s : List Char} (hs : ∀ c ∈ s, isPlain c = true) : Passed s := by
  intro left t
  induction s with
  | nil => simp
  | cons c s ih =>
    rw [List.forall_mem_cons] at hs
    obtain ⟨hc, hs⟩ := hs
    simp only [isPlain, opensNothing, Bool.and_eq_true, decide_eq_true_eq] at hc
    rw [List.cons_append, bodyReach_cons hc.1.1.1.2 (fun h => absurd h hc.1.1.2)]
    have hnext : BodyState.next 0 c .code = (.code, 0) := by
      simp [BodyState.next, afterBodyCode, hc]
    rw [hnext, ih hs]
    simp [BodyReach.beyond]; omega

/-! ## Literals and classes -/

section

variable {mark : Char} {cs : List Char}

/-- A machine that waits for `mark` is back in code behind a text that `mark` closes. -/
theorem stripFrom_closedBy (inside escape : CommentState) (hmark : mark ≠ '\\')
    (hinside : ∀ c t, c ≠ '\n' → stripFrom inside (c :: t) =
      c :: stripFrom (if c = '\\' then escape else if c = mark then .code else inside) t)
    (hescape : ∀ c t, c ≠ '\n' → stripFrom escape (c :: t) = c :: stripFrom inside t)
    (hfeed : mark ≠ '\n') (h : closedBy mark cs = true) (t : List Char) :
    stripFrom inside (cs ++ t) = cs ++ stripFrom .code t := by
  fun_induction closedBy mark cs with
  | case1 => simp at h
  | case2 c =>
    have hc : c = mark := by simpa using h
    subst hc
    simp [hinside c t hfeed, hmark]
  | case3 d cs ih =>
    simp only [Bool.and_eq_true, decide_eq_true_eq] at h
    simp [hinside, hescape _ _ h.1, ih h.2]
  | case4 c d cs hc ih =>
    simp only [Bool.and_eq_true, decide_eq_true_eq] at h
    rw [List.cons_append, hinside _ _ h.1.2, if_neg hc, if_neg h.1.1, ih h.2]
    rfl

theorem bodyReach_closedBy (inside escape : BodyState) (hmark : mark ≠ '\\')
    (hinside : ∀ c, inside.next 0 c =
      (if c = '\\' then escape else if c = mark then .code else inside, 0))
    (hescape : ∀ c, escape.next 0 c = (inside, 0)) (hin : inside ≠ .code) (hes : escape ≠ .code)
    (hfeed : mark ≠ '\n') (h : closedBy mark cs = true) (left : Nat) (t : List Char) :
    bodyReach left 0 inside (cs ++ t) =
      ⟨(bodyReach left 0 .code t).reason, cs.length + (bodyReach left 0 .code t).length⟩ := by
  fun_induction closedBy mark cs with
  | case1 => simp at h
  | case2 c =>
    have hc : c = mark := by simpa using h
    subst hc
    rw [List.singleton_append, bodyReach_cons hfeed (fun _ => hin), hinside]
    simp [hmark, BodyReach.beyond]; omega
  | case3 d cs ih =>
    simp only [Bool.and_eq_true, decide_eq_true_eq] at h
    rw [List.cons_append, List.cons_append, bodyReach_cons (by decide) (fun _ => hin), hinside,
      if_pos rfl, bodyReach_cons h.1 (fun _ => hes), hescape, ih h.2]
    simp [BodyReach.beyond]; omega
  | case4 c d cs hc ih =>
    simp only [Bool.and_eq_true, decide_eq_true_eq] at h
    rw [List.cons_append, bodyReach_cons h.1.2 (fun _ => hin), hinside, if_neg hc, if_neg h.1.1,
      ih h.2]
    simp [BodyReach.beyond]; omega

theorem kept_literal (h : closedBy '\'' cs = true) : Kept ('\'' :: cs) := fun t => by
  rw [List.cons_append, stripFrom_code_cons (by decide) (by decide)]
  have hinside := stripFrom_closedBy (.quoted '\'') (.quotedEscape '\'') (by decide)
    (fun c t hc => ?_) (fun c t hc => ?_) (by decide) h t
  · simpa [CommentState.afterCode] using hinside
  · rw [stripFrom, if_neg hc]
    rfl
  · rw [stripFrom, if_neg hc]

theorem kept_charClass (h : closedBy ']' cs = true) : Kept ('[' :: cs) := fun t => by
  rw [List.cons_append, stripFrom_code_cons (by decide) (by decide)]
  have hinside := stripFrom_closedBy .inClass .classEscape (by decide) (fun c t hc => ?_)
    (fun c t hc => ?_) (by decide) h t
  · simpa [CommentState.afterCode] using hinside
  · rw [stripFrom, if_neg hc]
    rfl
  · rw [stripFrom, if_neg hc]

theorem passed_literal (h : closedBy '\'' cs = true) : Passed ('\'' :: cs) := fun left t => by
  have hinside := bodyReach_closedBy (.quoted '\'') (.quotedEscape '\'') (by decide) (fun _ => rfl)
    (fun _ => rfl) (by decide) (by decide) (by decide) h left t
  rw [List.cons_append, bodyReach_cons (by decide) (by decide)]
  simp [BodyState.next, afterBodyCode, hinside, BodyReach.beyond]; omega

theorem passed_charClass (h : closedBy ']' cs = true) : Passed ('[' :: cs) := fun left t => by
  have hinside := bodyReach_closedBy .inClass .classEscape (by decide) (fun _ => rfl) (fun _ => rfl)
    (by decide) (by decide) (by decide) h left t
  rw [List.cons_append, bodyReach_cons (by decide) (by decide)]
  simp [BodyState.next, afterBodyCode, hinside, BodyReach.beyond]; omega

theorem lineFeed_notMem_closedBy (hmark : mark ≠ '\n') (h : closedBy mark cs = true) :
    '\n' ∉ cs := by
  fun_induction closedBy mark cs with
  | case1 => simp at h
  | case2 c =>
    have hc : c = mark := by simpa using h
    simpa [hc] using hmark.symm
  | case3 d cs ih =>
    simp only [Bool.and_eq_true, decide_eq_true_eq] at h
    simpa [ih h.2] using fun hd => h.1 hd.symm
  | case4 c d cs hc ih =>
    simp only [Bool.and_eq_true, decide_eq_true_eq] at h
    exact List.not_mem_cons_of_ne_of_not_mem h.1.2.symm (ih h.2)

theorem getLast?_closedBy (h : closedBy mark cs = true) : cs.getLast? = some mark := by
  fun_induction closedBy mark cs with
  | case1 => simp at h
  | case2 c => simpa using h
  | case3 d cs ih =>
    simp only [Bool.and_eq_true, decide_eq_true_eq] at h
    have := ih h.2
    simp [List.getLast?_cons, this]
  | case4 c d cs hc ih =>
    simp only [Bool.and_eq_true, decide_eq_true_eq] at h
    rw [List.getLast?_cons_cons, ih h.2]

end

/-! ## Words -/

theorem isPlain_of_isWordChar {c : Char} (h : isWordChar c = true) : isPlain c = true := by
  simp only [isPlain, opensNothing, Bool.and_eq_true, decide_eq_true_eq]
  refine ⟨⟨⟨⟨⟨⟨⟨?_, ?_⟩, ?_⟩, ?_⟩, ?_⟩, ?_⟩, ?_⟩, ?_⟩ <;> rintro rfl <;> simp [isWordChar] at h

theorem toNat_of_isWordChar {c : Char} (h : isWordChar c = true) :
    48 ≤ c.toNat ∧ c.toNat < 128 := by
  have hval : c.toNat = c.val.toNat := rfl
  have hranges : isWordChar c =
      (decide ('A'.val ≤ c.val ∧ c.val ≤ 'Z'.val) ||
        (decide ('a'.val ≤ c.val) && decide (c.val ≤ 'z'.val)) ||
        (decide ('0'.val ≤ c.val) && decide (c.val ≤ '9'.val)) || decide (c = '_')) := rfl
  simp only [hranges, Bool.or_eq_true, Bool.and_eq_true, decide_eq_true_eq, Char.reduceVal,
    UInt32.le_iff_toNat_le, UInt32.reduceToNat] at h
  rcases h with ((h | h) | h) | rfl
  · omega
  · omega
  · omega
  · decide

theorem not_isWhiteSpace_of_isWordChar {c : Char} (h : isWordChar c = true) :
    isWhiteSpace c = false := by
  have hrange := toNat_of_isWordChar h
  have hspace : c ≠ ' ' := by
    rintro rfl
    exact absurd hrange.1 (by decide)
  have hcontrol : ¬c.toNat ≤ 13 := by omega
  simp [isWhiteSpace, hrange.2, hspace, hcontrol]

/-- A text on one line that is passed over as code. -/
structure Neutral (s : List Char) : Prop where
  kept : Kept s
  passed : Passed s
  oneLine : '\n' ∉ s

theorem Neutral.append {s s' : List Char} (h : Neutral s) (h' : Neutral s') :
    Neutral (s ++ s') where
  kept := h.kept.append h'.kept
  passed := h.passed.append h'.passed
  oneLine := by simp [h.oneLine, h'.oneLine]

theorem opensNothing_of_isPlain {c : Char} (h : isPlain c = true) : opensNothing c = true := by
  simp only [isPlain, Bool.and_eq_true] at h
  exact h.1.1.1.1

theorem neutral_of_isPlain {s : List Char} (h : ∀ c ∈ s, isPlain c = true) : Neutral s where
  kept := kept_of_opensNothing fun c hc => opensNothing_of_isPlain (h c hc)
  passed := passed_of_isPlain h
  oneLine := fun hmem => absurd (h _ hmem) (by decide)

theorem isPlain_of_mem_operators {s : List Char} (hs : s ∈ operators) :
    ∀ c ∈ s, isPlain c = true ∧ isWhiteSpace c = false := by
  have hall : operators.all (·.all fun c => isPlain c && !isWhiteSpace c) = true := by decide
  intro c hc
  have := List.all_eq_true.1 (List.all_eq_true.1 hall s hs) c hc
  simpa using this

/-- The shapes of a word. -/
theorem isWord_cases {s : List Char} (h : isWord s = true) :
    (s ≠ [] ∧ ∀ c ∈ s, isPlain c = true ∧ isWhiteSpace c = false) ∨
      (∃ cs, s = '\'' :: cs ∧ closedBy '\'' cs = true) ∨
      ∃ cs, s = '[' :: cs ∧ closedBy ']' cs = true := by
  cases s with
  | nil => simp [isWord] at h
  | cons c cs =>
    simp only [isWord, Bool.or_eq_true, Bool.and_eq_true, decide_eq_true_eq, List.all_eq_true,
      List.contains_iff_mem] at h
    rcases h with ((⟨hstart, hrest⟩ | ⟨rfl, hclosed⟩) | ⟨rfl, hclosed⟩) | hop
    · refine .inl ⟨List.cons_ne_nil c cs, fun d hd => ?_⟩
      have hword : isWordChar d = true := by
        rcases List.mem_cons.1 hd with rfl | hd
        · exact isWordChar_of_isWordStart hstart
        · exact hrest d hd
      exact ⟨isPlain_of_isWordChar hword, not_isWhiteSpace_of_isWordChar hword⟩
    · exact .inr (.inl ⟨cs, rfl, hclosed⟩)
    · exact .inr (.inr ⟨cs, rfl, hclosed⟩)
    · exact .inl ⟨List.cons_ne_nil c cs, isPlain_of_mem_operators hop⟩

theorem Word.neutral (w : Word) : Neutral w.text := by
  rcases isWord_cases w.valid with ⟨_, hplain⟩ | ⟨cs, hw, hclosed⟩ | ⟨cs, hw, hclosed⟩
  · exact neutral_of_isPlain fun c hc => (hplain c hc).1
  · rw [hw]
    exact ⟨kept_literal hclosed, passed_literal hclosed,
      by simpa using lineFeed_notMem_closedBy (by decide) hclosed⟩
  · rw [hw]
    exact ⟨kept_charClass hclosed, passed_charClass hclosed,
      by simpa using lineFeed_notMem_closedBy (by decide) hclosed⟩

/-- A text with something other than blank space at both ends. -/
structure Edged (s : List Char) : Prop where
  head : ∃ c, s.head? = some c ∧ isWhiteSpace c = false
  last : ∃ c, s.getLast? = some c ∧ isWhiteSpace c = false

theorem Edged.append {s s' : List Char} (h : Edged s) (h' : Edged s') (t : List Char) :
    Edged (s ++ t ++ s') where
  head := by
    obtain ⟨c, hc, hblank⟩ := h.head
    exact ⟨c, by simp [hc], hblank⟩
  last := by
    obtain ⟨c, hc, hblank⟩ := h'.last
    exact ⟨c, by simp [hc], hblank⟩

theorem Word.edged (w : Word) : Edged w.text := by
  have hdelimited : ∀ {opening mark cs}, isWhiteSpace opening = false → isWhiteSpace mark = false →
      closedBy mark cs = true → Edged (opening :: cs) := fun {opening mark cs} ho hm hclosed =>
    ⟨⟨opening, rfl, ho⟩, mark, by simp [List.getLast?_cons, getLast?_closedBy hclosed], hm⟩
  rcases isWord_cases w.valid with ⟨hne, hplain⟩ | ⟨cs, hw, hclosed⟩ | ⟨cs, hw, hclosed⟩
  · exact ⟨⟨_, List.head?_eq_some_head hne, (hplain _ (List.head_mem hne)).2⟩,
      _, List.getLast?_eq_some_getLast hne, (hplain _ (List.getLast_mem hne)).2⟩
  · exact hw ▸ hdelimited (by decide) (by decide) hclosed
  · exact hw ▸ hdelimited (by decide) (by decide) hclosed

/-! ## Bodies -/

theorem neutral_intercalate (ws : List Word) : Neutral ([' '].intercalate (ws.map (·.text))) := by
  induction ws with
  | nil => exact neutral_of_isPlain (by simp)
  | cons w ws ih =>
    cases ws with
    | nil => simpa using w.neutral
    | cons w' ws =>
      rw [List.map_cons, List.map_cons, List.intercalate_cons_cons, ← List.map_cons]
      exact (w.neutral.append (neutral_of_isPlain (List.all_eq_true.1 rfl))).append ih

theorem edged_intercalate {ws : List Word} (hws : ws ≠ []) :
    Edged ([' '].intercalate (ws.map (·.text))) := by
  induction ws with
  | nil => exact absurd rfl hws
  | cons w ws ih =>
    cases ws with
    | nil => simpa using w.edged
    | cons w' ws =>
      rw [List.map_cons, List.map_cons, List.intercalate_cons_cons, ← List.map_cons]
      exact w.edged.append (ih (List.cons_ne_nil w' ws)) [' ']

namespace RuleLine

variable (r : RuleLine)

theorem neutral_behindColon : Neutral r.behindColon := by
  have hblank : Neutral [' '] := neutral_of_isPlain (List.all_eq_true.1 rfl)
  unfold behindColon
  refine (hblank.append (neutral_intercalate r.body)).append ?_
  split
  · exact hblank
  · exact neutral_of_isPlain (by simp)

theorem trim_definition : trim r.definition = r.definition := by
  by_cases hbody : r.body = []
  · simp [definition, hbody, trim, trimStart, trimEnd]
  · obtain ⟨⟨c, hc, hcblank⟩, d, hd, hdblank⟩ := edged_intercalate hbody
    exact trim_eq_self (by simpa [definition, hc] using hcblank)
      (by simpa [definition, hd] using hdblank)

theorem trim_behindColon : trim r.behindColon = r.definition := by
  have hend : ∀ c ∈ (if r.spaced then [' '] else []), isWhiteSpace c = true := by
    split <;> exact List.all_eq_true.1 rfl
  rw [behindColon, trim_append_blank hend, ← List.singleton_append,
    trim_blank_append (List.all_eq_true.1 rfl), trim_definition]

end RuleLine

/-- A body on one line is trimmed, and a line feed behind it makes no difference. -/
theorem definitionOf_line {s : List Char} (hs : '\n' ∉ s) {feed : List Char}
    (hfeed : feed = [] ∨ feed = ['\n']) : definitionOf (s ++ feed) = trim s := by
  have hnone : ∀ c ∈ s, decide (c = '\n') = false := fun c hc => by
    simpa using fun h : c = '\n' => hs (h ▸ hc)
  unfold definitionOf lines
  rcases hfeed with rfl | rfl
  · rw [List.append_nil, splitOn_eq_singleton hnone]
    simp [trim_trimEnd]
  · have hjoin : ['\n'].intercalate [trimEnd s, trimEnd []] = trimEnd s ++ ['\n'] := by
      simp [trimEnd]
    rw [splitOn_append_cons hnone (by decide), splitOn, List.map_cons, List.map_singleton, hjoin,
      trim_append_blank (List.all_eq_true.1 rfl), trim_trimEnd]

theorem lineFeeds_eq_zero {s : List Char} (h : '\n' ∉ s) : lineFeeds s = 0 :=
  List.count_eq_zero.2 h

section

variable {s feed : List Char} (hs : '\n' ∉ s) (hfeed : ∀ c ∈ feed, isWhiteSpace c = true)

include hs hfeed

theorem lineFeeds_trimEnd_line : lineFeeds (trimEnd (s ++ feed)) = 0 := by
  rw [trimEnd_append_blank hfeed]
  exact lineFeeds_eq_zero fun h => hs ((isPrefix_trimEnd s).subset h)

/-- A body on one line begins on that line and ends on it. -/
theorem bodyLine_line (c : Cursor) : bodyLine c (s ++ feed) = c.line := by
  unfold bodyLine
  split
  · rfl
  · rename_i hblank
    have hlead := lineFeeds_le_of_isPrefix (isPrefix_takeWhile_trimEnd (by simpa using hblank))
    rw [lineFeeds_trimEnd_line hs hfeed] at hlead
    omega

theorem endLine_line {terminated : Bool} (hterm : terminated = true → feed = []) (c : Cursor) :
    endLine c (s ++ feed) terminated = c.line := by
  unfold endLine
  split
  · rename_i h
    rw [hterm h, List.append_nil, lineFeeds_eq_zero hs, Nat.add_zero]
  split
  · exact bodyLine_line hs hfeed c
  · rw [lineFeeds_trimEnd_line hs hfeed, Nat.add_zero]

end

/-! ## Whole texts -/

theorem RuleLine.isWordChar_name (r : RuleLine) : ∀ c ∈ r.name, isWordChar c = true := by
  have hvalid := r.valid
  cases hname : r.name with
  | nil => simp
  | cons c cs =>
    simp only [hname, isRuleName, Bool.and_eq_true, List.all_eq_true] at hvalid
    refine List.forall_mem_cons.2 ⟨?_, hvalid.1.2⟩
    simp [isWordChar, Char.isAlphanum, hvalid.1.1]

theorem Title.isWordChar_text (t : Title) : ∀ c ∈ t.text, isWordChar c = true := by
  have hvalid := t.valid
  simp only [Bool.and_eq_true, List.all_eq_true] at hvalid
  exact hvalid.2

theorem kept_of_isWordChar {s : List Char} (h : ∀ c ∈ s, isWordChar c = true) : Kept s :=
  kept_of_opensNothing fun c hc => opensNothing_of_isPlain (isPlain_of_isWordChar (h c hc))

theorem RuleLine.kept_text (r : RuleLine) : Kept r.text := by
  have hfragment : Kept (if r.isFragment then "fragment".toList ++ [' '] else []) := by
    split
    · exact kept_of_opensNothing (List.all_eq_true.1 rfl)
    · exact kept_nil
  have hend : Kept (if r.terminated then [';'] else []) := by
    split
    · exact kept_of_opensNothing (List.all_eq_true.1 rfl)
    · exact kept_nil
  exact (((hfragment.append (kept_of_isWordChar r.isWordChar_name)).append
    (kept_of_opensNothing (List.all_eq_true.1 rfl))).append r.neutral_behindColon.kept).append hend

theorem Title.kept_statement {keyword : List Char} (hk : ∀ c ∈ keyword, isWordChar c = true)
    (t : Title) : Kept (t.statement keyword) := by
  have hblank : Kept [' '] := kept_of_opensNothing (List.all_eq_true.1 rfl)
  have hend : Kept [';'] := kept_of_opensNothing (List.all_eq_true.1 rfl)
  have := (kept_of_isWordChar hk).append (hblank.append
    ((kept_of_isWordChar t.isWordChar_text).append hend))
  exact this

theorem Line.kept_text (l : Line) : Kept l.text := by
  cases l with
  | mode name => exact name.kept_statement (List.all_eq_true.1 rfl)
  | rule r => exact r.kept_text

theorem kept_linesText (lineFeed : Bool) (ls : List Line) : Kept (linesText lineFeed ls) := by
  have hfeed : Kept ['\n'] := kept_of_opensNothing (List.all_eq_true.1 rfl)
  have hlines : Kept (ls.flatMap fun l => '\n' :: l.text) := by
    induction ls with
    | nil => exact kept_nil
    | cons l ls ih => exact (hfeed.append l.kept_text).append ih
  unfold linesText
  split
  · exact hlines.append hfeed
  · exact hlines.append kept_nil

/-- There is no comment in a grammar that is written line by line. -/
theorem LineGrammar.strip_text (t : LineGrammar) : strip t.text = t.text := by
  have hkept : Kept t.text :=
    (t.name.kept_statement (List.all_eq_true.1 rfl)).append (kept_linesText t.lineFeed t.lines)
  simpa [stripFrom_nil, strip] using hkept []

end GrammarLab.Source
