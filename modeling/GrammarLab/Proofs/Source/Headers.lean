import GrammarLab.Proofs.Source.Declarations

/-!
# Steps outside bodies by byte offsets

What a machine does outside rules and behind a rule name, checked: from an offset to the state, the
draft and the number of bytes passed. In front of a character it is what the machine with a cursor
does. The lines that a header has taken are a difference, which is never negative: what is read of
a header stands behind its name.

    At text pos c → Moves text pos (outside? text d pos) (stepOutside first d c)
-/

namespace GrammarLab.Source

open Text

namespace Bytes

/-- The state and the draft behind a step, and the number of bytes that it has passed. -/
structure Move where
  state : State
  draft : Draft
  length : Nat

/-- What has been read leaves the machine in `state`. -/
def into (state : State) (reading : Reading) : Option Move :=
  reading.map fun r => ⟨state, r.1, r.2⟩

section

variable (text : List Char) (d : Draft) (pos : Nat)

/-! ## Outside rules -/

/-- Any of the declarations, if one stands there. -/
def declaration? : Option Reading :=
  if keywordAt text pos "grammar" || keywordAt text pos "lexer" || keywordAt text pos "parser" then
    some (grammarDeclaration? text d pos)
  else if keywordAt text pos "import" then some (importDeclaration? text d pos)
  else if keywordAt text pos "options" then some (blockDeclaration? text d pos .options)
  else if keywordAt text pos "tokens" then some (blockDeclaration? text d pos .tokens)
  else if keywordAt text pos "channels" then some (blockDeclaration? text d pos .channels)
  else if keywordAt text pos "mode" then some (modeDeclaration? text d pos)
  else if keywordAt text pos "catch" || keywordAt text pos "finally" then some (handler? text d pos)
  else if charAt? text pos = some '@' then some (namedAction? text d pos)
  else none

def modifierAt? : Option (Bool × Nat) :=
  if keywordAt text pos "fragment" then some (true, 8)
  else if keywordAt text pos "public" then some (false, 6)
  else if keywordAt text pos "private" then some (false, 7)
  else if keywordAt text pos "protected" then some (false, 9)
  else none

/-- The offset behind the modifiers, none when there are `bound` of them or more. -/
def passModifiers? (text : List Char) : Nat → Bool → Nat → Option (Bool × Nat)
  | 0, _, _ => none
  | bound + 1, isFragment, pos =>
    match modifierAt? text pos with
    | none => some (isFragment, pos)
    | some (f, n) =>
      (skip? isWhiteSpace text (pos + n)).bind (passModifiers? text bound (isFragment || f))

def ruleStart? : Option (Option (Header × Nat)) := do
  let (isFragment, namePos) ← passModifiers? text (byteLength text + 1) false pos
  let name := wordAt text namePos
  if isIdentifier name then
    let length ← minus? (namePos + byteLength name) pos
    return some (⟨name, isFragment, lineOf text namePos, false⟩, length)
  else return none

def outside? : Option Move :=
  match charAt? text pos with
  | none => some ⟨.outside, d, 1⟩
  | some first =>
    if isWhiteSpace first then some ⟨.outside, d, first.utf8Size⟩
    else match declaration? text d pos with
      | some reading => into .outside reading
      | none => do
        match ← ruleStart? text pos with
        | some (h, length) => return ⟨.header h, d, length⟩
        | none => into .outside (unrecognized? text d pos)

/-! ## Behind a rule name -/

def headerBlock? (h : Header) (opening closing : Char) : Option Move := do
  match ← balancedEnd? opening closing text pos with
  | some stop => into (.header h) (upTo? stop pos d)
  | none => into .outside (unterminated? text (d.missingColon h) pos)

def abandonHeader? (h : Header) (first : Char) : Option Move :=
  if lineOf text pos = h.line then
    (pass? (· ≠ '\n') text pos).bind fun stop => into .outside (upTo? stop pos (d.missingColon h))
  else some ⟨.outside, d.missingColon h, if first = ';' then 1 else 0⟩

def headerWord? (h : Header) (first : Char) : Option Move :=
  let word := wordAt text pos
  if keywordAt text pos "returns" || keywordAt text pos "locals" || keywordAt text pos "options" then
    some ⟨.header { h with afterThrows := false }, d, byteLength word⟩
  else if keywordAt text pos "throws" then
    some ⟨.header { h with afterThrows := true }, d, byteLength word⟩
  else if h.afterThrows && !word.isEmpty then some ⟨.header h, d, byteLength word⟩
  else abandonHeader? text d pos h first

/-- A line feed may be the last one of a header. -/
def headerBlank? (limits : ScanLimits) (h : Header) (first : Char) : Option Move :=
  if first = '\n' then
    (minus? (lineOf text (pos + 1)) h.line).map fun lines =>
      if limits.maxRuleLines ≤ lines then ⟨.outside, d.missingColon h, 1⟩ else ⟨.header h, d, 1⟩
  else some ⟨.header h, d, first.utf8Size⟩

def header? (limits : ScanLimits) (h : Header) : Option Move :=
  match charAt? text pos with
  | none => some ⟨.header h, d, 1⟩
  | some first =>
    if isWhiteSpace first then headerBlank? text d pos limits h first
    else if first = ':' then some ⟨.body h, d, 1⟩
    else if first = '[' then headerBlock? text d pos h '[' ']'
    else if first = '\x7b' then headerBlock? text d pos h '\x7b' '\x7d'
    else if first = '@' then some ⟨.header h, d, 1 + byteLength (wordAt text (pos + 1))⟩
    else if first = ',' && h.afterThrows then some ⟨.header h, d, 1⟩
    else headerWord? text d pos h first

end

end Bytes

/-! ## They are defined -/

/-- The move gives the state and the draft of the machine, and its bytes lead to the cursor. -/
def Moves (text : List Char) (pos : Nat) (move : Option Bytes.Move) (m : Machine) : Prop :=
  ∃ n, move = some ⟨m.state, m.draft, n⟩ ∧ At text (pos + n) m.cursor

section

variable {text rest : List Char} {pos : Nat} {c : Cursor} {d : Draft} {h : Header} {first : Char}

theorem Leads.into {reading : Bytes.Reading} {r : Draft × Cursor} (hr : Leads text pos reading r)
    (state : State) : Moves text pos (Bytes.into state reading) ⟨state, r.1, r.2⟩ := by
  obtain ⟨n, rfl, hend⟩ := hr
  exact ⟨n, rfl, hend⟩

/-! ### Outside rules -/

/-- What is found by offsets is what is found with a cursor, if anything is. -/
def Finds (text : List Char) (pos : Nat) (found : Option (Draft × Cursor))
    (reading? : Option Bytes.Reading) : Prop :=
  (found = none ∧ reading? = none) ∨
    ∃ r reading, found = some r ∧ reading? = some reading ∧ Leads text pos reading r

theorem Leads.finds {reading : Bytes.Reading} {r : Draft × Cursor} (hr : Leads text pos reading r) :
    Finds text pos (some r) (some reading) :=
  .inr ⟨r, reading, rfl, rfl, hr⟩

theorem Finds.ite {p : Prop} [Decidable p] {found found' : Option (Draft × Cursor)}
    {reading? reading?' : Option Bytes.Reading} (hthen : p → Finds text pos found reading?)
    (helse : ¬p → Finds text pos found' reading?') :
    Finds text pos (if p then found else found') (if p then reading? else reading?') := by
  split
  · exact hthen ‹_›
  · exact helse ‹_›

theorem finds_declaration? (hat : At text pos c) (hne : c.rest ≠ []) (d : Draft) :
    Finds text pos (Machine.declaration? d c) (Bytes.declaration? text d pos) := by
  unfold Machine.declaration? Bytes.declaration?
  simp only [hat.keywordAt, hat.charAt?_eq_iff]
  refine .ite (fun _ => (leads_grammarDeclaration hat hne d).finds) fun _ => ?_
  refine .ite (fun hk => (leads_importDeclaration hat hk d).finds) fun _ => ?_
  refine .ite (fun hk => (leads_blockDeclaration .options hat hk hne d).finds) fun _ => ?_
  refine .ite (fun hk => (leads_blockDeclaration .tokens hat hk hne d).finds) fun _ => ?_
  refine .ite (fun hk => (leads_blockDeclaration .channels hat hk hne d).finds) fun _ => ?_
  refine .ite (fun hk => (leads_modeDeclaration hat hk hne d).finds) fun _ => ?_
  refine .ite (fun _ => (leads_handler hat d).finds) fun _ => ?_
  exact .ite (fun hsign => (leads_namedAction hat hsign d).finds) fun _ => .inl ⟨rfl, rfl⟩

theorem At.modifierAt? (hat : At text pos c) : Bytes.modifierAt? text pos = modifier? c := by
  unfold Bytes.modifierAt? modifier?
  simp only [hat.keywordAt]

/-- A modifier is a keyword of as many bytes as characters. -/
theorem exists_keyword_of_modifier? {f : Bool} {n : Nat} (hmod : modifier? c = some (f, n)) :
    ∃ keyword : String, c.hasKeyword keyword = true ∧ keyword.toList.length = n ∧
      byteLength keyword.toList = n := by
  unfold modifier? at hmod
  repeat' split at hmod
  all_goals
    simp only [Option.some.injEq, Prod.mk.injEq, reduceCtorEq] at hmod
  all_goals
    rename_i hk
    obtain ⟨-, rfl⟩ := hmod
    exact ⟨_, hk, rfl, rfl⟩

theorem At.passModifier {f : Bool} {n : Nat} (hat : At text pos c)
    (hmod : modifier? c = some (f, n)) : At text (pos + n) (c.advance n) := by
  obtain ⟨keyword, hk, hlength, hbytes⟩ := exists_keyword_of_modifier? hmod
  have hpass := hat.passKeyword hk
  rwa [hlength, hbytes] at hpass

/-- Each modifier takes a character at least, so there are fewer than the text has. -/
theorem At.passModifiers? {bound : Nat} (isFragment : Bool) (hat : At text pos c)
    (hbound : c.rest.length < bound) : ∃ stop,
      Bytes.passModifiers? text bound isFragment pos =
        some ((passModifiers isFragment c).1, stop) ∧
      At text stop (passModifiers isFragment c).2 := by
  fun_induction passModifiers isFragment c generalizing pos bound with
  | case1 isFragment c hmod =>
    obtain ⟨bound, rfl⟩ := Nat.exists_eq_succ_of_ne_zero (Nat.ne_zero_of_lt hbound)
    exact ⟨pos, by simp only [Bytes.passModifiers?, hat.modifierAt?, hmod], hat⟩
  | case2 isFragment c f n hmod ih =>
    obtain ⟨bound, rfl⟩ := Nat.exists_eq_succ_of_ne_zero (Nat.ne_zero_of_lt hbound)
    obtain ⟨namePos, hskip, hname⟩ := (hat.passModifier hmod).skipBlank
    obtain ⟨hpos, hne⟩ := modifier?_pos hmod
    have hless : (c.advance n).passBlank.rest.length < c.rest.length :=
      Nat.lt_of_le_of_lt (Cursor.length_pass_le _ _) (Cursor.length_advance_lt hpos hne)
    obtain ⟨stop, hstop, hend⟩ := ih hname (by omega : _ < bound)
    refine ⟨stop, ?_, hend⟩
    simp only [Bytes.passModifiers?, hat.modifierAt?, hmod, hskip, Option.bind_some, hstop]

/-- A text has no more characters than bytes. -/
theorem length_le_byteLength (s : List Char) : s.length ≤ byteLength s := by
  induction s with
  | nil => exact Nat.le_refl 0
  | cons d s ih =>
    have := d.utf8Size_pos
    simp only [List.length_cons, byteLength]
    omega

theorem At.length_rest_le (hat : At text pos c) : c.rest.length ≤ byteLength text := by
  obtain ⟨before, htext, -, -⟩ := hat
  rw [htext, byteLength_append]
  have := length_le_byteLength c.rest
  omega

theorem ruleStart?_cases (hat : At text pos c) :
    (Source.header? c = none ∧ Bytes.ruleStart? text pos = some none) ∨
      ∃ h c' n, Source.header? c = some (h, c') ∧
        Bytes.ruleStart? text pos = some (some (h, n)) ∧ At text (pos + n) c' := by
  obtain ⟨namePos, hmod, hname⟩ := hat.passModifiers? false (Nat.lt_succ_of_le hat.length_rest_le)
  have honward := Onward.passModifiers false c
  unfold Source.header? Bytes.ruleStart?
  rw [hmod]
  rcases hp : passModifiers false c with ⟨isFragment, c₁⟩
  rw [hp] at hname honward
  simp only [Option.bind_eq_bind, Option.bind_some, hname.wordAt, hname.lineOf]
  have hend : At text (namePos + byteLength c₁.word) c₁.passWord := hname.pass isWordChar
  obtain ⟨n, hn, hadd⟩ := hat.minus? hend (honward.trans (.pass _ c₁))
  split
  · exact .inr ⟨_, _, n, rfl, by rw [hn]; rfl, hadd ▸ hend⟩
  · exact .inl ⟨rfl, rfl⟩

theorem moves_outside (hat : At text pos c) (hrest : c.rest = first :: rest) (d : Draft) :
    Moves text pos (Bytes.outside? text d pos) (Machine.stepOutside first d c) := by
  have hne : c.rest ≠ [] := hrest ▸ List.cons_ne_nil first rest
  have hfirst : charAt? text pos = some first := by rw [hat.charAt?, hrest]; rfl
  unfold Bytes.outside? Machine.stepOutside
  simp only [hfirst]
  split
  · exact ⟨_, rfl, hat.one hrest⟩
  obtain ⟨hnone, hbytes⟩ | ⟨r, reading, hsome, hbytes, hleads⟩ := finds_declaration? hat hne d
  · simp only [hnone, hbytes]
    obtain ⟨hnone', hstart⟩ | ⟨h, c', n, hsome', hstart, hend⟩ := ruleStart?_cases hat
    · simp only [hnone', hstart, Option.bind_eq_bind, Option.bind_some]
      exact (leads_unrecognized hat hne d).into .outside
    · simp only [hsome', hstart, Option.bind_eq_bind, Option.bind_some]
      exact ⟨n, rfl, hend⟩
  · simp only [hsome, hbytes]
    exact hleads.into .outside

/-! ### Behind a rule name -/

theorem moves_headerBlock {opening : Char} (closing : Char) (h : Header) (hat : At text pos c)
    (hrest : c.rest = opening :: rest) (hquote : ¬(opening = '\'' || opening = '"') = true)
    (d : Draft) :
    Moves text pos (Bytes.headerBlock? text d pos h opening closing)
      (Machine.headerBlock h opening closing d c) := by
  unfold Bytes.headerBlock? Machine.headerBlock
  obtain ⟨hnone, hbalanced⟩ | ⟨inside, c', stop, hblock, hbalanced, hend, -⟩ :=
    hat.balancedEnd? closing hrest hquote
  · simp only [hnone, hbalanced, Option.bind_eq_bind, Option.bind_some]
    exact (leads_unterminated hat _).into .outside
  · simp only [hblock, hbalanced, Option.bind_eq_bind, Option.bind_some]
    exact (leads_upTo hat hend (.block? hblock) d).into (.header h)

theorem moves_abandonHeader (h : Header) (hat : At text pos c) (hrest : c.rest = first :: rest)
    (d : Draft) :
    Moves text pos (Bytes.abandonHeader? text d pos h first)
      (Machine.abandonHeader h first d c) := by
  obtain ⟨stop, hstop, -, -, hend⟩ := hat.cutLine
  unfold Bytes.abandonHeader? Machine.abandonHeader
  simp only [hat.lineOf]
  split
  · rw [hstop, Option.bind_some]
    exact (leads_upTo hat hend (.advance _ c) _).into .outside
  split
  · rename_i hsemi
    have hone := hat.one hrest
    exact ⟨1, rfl, by rwa [hsemi] at hone⟩
  · exact ⟨0, rfl, hat⟩

theorem moves_headerWord (h : Header) (hat : At text pos c) (hrest : c.rest = first :: rest)
    (d : Draft) :
    Moves text pos (Bytes.headerWord? text d pos h first) (Machine.headerWord h first d c) := by
  have hword : At text (pos + byteLength c.word) c.passWord := hat.pass isWordChar
  unfold Bytes.headerWord? Machine.headerWord
  simp only [hat.keywordAt, hat.wordAt]
  split
  · exact ⟨_, rfl, hword⟩
  split
  · exact ⟨_, rfl, hword⟩
  split
  · exact ⟨_, rfl, hword⟩
  · exact moves_abandonHeader h hat hrest d

/-- The lines of a header are counted from the line of its name, which is not behind it. -/
theorem moves_headerBlank (limits : ScanLimits) (hat : At text pos c)
    (hrest : c.rest = first :: rest) (hline : h.line ≤ c.line) (d : Draft) :
    Moves text pos (Bytes.headerBlank? text d pos limits h first)
      (if first = '\n' && limits.maxRuleLines ≤ (c.advance 1).line - h.line then
        ⟨.outside, d.missingColon h, c.advance 1⟩
      else ⟨.header h, d, c.advance 1⟩) := by
  have hone := hat.one hrest
  unfold Bytes.headerBlank?
  by_cases hfeed : first = '\n'
  · subst hfeed
    have hone : At text (pos + 1) (c.advance 1) := hone
    have hle : h.line ≤ (c.advance 1).line := Nat.le_trans hline (Onward.advance 1 c).line_le
    rw [if_pos rfl, hone.lineOf, Bytes.minus?, if_pos hle, Option.map_some]
    by_cases hcap : limits.maxRuleLines ≤ (c.advance 1).line - h.line
    · simp only [hcap, decide_true, Bool.and_self, if_true]
      exact ⟨1, rfl, hone⟩
    · simp only [hcap, decide_false, Bool.and_false, if_false]
      exact ⟨1, rfl, hone⟩
  · simp only [hfeed, decide_false, Bool.false_and, if_false]
    exact ⟨_, rfl, hone⟩

theorem moves_header (limits : ScanLimits) (hat : At text pos c) (hrest : c.rest = first :: rest)
    (hline : h.line ≤ c.line) (d : Draft) :
    Moves text pos (Bytes.header? text d pos limits h) (Machine.stepHeader limits h first d c) := by
  have hfirst : charAt? text pos = some first := by rw [hat.charAt?, hrest]; rfl
  have hone := hat.one hrest
  unfold Bytes.header? Machine.stepHeader
  simp only [hfirst]
  split
  · exact moves_headerBlank limits hat hrest hline d
  split
  · rename_i hcolon
    exact ⟨1, rfl, by rwa [hcolon] at hone⟩
  split
  · rename_i hbracket
    exact moves_headerBlock ']' h hat (hbracket ▸ hrest) (by decide) d
  split
  · rename_i hbrace
    exact moves_headerBlock '\x7d' h hat (hbrace ▸ hrest) (by decide) d
  split
  · rename_i hsign
    have hone : At text (pos + 1) (c.advance 1) := by rwa [hsign] at hone
    refine ⟨1 + byteLength (c.advance 1).word, by rw [hone.wordAt], ?_⟩
    rw [← Nat.add_assoc]
    exact hone.pass isWordChar
  split
  · rename_i hcomma
    have hcomma : first = ',' := by simpa using (Bool.and_eq_true_iff.1 hcomma).1
    exact ⟨1, rfl, by rwa [hcomma] at hone⟩
  · exact moves_headerWord h hat hrest d

end

end GrammarLab.Source
