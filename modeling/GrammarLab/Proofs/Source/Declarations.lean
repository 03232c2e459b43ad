import GrammarLab.Proofs.Source.Bytes

/-!
# Declarations by byte offsets

The readers of declarations, checked: each takes the offset of its declaration and gives the draft
and the number of bytes it has passed. All of them are defined wherever a character begins, and
they give what the readers with a cursor do.

    At text pos c → Leads text pos (grammarDeclaration? text d pos) (d.grammarDeclaration c)
-/

namespace GrammarLab.Source

open Text

/-! ## Readers -/

namespace Bytes

/-- A draft and the number of bytes that were passed to get to it. -/
abbrev Reading := Option (Draft × Nat)

/-- The draft `d`, with everything up to `stop` passed. -/
def upTo? (stop pos : Nat) (d : Draft) : Reading := (minus? stop pos).map (d, ·)

section

variable (text : List Char) (d : Draft) (pos : Nat)

def unrecognized? : Reading := do
  let stop ← pass? (· ≠ '\n') text pos
  let line ← cut? text pos stop
  let length ← minus? stop pos
  return (d.report ((Diagnostic.ofKind .unrecognizedLine).onLine (lineOf text pos)
      |>.withDetail (Draft.backticked (trim line))), max length 1)

def unterminated? : Reading :=
  upTo? (byteLength text) pos
    (d.report ((Diagnostic.ofKind .unterminatedBlock).onLine (lineOf text pos)))

def grammarKindAt? : Option (GrammarKind × Nat) :=
  if keywordAt text pos "lexer" then (skip? isWhiteSpace text (pos + 5)).map (.lexer, ·)
  else if keywordAt text pos "parser" then (skip? isWhiteSpace text (pos + 6)).map (.parser, ·)
  else some (.combined, pos)

def grammarDeclaration? : Reading := do
  let (kind, grammarPos) ← grammarKindAt? text pos
  if keywordAt text grammarPos "grammar" then
    let namePos ← skip? isWhiteSpace text (grammarPos + 7)
    let stop ← statementEnd? text namePos
    upTo? stop pos (d.declare kind (wordAt text namePos) (lineOf text pos))
  else unrecognized? text d pos

/-- The statement is cut out, and the semicolons at its end are taken away. -/
def importDeclaration? : Reading := do
  let start := pos + 6
  let stop ← statementEnd? text start
  let statement ← cut? text start stop
  let items := splitOn (· = ',') (statement.reverse.dropWhile (· = ';')).reverse
  let names := (items.map fun item => trim (Draft.afterLastEquals item)).filter isIdentifier
  let imports := (names.map String.ofList).foldl insertOnce d.grammar.imports
  upTo? stop pos { d with grammar := { d.grammar with imports } }

def blockDeclaration? (block : Draft.Block) : Reading := do
  let opening ← skip? isWhiteSpace text (pos + byteLength block.keyword.toList)
  if charAt? text opening = some '\x7b' then
    match ← balancedEnd? '\x7b' '\x7d' text opening with
    | some stop =>
      let content ← (minus? stop 1).bind (cut? text (opening + 1))
      upTo? stop pos (d.addBlock block content)
    | none =>
      upTo? (byteLength text) pos
        (d.report ((Diagnostic.ofKind .unterminatedBlock).onLine (lineOf text pos)
          |>.withMessage ("`" ++ block.keyword ++ "` block is never closed")))
  else unrecognized? text d pos

def modeDeclaration? : Reading := do
  let namePos ← skip? isWhiteSpace text (pos + 4)
  let name := wordAt text namePos
  if name.isEmpty then unrecognized? text d pos
  else
    let stop ← statementEnd? text namePos
    upTo? stop pos (d.enterMode (String.ofList name) (lineOf text pos))

/-- The offset behind a block that may stand behind blank space; none if it is not closed. -/
def passBlock? (opening closing : Char) : Option (Option Nat) := do
  let blockPos ← skip? isWhiteSpace text pos
  if charAt? text blockPos = some opening then balancedEnd? opening closing text blockPos
  else return some pos

def handler? : Reading := do
  match ← passBlock? text (pos + byteLength (wordAt text pos)) '[' ']' with
  | none => unterminated? text d pos
  | some actionPos =>
    match ← passBlock? text actionPos '\x7b' '\x7d' with
    | none => unterminated? text d pos
    | some stop => upTo? stop pos d

def namedAction? : Reading := do
  let nameStop ← pass? (fun e => isWordChar e || e = ':') text (pos + 1)
  let opening ← skip? isWhiteSpace text nameStop
  if charAt? text opening = some '\x7b' then
    match ← balancedEnd? '\x7b' '\x7d' text opening with
    | some stop => upTo? stop pos d
    | none => unterminated? text d pos
  else unrecognized? text d pos

end

end Bytes

/-! ## They are defined -/

/-- The reading gives the draft, and its bytes lead to the cursor. -/
def Leads (text : List Char) (pos : Nat) (reading : Bytes.Reading) (r : Draft × Cursor) : Prop :=
  ∃ n, reading = some (r.1, n) ∧ At text (pos + n) r.2

variable {text : List Char} {pos stop : Nat} {c c' : Cursor} {d : Draft}

theorem leads_upTo (h : At text pos c) (hstop : At text stop c') (hc : Onward c c') (d : Draft) :
    Leads text pos (Bytes.upTo? stop pos d) (d, c') := by
  obtain ⟨n, hn, hadd⟩ := h.minus? hstop hc
  exact ⟨n, by rw [Bytes.upTo?, hn]; rfl, hadd ▸ hstop⟩

/-- A line without characters goes on with its line feed, which is one byte. -/
theorem At.passUnrecognized (h : At text pos c) (hne : c.rest ≠ []) :
    At text (pos + max (byteLength c.restOfLine) 1) (c.advance (max c.restOfLine.length 1)) := by
  cases hline : c.restOfLine with
  | nil =>
    obtain ⟨first, rest, hrest⟩ := List.exists_cons_of_ne_nil hne
    have hfeed : first = '\n' := by
      by_contra hfirst
      simp [Cursor.restOfLine, hrest, hfirst] at hline
    have hone := h.one hrest
    rwa [hfeed] at hone
  | cons first line =>
    have hbytes : 0 < byteLength (first :: line) := byteLength_pos (List.cons_ne_nil _ _)
    have hpass := h.pass (· ≠ '\n')
    rw [Cursor.pass, show c.rest.takeWhile (· ≠ '\n') = first :: line from hline] at hpass
    have hchars : 0 < (first :: line).length := Nat.succ_pos _
    rw [Nat.max_eq_left hbytes, Nat.max_eq_left hchars]
    exact hpass

theorem leads_unrecognized (h : At text pos c) (hne : c.rest ≠ []) (d : Draft) :
    Leads text pos (Bytes.unrecognized? text d pos) (d.unrecognized c) := by
  obtain ⟨stop, hstop, hcut, hminus, -⟩ := h.cutLine
  refine ⟨max (byteLength c.restOfLine) 1, ?_, h.passUnrecognized hne⟩
  simp only [Bytes.unrecognized?, hstop, hcut, hminus, Option.bind_eq_bind, Option.bind_some,
    h.lineOf]
  rfl

theorem leads_unterminated (h : At text pos c) (d : Draft) :
    Leads text pos (Bytes.unterminated? text d pos) (d.unterminated c) := by
  rw [Bytes.unterminated?, h.lineOf]
  exact leads_upTo h h.finish (.advance _ c) _

/-- The place behind a keyword in front. -/
theorem At.passKeyword {keyword : String} (h : At text pos c) (hk : c.hasKeyword keyword = true) :
    At text (pos + byteLength keyword.toList) (c.advance keyword.toList.length) := by
  have hword : c.rest.takeWhile isWordChar = keyword.toList := beq_iff_eq.1 hk
  have hpass := h.pass isWordChar
  rwa [Cursor.pass, hword] at hpass

/-- The place behind a keyword in front and the blank space behind it. -/
theorem At.skipKeyword {keyword : String} (h : At text pos c) (hk : c.hasKeyword keyword = true) :
    ∃ stop, Bytes.skip? isWhiteSpace text (pos + byteLength keyword.toList) = some stop ∧
      At text stop (c.advance keyword.toList.length).passBlank :=
  (h.passKeyword hk).skipBlank

theorem At.grammarKindAt? (h : At text pos c) : ∃ stop,
    Bytes.grammarKindAt? text pos = some ((Draft.grammarKindAt c).1, stop) ∧
      At text stop (Draft.grammarKindAt c).2 := by
  unfold Bytes.grammarKindAt? Draft.grammarKindAt
  rw [h.keywordAt, h.keywordAt]
  split
  · rename_i hk
    obtain ⟨stop, hstop, hend⟩ := h.skipKeyword hk
    exact ⟨stop, by rw [show pos + 5 = pos + byteLength "lexer".toList from rfl, hstop]; rfl, hend⟩
  split
  · rename_i hk
    obtain ⟨stop, hstop, hend⟩ := h.skipKeyword hk
    exact ⟨stop, by rw [show pos + 6 = pos + byteLength "parser".toList from rfl, hstop]; rfl, hend⟩
  · exact ⟨pos, rfl, h⟩

theorem leads_grammarDeclaration (h : At text pos c) (hne : c.rest ≠ []) (d : Draft) :
    Leads text pos (Bytes.grammarDeclaration? text d pos) (d.grammarDeclaration c) := by
  obtain ⟨grammarPos, hkind, hgrammar⟩ := h.grammarKindAt?
  unfold Bytes.grammarDeclaration? Draft.grammarDeclaration
  simp only [hkind, Option.bind_eq_bind, Option.bind_some, hgrammar.keywordAt, h.lineOf]
  split
  · rename_i hk
    obtain ⟨namePos, hskip, hname⟩ := hgrammar.skipKeyword hk
    obtain ⟨stop, hstop, -, hend⟩ := hname.statementEnd?
    have hskip : Bytes.skip? isWhiteSpace text (grammarPos + 7) = some namePos := hskip
    have honward : Onward c ((Draft.grammarKindAt c).2.advance 7).passBlank.passStatement :=
      (((onward_grammarKindAt c).trans (.advance 7 _)).trans (.pass _ _)).trans (.advance _ _)
    simp only [hskip, hstop, Option.bind_some, hname.wordAt]
    exact leads_upTo h hend honward _
  · exact leads_unrecognized h hne d

theorem leads_importDeclaration (h : At text pos c) (hk : c.hasKeyword "import" = true)
    (d : Draft) : Leads text pos (Bytes.importDeclaration? text d pos) (d.importDeclaration c) := by
  obtain ⟨stop, hstop, hcut, hend⟩ := (h.passKeyword hk).statementEnd?
  have hstop : Bytes.statementEnd? text (pos + 6) = some stop := hstop
  have hcut : Bytes.cut? text (pos + 6) stop = some (c.advance 6).statement := hcut
  unfold Bytes.importDeclaration? Draft.importDeclaration
  simp only [hstop, hcut, Option.bind_eq_bind, Option.bind_some, statement_eq_append]
  exact leads_upTo h hend ((Onward.advance 6 c).trans (.advance _ _)) _

/-- A brace is one byte and opens no quote. -/
theorem At.braces? {opening : Nat} (h : At text opening c) (hc : c.startsWith '\x7b' = true) :
    (c.block? '\x7b' '\x7d' = none ∧ Bytes.balancedEnd? '\x7b' '\x7d' text opening = some none) ∨
      ∃ inside c' stop, c.block? '\x7b' '\x7d' = some (inside, c') ∧
        Bytes.balancedEnd? '\x7b' '\x7d' text opening = some (some stop) ∧ At text stop c' ∧
        (Bytes.minus? stop 1).bind (Bytes.cut? text (opening + 1)) = some inside := by
  obtain ⟨cs, hcs⟩ := List.head?_eq_some_iff.1 (beq_iff_eq.1 hc)
  obtain hnone | ⟨inside, c', stop, hblock, hbalanced, hend, hinside⟩ :=
    h.balancedEnd? '\x7d' hcs (by decide)
  · exact .inl hnone
  · exact .inr ⟨inside, c', stop, hblock, hbalanced, hend, hinside (by decide) (by decide)⟩

theorem leads_blockDeclaration (block : Draft.Block) (h : At text pos c)
    (hk : c.hasKeyword block.keyword = true) (hne : c.rest ≠ []) (d : Draft) :
    Leads text pos (Bytes.blockDeclaration? text d pos block) (d.blockDeclaration block c) := by
  obtain ⟨opening, hskip, hopening⟩ := h.skipKeyword hk
  rw [String.length_toList] at hopening
  have honward : Onward c (c.advance block.keyword.length).passBlank :=
    (Onward.advance _ c).trans (.pass _ _)
  unfold Bytes.blockDeclaration? Draft.blockDeclaration
  simp only [hskip, Option.bind_eq_bind, Option.bind_some, h.lineOf, hopening.charAt?_eq_iff]
  split
  · rename_i hbrace
    obtain ⟨hnone, hbalanced⟩ | ⟨inside, c', stop, hblock, hbalanced, hend, hcut⟩ :=
      hopening.braces? hbrace
    · simp only [hnone, hbalanced, Option.bind_some]
      exact leads_upTo h h.finish (.advance _ c) _
    · simp only [hblock, hbalanced, Option.bind_some, hcut]
      exact leads_upTo h hend (honward.trans (.block? hblock)) _
  · exact leads_unrecognized h hne d

theorem leads_modeDeclaration (h : At text pos c) (hk : c.hasKeyword "mode" = true)
    (hne : c.rest ≠ []) (d : Draft) :
    Leads text pos (Bytes.modeDeclaration? text d pos) (d.modeDeclaration c) := by
  obtain ⟨namePos, hskip, hname⟩ := h.skipKeyword hk
  obtain ⟨stop, hstop, -, hend⟩ := hname.statementEnd?
  have hskip : Bytes.skip? isWhiteSpace text (pos + 4) = some namePos := hskip
  have hend : At text stop (c.advance 4).passBlank.passStatement := hend
  have hname' : Bytes.wordAt text namePos = (c.advance 4).passBlank.word := hname.wordAt
  unfold Bytes.modeDeclaration? Draft.modeDeclaration
  simp only [hskip, hstop, Option.bind_eq_bind, Option.bind_some, hname', h.lineOf]
  split
  · exact leads_unrecognized h hne d
  · exact leads_upTo h hend (((Onward.advance 4 c).trans (.pass _ _)).trans (.advance _ _)) _

/-- A block behind blank space is passed where it is closed. -/
theorem At.passBlock? (opening closing : Char) (h : At text pos c)
    (hquote : ¬(opening = '\'' || opening = '"') = true) :
    (Draft.passBlock? opening closing c = none ∧
        Bytes.passBlock? text pos opening closing = some none) ∨
      ∃ c' stop, Draft.passBlock? opening closing c = some c' ∧
        Bytes.passBlock? text pos opening closing = some (some stop) ∧ At text stop c' := by
  obtain ⟨blockPos, hskip, hblockPos⟩ := h.skipBlank
  unfold Bytes.passBlock? Draft.passBlock?
  simp only [hskip, Option.bind_eq_bind, Option.bind_some, hblockPos.charAt?_eq_iff]
  split
  · rename_i hopening
    obtain ⟨cs, hcs⟩ := List.head?_eq_some_iff.1 (beq_iff_eq.1 hopening)
    obtain ⟨hnone, hbalanced⟩ | ⟨inside, c', stop, hblock, hbalanced, hend, -⟩ :=
      hblockPos.balancedEnd? closing hcs hquote
    · exact .inl ⟨by rw [hnone]; rfl, hbalanced⟩
    · exact .inr ⟨c', stop, by rw [hblock]; rfl, hbalanced, hend⟩
  · exact .inr ⟨c, pos, rfl, rfl, h⟩

theorem leads_handler (h : At text pos c) (d : Draft) :
    Leads text pos (Bytes.handler? text d pos) (d.handler c) := by
  have hword := h.pass isWordChar
  unfold Bytes.handler? Draft.handler
  rw [h.wordAt]
  obtain ⟨hnone, hread⟩ | ⟨c₁, actionPos, hsome, hread, hfirst⟩ :=
    hword.passBlock? '[' ']' (by decide)
  · have hnone : Draft.passBlock? '[' ']' c.passWord = none := hnone
    have hread : Bytes.passBlock? text (pos + byteLength c.word) '[' ']' = some none := hread
    simp only [hnone, hread, Option.bind_eq_bind, Option.bind_some, Option.bind_none]
    exact leads_unterminated h d
  · have hsome : Draft.passBlock? '[' ']' c.passWord = some c₁ := hsome
    have hread : Bytes.passBlock? text (pos + byteLength c.word) '[' ']' = some (some actionPos) :=
      hread
    simp only [hsome, hread, Option.bind_eq_bind, Option.bind_some]
    obtain ⟨hnone', hread'⟩ | ⟨c₂, stop, hsome', hread', hend⟩ :=
      hfirst.passBlock? '\x7b' '\x7d' (by decide)
    · simp only [hnone', hread', Option.bind_some]
      exact leads_unterminated h d
    · simp only [hsome', hread', Option.bind_some]
      exact leads_upTo h hend
        (((Onward.pass _ c).trans (.passBlock? hsome)).trans (.passBlock? hsome')) d

theorem leads_namedAction (h : At text pos c) (hat : c.startsWith '@' = true) (d : Draft) :
    Leads text pos (Bytes.namedAction? text d pos) (d.namedAction c) := by
  obtain ⟨cs, hcs⟩ := List.head?_eq_some_iff.1 (beq_iff_eq.1 hat)
  have hname := h.one hcs
  obtain ⟨nameStop, hpass, hstop⟩ := hname.pass? (fun e => isWordChar e || e = ':')
  obtain ⟨opening, hskip, hopening⟩ := hstop.skipBlank
  have hpass : Bytes.pass? (fun e => isWordChar e || e = ':') text (pos + 1) = some nameStop := hpass
  have honward : Onward c ((c.advance 1).pass fun d => isWordChar d || d = ':').passBlank :=
    ((Onward.advance 1 c).trans (.pass _ _)).trans (.pass _ _)
  unfold Bytes.namedAction? Draft.namedAction
  simp only [hpass, hskip, Option.bind_eq_bind, Option.bind_some, hopening.charAt?_eq_iff]
  split
  · rename_i hbrace
    obtain ⟨hnone, hbalanced⟩ | ⟨inside, c', stop, hblock, hbalanced, hend, -⟩ :=
      hopening.braces? hbrace
    · simp only [hnone, hbalanced, Option.bind_some]
      exact leads_unterminated h d
    · simp only [hblock, hbalanced, Option.bind_some]
      exact leads_upTo h hend (honward.trans (.block? hblock)) d
  · exact leads_unrecognized h (by rw [hcs]; exact List.cons_ne_nil _ _) d

end GrammarLab.Source
