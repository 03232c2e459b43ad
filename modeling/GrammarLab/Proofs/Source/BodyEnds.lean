import GrammarLab.Proofs.Source.Headers
import GrammarLab.Proofs.Source.Lines
import GrammarLab.Proofs.Text.TrimmedLines

/-!
# Bodies by byte offsets

Where a body ends and what its rule is, checked: the body is cut out of the text, and its lines are
those of offsets. The lines that it has taken are counted from the line of the name; the last of
its lines from the byte in front of its end, which may be within a character.

    At text pos c → Moves text pos (body? text d pos limits h) (stepBody limits h d c)
-/

namespace GrammarLab.Source

open Text

namespace Bytes

/-- How a body ends, and the offset behind it. -/
inductive BodyStop
  | terminator (pos : Nat)
  | nextRule (pos : Nat)
  | capped (pos : Nat)
  | exhausted

section

variable (text : List Char) (d : Draft) (pos : Nat) (limits : ScanLimits)

def looksLikeRuleStart? : Option Bool :=
  if keywordAt text pos "fragment" then some true
  else if keywordAt text pos "mode" then do
    let namePos ← skipInlineBlank? text (pos + 4)
    let name := wordAt text namePos
    let stop ← skipInlineBlank? text (namePos + byteLength name)
    return !name.isEmpty && charAt? text stop = some ';'
  else if isIdentifier (wordAt text pos) then do
    let colon ← skipInlineBlank? text (pos + byteLength (wordAt text pos))
    return charAt? text colon = some ':' && !(charAt? text (colon + 1) = some ':')
  else some false

/-- The end of a body that goes on at `pos`, on the line `line`. -/
def bodyEndFrom? (startLine : Nat) : Nat → Nat → Nat → BodyState → List Char → Option BodyStop
  | _, _, _, _, [] => some .exhausted
  | pos, line, braces, state, c :: cs =>
    if c = '\n' then
      (minus? (line + 1) startLine).bind fun taken =>
        if limits.maxRuleLines ≤ taken then some (.capped (pos + 1))
        else
          (if braces = 0 then looksLikeRuleStart? text (pos + 1) else some false).bind fun opens =>
            if opens then some (.nextRule (pos + 1))
            else bodyEndFrom? startLine (pos + 1) (line + 1) braces .code cs
    else if c = ';' && braces = 0 && state = .code then some (.terminator pos)
    else
      let next := state.next braces c
      bodyEndFrom? startLine (pos + c.utf8Size) line next.2 next.1 cs

def bodyEnd? (h : Header) : Option BodyStop :=
  (dropBytes pos text).bind (bodyEndFrom? text limits h.line pos (lineOf text pos) 0 .code)

/-- The offset behind a body and what ends it, and the offset of its `;`. -/
def BodyStop.range : BodyStop → Nat × Option Nat
  | .terminator semi => (semi + 1, some semi)
  | .nextRule stop => (stop, none)
  | .capped stop => (stop, none)
  | .exhausted => (byteLength text, none)

/-- The line of the first character of a body from `start` on, or of its colon. -/
def bodyLine? (start : Nat) (raw : List Char) : Option Nat :=
  (minus? (byteLength raw) (byteLength (trimStart raw))).map fun lead =>
    if (definitionOf raw).isEmpty then lineOf text (start - 1) else lineOf text (start + lead)

/-- The line of the last byte of a body from `start` on, or of its `;`. -/
def endLine? (start : Nat) (raw : List Char) (bodyLine : Nat) : Option Nat → Option Nat
  | some semi => some (lineOf text semi)
  | none =>
    if (definitionOf raw).isEmpty then some bodyLine
    else (minus? (start + byteLength (trimEnd raw)) 1).map (lineOf text)

/-- Closes the rule whose body stands between two offsets. -/
def finishRule? (h : Header) (start stop : Nat) (semi? : Option Nat) : Option Draft := do
  let name := String.ofList h.name
  let raw ← cut? text start stop
  let bodyLine ← bodyLine? text start raw
  let endLine ← endLine? text start raw bodyLine semi?
  let d := if semi?.isSome then d else d.missingTerminator h
  match d.grammar.rule? name with
  | some first => return d.duplicateRule h first
  | none =>
    return d.addRule
      { name, isFragment := h.isFragment, definition := definitionOf raw, lineNumber := h.line
        bodyLine, endLine
        referencedRules := Body.referencedNames (definitionOf raw)
        mode := if isLexerName name then some d.mode else none }

def body? (h : Header) : Option Move := do
  let (stop, semi?) := (← bodyEnd? text pos limits h).range text
  let d ← finishRule? text d h pos (semi?.getD stop) semi?
  let length ← minus? stop pos
  return ⟨.outside, d, max length 1⟩

end

end Bytes

variable {text raw rest : List Char} {pos : Nat} {c : Cursor}

/-! ## Where a body ends -/

theorem At.opensRule (hat : At text pos c) :
    Bytes.looksLikeRuleStart? text pos = some (opensRule c) := by
  unfold Bytes.looksLikeRuleStart? Source.opensRule
  simp only [hat.keywordAt, hat.wordAt]
  split
  · rfl
  split
  · rename_i hk
    obtain ⟨namePos, hskip, hname⟩ := (hat.passKeyword hk).skipInlineBlank
    have hskip : Bytes.skipInlineBlank? text (pos + 4) = some namePos := hskip
    have hname : At text namePos (c.advance 4).passInlineBlank := hname
    obtain ⟨stop, hstop, hend⟩ := (hname.pass isWordChar).skipInlineBlank
    have hstop : Bytes.skipInlineBlank? text
        (namePos + byteLength (c.advance 4).passInlineBlank.word) = some stop := hstop
    simp only [hskip, hname.wordAt, hstop, hend.charAt?_eq_iff, Option.bind_eq_bind,
      Option.bind_some, Bool.decide_eq_true]
    rfl
  split
  · obtain ⟨colon, hskip, hcolon⟩ := (hat.pass isWordChar).skipInlineBlank
    have hskip : Bytes.skipInlineBlank? text (pos + byteLength c.word) = some colon := hskip
    have hcolon : At text colon c.passWord.passInlineBlank := hcolon
    simp only [hskip, hcolon.charAt?_eq_iff, Option.bind_eq_bind, Option.bind_some,
      Bool.decide_eq_true]
    cases hstarts : c.passWord.passInlineBlank.startsWith ':' with
    | false => rfl
    | true =>
      obtain ⟨cs, hcs⟩ := List.head?_eq_some_iff.1 (beq_iff_eq.1 hstarts)
      have hbehind : At text (colon + 1) (c.passWord.passInlineBlank.advance 1) := hcolon.one hcs
      simp only [hbehind.charAt?_eq_iff, Bool.decide_eq_true]
      rfl
  · rfl

/-- The end of a body as an offset, where the body is read on at `pos`. -/
def BodyReach.stopAt (r : BodyReach) (pos : Nat) (s : List Char) : Bytes.BodyStop :=
  match r.reason with
  | .terminator => .terminator (pos + byteLength (s.take r.length))
  | .nextRule => .nextRule (pos + byteLength (s.take r.length))
  | .capped => .capped (pos + byteLength (s.take r.length))
  | .exhausted => .exhausted

theorem BodyReach.stopAt_beyond (r : BodyReach) (pos : Nat) (d : Char) (s : List Char) :
    r.beyond.stopAt pos (d :: s) = r.stopAt (pos + d.utf8Size) s := by
  obtain ⟨reason, length⟩ := r
  cases reason <;> simp [BodyReach.beyond, BodyReach.stopAt, byteLength, Nat.add_assoc]

section

variable {limits : ScanLimits} {startLine left line braces : Nat} {state : BodyState}
  {s : List Char}

theorem At.lineFeed (hat : At text pos ⟨line, '\n' :: s⟩) : At text (pos + 1) ⟨line + 1, s⟩ :=
  hat.one rfl

/-- At a line feed neither the difference of the lines nor the next line is out of reach. -/
theorem bodyEndFrom?_lineFeed (hat : At text pos ⟨line, '\n' :: s⟩) (hline : startLine ≤ line) :
    Bytes.bodyEndFrom? text limits startLine pos line braces state ('\n' :: s) =
      if limits.maxRuleLines ≤ line + 1 - startLine then some (.capped (pos + 1))
      else if braces = 0 && opensRule ⟨0, s⟩ then some (.nextRule (pos + 1))
      else Bytes.bodyEndFrom? text limits startLine (pos + 1) (line + 1) braces .code s := by
  have htaken : Bytes.minus? (line + 1) startLine = some (line + 1 - startLine) :=
    if_pos (by omega)
  have hopens : Bytes.looksLikeRuleStart? text (pos + 1) = some (opensRule ⟨0, s⟩) :=
    hat.lineFeed.opensRule
  rw [Bytes.bodyEndFrom?, if_pos rfl, htaken, Option.bind_some, hopens]
  split
  · rfl
  by_cases hbraces : braces = 0
  · simp [hbraces]
  · simp [hbraces]

/-- The lines that are left before the cap are those that have not been taken since the name. -/
theorem bodyEndFrom?_eq (hat : At text pos ⟨line, s⟩) (hline : startLine ≤ line)
    (hleft : left = limits.maxRuleLines - (line - startLine)) :
    Bytes.bodyEndFrom? text limits startLine pos line braces state s =
      some ((bodyReach left braces state s).stopAt pos s) := by
  have hfeed : byteLength ['\n'] = 1 := rfl
  fun_induction bodyReach left braces state s generalizing pos line with
  | case1 left braces state => rfl
  | case2 left braces state cs hcap =>
    rw [bodyEndFrom?_lineFeed hat hline, if_pos (by omega)]
    simp [BodyReach.stopAt, hfeed]
  | case3 left braces state cs hcap hopens =>
    rw [bodyEndFrom?_lineFeed hat hline, if_neg (by omega), if_pos hopens]
    simp [BodyReach.stopAt, hfeed]
  | case4 left braces state cs hcap hopens ih =>
    rw [bodyEndFrom?_lineFeed hat hline, if_neg (by omega), if_neg hopens,
      ih hat.lineFeed (by omega) (by omega), BodyReach.stopAt_beyond]
    rfl
  | case5 left braces state d cs hfeed' hsemi =>
    rw [Bytes.bodyEndFrom?, if_neg hfeed', if_pos hsemi]
    rfl
  | case6 left braces state d cs hfeed' hsemi state' braces' hnext ih =>
    have hone : At text (pos + d.utf8Size) ⟨line, cs⟩ := by
      have hline : lineFeeds [d] = 0 := by simp [lineFeeds, hfeed']
      have hone : At text (pos + d.utf8Size) ((⟨line, d :: cs⟩ : Cursor).advance 1) := hat.one rfl
      rwa [Cursor.advance, List.take_succ_cons, List.take_zero, hline] at hone
    rw [Bytes.bodyEndFrom?, if_neg hfeed', if_neg hsemi]
    simp only [hnext]
    rw [ih hone hline hleft, BodyReach.stopAt_beyond]

end

theorem At.bodyEnd? {h : Header} (limits : ScanLimits) (hat : At text pos c)
    (hline : h.line ≤ c.line) :
    Bytes.bodyEnd? text pos limits h =
      some ((bodyReach (limits.maxRuleLines - (c.line - h.line)) 0 .code c.rest).stopAt pos
        c.rest) := by
  rw [Bytes.bodyEnd?, hat.dropBytes_eq, Option.bind_some, hat.lineOf]
  exact bodyEndFrom?_eq hat hline rfl

/-! ## The rule of a body -/

theorem isEmpty_definitionOf (raw : List Char) :
    (definitionOf raw).isEmpty = (trimStart raw).isEmpty := by
  rw [Bool.eq_iff_iff, List.isEmpty_iff, List.isEmpty_iff]
  exact trim_trimLines_eq_nil_iff

section

variable {semi? : Option Nat}

theorem At.bodyLine? (hat : At text pos c) (hcolon : Bytes.lineOf text (pos - 1) = c.line)
    (hraw : c.rest = raw ++ rest) : Bytes.bodyLine? text pos raw = some (bodyLine c raw) := by
  let lead := raw.takeWhile isWhiteSpace
  have hsplit : raw = lead ++ trimStart raw := List.takeWhile_append_dropWhile.symm
  have hlead : Bytes.minus? (byteLength raw) (byteLength (trimStart raw)) =
      some (byteLength lead) := by
    have hbytes := congrArg byteLength hsplit
    rw [byteLength_append] at hbytes
    rw [Bytes.minus?, if_pos (by omega), hbytes, Nat.add_sub_cancel]
  have hfirst : At text (pos + byteLength lead)
      ⟨c.line + lineFeeds lead, trimStart raw ++ rest⟩ :=
    hat.move (by rw [← List.append_assoc, ← hsplit, hraw]) rfl
  rw [Bytes.bodyLine?, hlead, Option.map_some, hcolon, hfirst.lineOf, isEmpty_definitionOf]
  rfl

/-- The last byte of a body that is not blank is in a character that is no line feed. -/
theorem At.endLine? (hat : At text pos c) (hraw : c.rest = raw ++ rest)
    (hsemi : ∀ semi ∈ semi?, semi = pos + byteLength raw) :
    Bytes.endLine? text pos raw (bodyLine c raw) semi? = some (endLine c raw semi?.isSome) := by
  cases semi? with
  | some semi =>
    have hend : At text (pos + byteLength raw) ⟨c.line + lineFeeds raw, rest⟩ := hat.move hraw rfl
    rw [hsemi semi rfl, Bytes.endLine?, hend.lineOf]
    rfl
  | none =>
    unfold Bytes.endLine? endLine
    simp only [isEmpty_definitionOf, Option.isSome_none, Bool.false_eq_true, if_false]
    split
    · rfl
    rename_i hblank
    obtain ⟨init, x, htrim, hx⟩ := exists_trimEnd_eq (by simpa using hblank)
    obtain ⟨tail, htail⟩ := isPrefix_trimEnd raw
    have hlast : At text (pos + byteLength init) ⟨c.line + lineFeeds init, x :: (tail ++ rest)⟩ :=
      hat.move (by rw [hraw, ← htail, htrim]; simp) rfl
    have hfeeds : lineFeeds (trimEnd raw) = lineFeeds init := by
      rw [htrim, lineFeeds_append]
      simp [lineFeeds, ne_lineFeed_of_not_isWhiteSpace hx]
    have hsize := x.utf8Size_pos
    have hminus : Bytes.minus? (pos + byteLength (trimEnd raw)) 1 =
        some (pos + byteLength init + (x.utf8Size - 1)) := by
      have hbytes : byteLength [x] = x.utf8Size := rfl
      rw [htrim, byteLength_append, hbytes, Bytes.minus?, if_pos (by omega), Option.some.injEq]
      omega
    rw [hminus, Option.map_some, hlast.lineOf_within rfl (by omega), hfeeds]

/-- A body is closed by the lines of its offsets, its colon being one byte. -/
theorem finishRule?_eq (h : Header) (d : Draft) (semi? : Option Nat) (hat : At text pos c)
    (hcolon : Bytes.lineOf text (pos - 1) = c.line) (hraw : c.rest = raw ++ rest)
    (hsemi : ∀ semi ∈ semi?, semi = pos + byteLength raw) :
    Bytes.finishRule? text d h pos (pos + byteLength raw) semi? =
      some (d.finishRule h c raw semi?.isSome) := by
  unfold Bytes.finishRule? Draft.finishRule
  simp only [hat.cut? hraw, hat.bodyLine? hcolon hraw, hat.endLine? hraw hsemi, Option.bind_eq_bind,
    Option.bind_some]
  generalize (if semi?.isSome then d else d.missingTerminator h) = d'
  cases hname : d'.grammar.rule? (String.ofList h.name) with
  | some first => rfl
  | none => rfl

end

/-! ## The step over a body -/

theorem length_bodyReach_of_exhausted {left braces : Nat} {state : BodyState} {s : List Char}
    (h : (bodyReach left braces state s).reason = .exhausted) :
    (bodyReach left braces state s).length = s.length := by
  fun_induction bodyReach left braces state s with
  | case1 => rfl
  | case2 => simp at h
  | case3 => simp at h
  | case4 left braces state cs _ _ ih => exact congrArg (· + 1) (ih h)
  | case5 => simp at h
  | case6 left braces state c cs _ _ state' braces' _ ih => exact congrArg (· + 1) (ih h)

/-- A body that is not terminated has a character at least. -/
theorem length_bodyReach_pos {left braces : Nat} {state : BodyState} {first : Char}
    {s : List Char} (h : (bodyReach left braces state (first :: s)).reason ≠ .terminator) :
    0 < (bodyReach left braces state (first :: s)).length := by
  unfold bodyReach at h ⊢
  split
  · split
    · exact Nat.one_pos
    split
    · exact Nat.one_pos
    · exact Nat.succ_pos _
  split
  · simp_all
  · exact Nat.succ_pos _

/-- The number of characters up to the end of a body, its `;` included. -/
def BodyReach.taken (r : BodyReach) : Nat :=
  if r.reason = .terminator then r.length + 1 else r.length

theorem At.range_stopAt {left braces : Nat} {state : BodyState} {r : BodyReach}
    (hat : At text pos c) (hr : bodyReach left braces state c.rest = r) :
    (r.stopAt pos c.rest).range text = (pos + byteLength (c.rest.take r.taken),
      if r.reason = .terminator then some (pos + byteLength (c.rest.take r.length)) else none) := by
  unfold BodyReach.stopAt BodyReach.taken
  cases hreason : r.reason with
  | terminator =>
    have hsemi : c.rest[r.length]? = some ';' := hr ▸ getElem?_bodyReach (hr ▸ hreason)
    have hbytes : byteLength [';'] = 1 := rfl
    simp only [if_true, List.take_add_one, hsemi, Option.toList_some, byteLength_append, hbytes]
    rfl
  | nextRule => rfl
  | capped => rfl
  | exhausted =>
    have hlength : r.length = c.rest.length := hr ▸ length_bodyReach_of_exhausted (hr ▸ hreason)
    obtain ⟨before, htext, hpos, -⟩ := hat
    simp only [reduceCtorEq, if_false, hlength, List.take_length, ← hpos, ← byteLength_append]
    rw [← htext]
    rfl

theorem BodyReach.taken_pos {left braces : Nat} {state : BodyState} {s : List Char}
    (hs : s ≠ []) : 0 < (bodyReach left braces state s).taken := by
  obtain ⟨first, rest, rfl⟩ := List.exists_cons_of_ne_nil hs
  unfold BodyReach.taken
  split
  · exact Nat.succ_pos _
  · exact length_bodyReach_pos ‹_›

theorem moves_body {limits : ScanLimits} {h : Header} (hat : At text pos c)
    (hcolon : Bytes.lineOf text (pos - 1) = c.line) (hne : c.rest ≠ []) (hline : h.line ≤ c.line)
    (d : Draft) :
    Moves text pos (Bytes.body? text d pos limits h) (Machine.stepBody limits h d c) := by
  have hend := hat.bodyEnd? limits hline
  have htaken : 0 < (bodyReach (limits.maxRuleLines - (c.line - h.line)) 0 .code c.rest).taken :=
    BodyReach.taken_pos hne
  unfold Bytes.body? Machine.stepBody
  generalize hr : bodyReach (limits.maxRuleLines - (c.line - h.line)) 0 .code c.rest = r
    at hend htaken ⊢
  have hraw : c.rest = c.rest.take r.length ++ c.rest.drop r.length :=
    (List.take_append_drop _ _).symm
  have hminus : Bytes.minus? (pos + byteLength (c.rest.take r.taken)) pos =
      some (byteLength (c.rest.take r.taken)) := by
    rw [Bytes.minus?, if_pos (Nat.le_add_right _ _), Nat.add_sub_cancel_left]
  have hpos : 0 < byteLength (c.rest.take r.taken) := by
    refine byteLength_pos fun hnil => ?_
    obtain hzero | hempty := List.take_eq_nil_iff.1 hnil
    · omega
    · exact hne hempty
  simp only [hend, Option.bind_eq_bind, Option.bind_some, hat.range_stopAt hr, hminus,
    Nat.max_eq_left hpos]
  refine ⟨byteLength (c.rest.take r.taken), ?_, ?_⟩
  · by_cases hterm : r.reason = .terminator
    · have hfinish := finishRule?_eq h d (some (pos + byteLength (c.rest.take r.length))) hat hcolon
        hraw (by simp)
      simp only [hterm, if_true, Option.getD_some, hfinish, Option.bind_some]
      rfl
    · have htaken : r.taken = r.length := if_neg hterm
      have hfinish := finishRule?_eq h d none hat hcolon hraw (by simp)
      simp only [hterm, if_false, Option.getD_none, htaken, hfinish, Option.bind_some]
      rfl
  · have hmax : max (if r.reason = .terminator then r.length + 1 else r.length) 1 = r.taken :=
      Nat.max_eq_left htaken
    rw [hmax]
    exact hat.advance r.taken

end GrammarLab.Source
