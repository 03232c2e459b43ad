import Mathlib.Data.List.TakeWhile
import GrammarLab.Proofs.Source.Step
import GrammarLab.Proofs.Text.Offsets

/-!
# Reading by byte offsets

A text can be read by offsets into its bytes instead of a cursor: slices are cut between two
offsets, and lines are counted from an offset. Such a reader is checked. It gives nothing at all
when an offset is behind the end of the text or within a character, or when a difference is
negative.

    At text pos c → charAt? text pos = c.rest.head? ∧ lineOf text pos = c.line
-/

namespace GrammarLab.Source

open Text

/-! ## Checked operations -/

namespace Bytes

/-- The difference, if it is not negative. -/
def minus? (m n : Nat) : Option Nat := if n ≤ m then some (m - n) else none

/-- The slice between the two offsets, if they are in order and characters end at both. -/
def cut? (text : List Char) (start stop : Nat) : Option (List Char) :=
  if start ≤ stop then slice? text start stop else none

/-- No slice begins within a character. -/
example : cut? ['é', 'a'] 1 2 = none := by cbv

/-- The line of an offset, counted from one. An offset within a character counts as its
beginning. -/
def lineOf (text : List Char) (pos : Nat) : Nat := 1 + lineFeeds (takeBytes pos text)

/-- The word that begins at the offset; none does where no character begins. -/
def wordAt (text : List Char) (pos : Nat) : List Char :=
  ((dropBytes pos text).getD []).takeWhile isWordChar

def keywordAt (text : List Char) (pos : Nat) (keyword : String) : Bool :=
  wordAt text pos == keyword.toList

/-- The offset of the first character from `pos` on that does not satisfy `p`, or the end. -/
def pass? (p : Char → Bool) (text : List Char) (pos : Nat) : Option Nat :=
  (dropBytes pos text).map fun rest =>
    if rest.all p then byteLength text else pos + byteLength (rest.takeWhile p)

/-- The same where `pos` may be behind the end. -/
def skip? (p : Char → Bool) (text : List Char) (pos : Nat) : Option Nat :=
  (dropBytes (min pos (byteLength text)) text).map fun rest =>
    if rest.all p then byteLength text else pos + byteLength (rest.takeWhile p)

def skipInlineBlank? (text : List Char) (pos : Nat) : Option Nat :=
  skip? (fun d => d = ' ' || d = '\t') text pos

/-- The offset behind the `;` of a statement, or the end of its line. -/
def statementEnd? (text : List Char) (pos : Nat) : Option Nat := do
  let stop ← pass? (· ≠ '\n') text pos
  let line ← cut? text pos stop
  return if line.contains ';' then pos + byteLength (line.takeWhile (· ≠ ';')) + 1 else stop

/-- One character more has been passed. -/
def beyond (c : Char) (length? : Option (Option Nat)) : Option (Option Nat) :=
  length?.map (·.map (c.utf8Size + ·))

/-- The number of bytes up to the delimiter that closes the outermost block, with `depth` blocks
open. Each closing delimiter takes one off the depth. -/
def closing? (opening closing : Char) (depth : Nat) : BlockState → List Char → Option (Option Nat)
  | _, [] => some none
  | .escaped q, c :: cs => beyond c (closing? opening closing depth (.quoted q) cs)
  | .quoted q, c :: cs =>
    if c = '\\' then beyond c (closing? opening closing depth (.escaped q) cs)
    else if c = q || c = '\n' then beyond c (closing? opening closing depth .code cs)
    else beyond c (closing? opening closing depth (.quoted q) cs)
  | .code, c :: cs =>
    if c = '\'' || c = '"' then beyond c (closing? opening closing depth (.quoted c) cs)
    else if c = opening then beyond c (closing? opening closing (depth + 1) .code cs)
    else if c = closing then
      (minus? depth 1).bind fun left =>
        if left = 0 then some (some c.utf8Size)
        else beyond c (closing? opening closing left .code cs)
    else beyond c (closing? opening closing depth .code cs)

/-- The offset behind the delimiter that closes the block at `pos`, if it is closed. -/
def balancedEnd? (opening closing : Char) (text : List Char) (pos : Nat) : Option (Option Nat) := do
  let rest ← dropBytes pos text
  let length? ← closing? opening closing 0 .code rest
  return length?.map (pos + ·)

end Bytes

/-! ## Statements and blocks -/

theorem exists_eq_takeWhile_append {d : Char} {s : List Char} (h : d ∈ s) :
    ∃ more, s = s.takeWhile (· ≠ d) ++ d :: more := by
  induction s with
  | nil => simp at h
  | cons e s ih =>
    by_cases he : e = d
    · exact ⟨s, by simp [he]⟩
    · obtain ⟨more, hmore⟩ := ih ((List.mem_cons.1 h).resolve_left (Ne.symm he))
      refine ⟨more, ?_⟩
      rw [List.takeWhile_cons, if_pos (by simpa using he), List.cons_append, ← hmore]

theorem statement_isPrefix (c : Cursor) : c.statement <+: c.rest := by
  have hline : c.restOfLine <+: c.rest := List.takeWhile_prefix _
  unfold Cursor.statement
  simp only
  split
  · rename_i hsemi
    obtain ⟨more, hmore⟩ := exists_eq_takeWhile_append (List.contains_iff_mem.1 hsemi)
    refine List.IsPrefix.trans ⟨more, ?_⟩ hline
    rw [List.append_assoc]
    exact hmore.symm
  · exact hline

/-- Semicolons stand at the end of a statement only. -/
theorem statement_eq_append (c : Cursor) :
    (c.statement.reverse.dropWhile (· = ';')).reverse = c.restOfLine.takeWhile (· ≠ ';') := by
  have hkeeps : ∀ w : List Char, ';' ∉ w → w.reverse.dropWhile (· = ';') = w.reverse := by
    intro w hw
    cases hr : w.reverse with
    | nil => rfl
    | cons d ds =>
      have hd : d ≠ ';' := by
        rintro rfl
        exact hw (List.mem_reverse.1 (hr ▸ List.mem_cons_self))
      simp [hd]
  have hfree : ';' ∉ c.restOfLine.takeWhile (· ≠ ';') := fun hmem => by
    simpa using List.mem_takeWhile_imp hmem
  unfold Cursor.statement
  simp only
  split
  · rw [List.reverse_append, List.reverse_singleton, List.singleton_append, List.dropWhile_cons,
      if_pos (by decide), hkeeps _ hfree, List.reverse_reverse]
  · rename_i hsemi
    have hline : ';' ∉ c.restOfLine := fun hmem => hsemi (List.contains_iff_mem.2 hmem)
    have hall : c.restOfLine.takeWhile (· ≠ ';') = c.restOfLine :=
      List.takeWhile_eq_self_iff.2 fun d hd => by
        simpa using fun hd' : d = ';' => hline (hd' ▸ hd)
    rw [hall, hkeeps _ hline, List.reverse_reverse]

section

open Bytes

variable {opening closing : Char} {n : Nat}

/-- A block ends with its closing delimiter. -/
theorem exists_eq_of_blockLength {depth : Nat} {state : BlockState} {s : List Char}
    (h : blockLength opening closing depth state s = some n) :
    ∃ inside behind, s = inside ++ closing :: behind ∧ n = inside.length + 1 := by
  have hcons : ∀ {c : Char} {cs : List Char} {r : Option Nat} {n : Nat},
      (∀ {m}, r = some m → ∃ inside behind, cs = inside ++ closing :: behind ∧
        m = inside.length + 1) → r.map (· + 1) = some n →
          ∃ inside behind, c :: cs = inside ++ closing :: behind ∧ n = inside.length + 1 := by
    intro c cs r n ih hr
    obtain ⟨m, hm, rfl⟩ := Option.map_eq_some_iff.1 hr
    obtain ⟨inside, behind, rfl, rfl⟩ := ih hm
    exact ⟨c :: inside, behind, rfl, rfl⟩
  fun_induction blockLength opening closing depth state s generalizing n with
  | case1 => simp at h
  | case2 depth q c cs ih => exact hcons ih h
  | case3 depth q cs ih => exact hcons ih h
  | case4 depth q c cs _ _ ih => exact hcons ih h
  | case5 depth q c cs _ _ ih => exact hcons ih h
  | case6 depth c cs _ ih => exact hcons ih h
  | case7 depth cs _ ih => exact hcons ih h
  | case8 cs =>
    obtain rfl := Option.some.inj h
    exact ⟨[], cs, rfl, rfl⟩
  | case9 cs d _ _ ih => exact hcons ih h
  | case10 depth c cs _ _ _ ih => exact hcons ih h

/-- Where a block is open no closing delimiter takes the depth below zero, and the bytes up to the
last one are those of the block. -/
theorem closing?_eq (depth : Nat) (state : BlockState) (s : List Char) :
    closing? opening closing (depth + 1) state s =
      some ((blockLength opening closing depth state s).map fun n => byteLength (s.take n)) := by
  have hcons : ∀ {c : Char} {cs : List Char} {r : Option Nat},
      beyond c (some (r.map fun n => byteLength (cs.take n))) =
        some ((r.map (· + 1)).map fun n => byteLength ((c :: cs).take n)) := by
    intro c cs r
    cases r with
    | none => rfl
    | some m => rfl
  fun_induction blockLength opening closing depth state s with
  | case1 => simp [closing?]
  | case2 depth q c cs ih => rw [closing?, ih, hcons]
  | case3 depth q cs ih => rw [closing?, if_pos rfl, ih, hcons]
  | case4 depth q c cs hc hend ih => rw [closing?, if_neg hc, if_pos hend, ih, hcons]
  | case5 depth q c cs hc hend ih => rw [closing?, if_neg hc, if_neg hend, ih, hcons]
  | case6 depth c cs hq ih => rw [closing?, if_pos hq, ih, hcons]
  | case7 depth cs hq ih => rw [closing?, if_neg hq, if_pos rfl, ih, hcons]
  | case8 cs hq hopen =>
    have hone : minus? (0 + 1) 1 = some 0 := rfl
    rw [closing?, if_neg hq, if_neg hopen, if_pos rfl, hone, Option.bind_some, if_pos rfl]
    simp [byteLength]
  | case9 cs d hq hopen ih =>
    have hone : minus? (d + 1 + 1) 1 = some (d + 1) := rfl
    rw [closing?, if_neg hq, if_neg hopen, if_pos rfl, hone, Option.bind_some,
      if_neg (Nat.succ_ne_zero d), ih, hcons]
  | case10 depth c cs hq hopen hclose ih =>
    rw [closing?, if_neg hq, if_neg hopen, if_neg hclose, ih, hcons]

end

/-! ## Cursors at offsets -/

/-- The cursor stands at the offset. -/
def At (text : List Char) (pos : Nat) (c : Cursor) : Prop :=
  ∃ before, text = before ++ c.rest ∧ byteLength before = pos ∧ c.line = 1 + lineFeeds before

section

variable {text passed : List Char} {pos stop n : Nat} {c c' : Cursor} {p : Char → Bool}

theorem at_start (text : List Char) : At text 0 (.start text) := ⟨[], rfl, rfl, rfl⟩

namespace At

theorem move (h : At text pos c) (hrest : c.rest = passed ++ c'.rest)
    (hline : c'.line = c.line + lineFeeds passed) : At text (pos + byteLength passed) c' := by
  obtain ⟨before, htext, hpos, hbefore⟩ := h
  refine ⟨before ++ passed, ?_, ?_, ?_⟩
  · rw [htext, hrest, List.append_assoc]
  · rw [byteLength_append, hpos]
  · rw [hline, hbefore, lineFeeds_append, Nat.add_assoc]

theorem advance (h : At text pos c) (n : Nat) :
    At text (pos + byteLength (c.rest.take n)) (c.advance n) :=
  h.move (List.take_append_drop n c.rest).symm rfl

theorem pass (h : At text pos c) (p : Char → Bool) :
    At text (pos + byteLength (c.rest.takeWhile p)) (c.pass p) := by
  have htake : c.rest.take (c.rest.takeWhile p).length = c.rest.takeWhile p :=
    (List.prefix_iff_eq_take.1 (List.takeWhile_prefix p)).symm
  have hadvance := h.advance (c.rest.takeWhile p).length
  rwa [htake] at hadvance

theorem one {d : Char} {ds : List Char} (h : At text pos c) (hrest : c.rest = d :: ds) :
    At text (pos + d.utf8Size) (c.advance 1) := by
  have hadvance := h.advance 1
  rwa [hrest, List.take_succ_cons, List.take_zero] at hadvance

theorem finish (h : At text pos c) : At text (byteLength text) c.finish := by
  have hadvance := h.advance c.rest.length
  obtain ⟨before, htext, hpos, -⟩ := h
  rwa [List.take_length, ← hpos, ← byteLength_append, ← htext] at hadvance

/-- A place further on has the greater offset. -/
theorem le (h : At text pos c) (h' : At text stop c') (hc : Onward c c') : pos ≤ stop := by
  obtain ⟨passed, hrest, hline⟩ := hc
  obtain ⟨before, htext, hpos, -⟩ := h.move hrest hline
  obtain ⟨before', htext', hstop, -⟩ := h'
  obtain rfl : before = before' := List.append_cancel_right (htext.symm.trans htext')
  omega

/-- The offset is the greater the less is left of the text. -/
theorem lt (h : At text pos c) (h' : At text stop c') (hrest : c'.rest.length < c.rest.length) :
    pos < stop := by
  obtain ⟨before, htext, hpos, -⟩ := h
  obtain ⟨before', htext', hstop, -⟩ := h'
  rcases List.append_eq_append_iff.1 (htext.symm.trans htext') with
    ⟨passed, hbefore, hc⟩ | ⟨passed, hbefore, hc⟩
  · have hne : passed ≠ [] := by
      rintro rfl
      simp [hc] at hrest
    have := byteLength_pos hne
    rw [← hpos, ← hstop, hbefore, byteLength_append]
    omega
  · have := congrArg List.length hc
    rw [List.length_append] at this
    omega

/-- At one offset the same is left of the text. -/
theorem rest_eq (h : At text pos c) (h' : At text pos c') : c.rest = c'.rest := by
  obtain ⟨before, htext, hpos, -⟩ := h
  obtain ⟨before', htext', hpos', -⟩ := h'
  exact (append_inj_of_byteLength (htext.symm.trans htext') (hpos.trans hpos'.symm)).2

theorem unique (h : At text pos c) (h' : At text stop c) : pos = stop :=
  Nat.le_antisymm (h.le h' (.refl c)) (h'.le h (.refl c))

theorem minus? (h : At text pos c) (h' : At text stop c') (hc : Onward c c') :
    ∃ n, Bytes.minus? stop pos = some n ∧ pos + n = stop := by
  have hle := h.le h' hc
  exact ⟨stop - pos, if_pos hle, by omega⟩

theorem le_byteLength (h : At text pos c) : pos ≤ byteLength text := by
  obtain ⟨before, htext, hpos, -⟩ := h
  rw [htext, byteLength_append]
  omega

theorem dropBytes_eq (h : At text pos c) : dropBytes pos text = some c.rest := by
  obtain ⟨before, htext, hpos, -⟩ := h
  rw [htext, ← hpos, dropBytes_byteLength]

theorem charAt? (h : At text pos c) : Text.charAt? text pos = c.rest.head? := by
  rw [Text.charAt?, h.dropBytes_eq]
  rfl

theorem charAt?_eq_iff (h : At text pos c) (d : Char) :
    Text.charAt? text pos = some d ↔ c.startsWith d = true := by
  rw [h.charAt?]
  exact beq_iff_eq.symm

theorem wordAt (h : At text pos c) : Bytes.wordAt text pos = c.word := by
  rw [Bytes.wordAt, h.dropBytes_eq]
  rfl

theorem keywordAt (h : At text pos c) (keyword : String) :
    Bytes.keywordAt text pos keyword = c.hasKeyword keyword := by
  rw [Bytes.keywordAt, h.wordAt]
  rfl

theorem lineOf (h : At text pos c) : Bytes.lineOf text pos = c.line := by
  obtain ⟨before, htext, hpos, hline⟩ := h
  rw [Bytes.lineOf, htext, ← hpos, takeBytes_byteLength, hline]

/-- Within a character the line is that of the character. -/
theorem lineOf_within {d : Char} {ds : List Char} {k : Nat} (h : At text pos c)
    (hrest : c.rest = d :: ds) (hk : k < d.utf8Size) : Bytes.lineOf text (pos + k) = c.line := by
  obtain ⟨before, htext, hpos, hline⟩ := h
  rw [Bytes.lineOf, htext, hrest, ← hpos, takeBytes_within hk, hline]

theorem cut? {rest : List Char} (h : At text pos c) (hrest : c.rest = passed ++ rest) :
    Bytes.cut? text pos (pos + byteLength passed) = some passed := by
  obtain ⟨before, htext, hpos, -⟩ := h
  rw [Bytes.cut?, if_pos (Nat.le_add_right _ _), htext, hrest, ← hpos, ← List.append_assoc,
    slice?_append]

/-! ### Passing over characters -/

theorem pass? (h : At text pos c) (p : Char → Bool) :
    ∃ stop, Bytes.pass? p text pos = some stop ∧ At text stop (c.pass p) := by
  refine ⟨if c.rest.all p then byteLength text else pos + byteLength (c.rest.takeWhile p), ?_, ?_⟩
  · rw [Bytes.pass?, h.dropBytes_eq]
    rfl
  split
  · rename_i hall
    have hself : c.rest.takeWhile p = c.rest :=
      List.takeWhile_eq_self_iff.2 (List.all_eq_true.1 hall)
    have hfinish : c.pass p = c.finish := by rw [Cursor.pass, hself]; rfl
    exact hfinish ▸ h.finish
  · exact h.pass p

/-- Behind the text no other place than its end is found. -/
theorem skip? (h : At text pos c) (p : Char → Bool) :
    ∃ stop, Bytes.skip? p text pos = some stop ∧ At text stop (c.pass p) := by
  rw [Bytes.skip?, Nat.min_eq_left h.le_byteLength]
  exact h.pass? p

theorem skipBlank (h : At text pos c) :
    ∃ stop, Bytes.skip? isWhiteSpace text pos = some stop ∧ At text stop c.passBlank :=
  h.skip? isWhiteSpace

theorem skipInlineBlank (h : At text pos c) : ∃ stop,
    Bytes.skipInlineBlank? text pos = some stop ∧ At text stop c.passInlineBlank :=
  h.skip? _

/-- What is left of the line can be cut out. -/
theorem cutLine (h : At text pos c) : ∃ stop, Bytes.pass? (· ≠ '\n') text pos = some stop ∧
    Bytes.cut? text pos stop = some c.restOfLine ∧
    Bytes.minus? stop pos = some (byteLength c.restOfLine) ∧ At text stop c.passLine := by
  obtain ⟨stop, hstop, hend⟩ := h.pass? (· ≠ '\n')
  obtain rfl : stop = pos + byteLength c.restOfLine := hend.unique (h.pass (· ≠ '\n'))
  refine ⟨_, hstop, h.cut? List.takeWhile_append_dropWhile.symm, ?_, hend⟩
  rw [Bytes.minus?, if_pos (Nat.le_add_right _ _), Nat.add_sub_cancel_left]

/-- The statement in front can be cut out. -/
theorem statementEnd? (h : At text pos c) :
    ∃ stop, Bytes.statementEnd? text pos = some stop ∧
      Bytes.cut? text pos stop = some c.statement ∧ At text stop c.passStatement := by
  obtain ⟨stop, hstop, hcut, hminus, hend⟩ := h.cutLine
  have hline : stop = pos + byteLength c.restOfLine := hend.unique (h.pass (· ≠ '\n'))
  have htake : c.rest.take c.statement.length = c.statement :=
    (List.prefix_iff_eq_take.1 (statement_isPrefix c)).symm
  have hstatement := h.advance c.statement.length
  have hrest : c.rest = c.statement ++ c.rest.drop c.statement.length := by
    conv => lhs; rw [← List.take_append_drop c.statement.length c.rest, htake]
  rw [htake] at hstatement
  refine ⟨pos + byteLength c.statement, ?_, h.cut? hrest, hstatement⟩
  rw [Bytes.statementEnd?, hstop, Option.bind_eq_bind, Option.bind_some, hcut, Option.bind_eq_bind,
    Option.bind_some]
  unfold Cursor.statement
  simp only [Option.pure_def, Option.some.injEq]
  split
  · rw [byteLength_append, Nat.add_assoc]
    rfl
  · exact hline

theorem balancedEnd?_eq {opening : Char} {cs : List Char} (closing : Char) (h : At text pos c)
    (hrest : c.rest = opening :: cs) (hquote : ¬(opening = '\'' || opening = '"') = true) :
    Bytes.balancedEnd? opening closing text pos =
      some ((blockLength opening closing 0 .code cs).map fun n =>
        pos + (opening.utf8Size + byteLength (cs.take n))) := by
  rw [Bytes.balancedEnd?, h.dropBytes_eq, Option.bind_eq_bind, Option.bind_some, hrest,
    Bytes.closing?, if_neg hquote, if_pos rfl, closing?_eq]
  simp [Bytes.beyond, Function.comp_def]

/-- The end of a block is found where there is one, and what it encloses can be cut out. -/
theorem balancedEnd? {opening : Char} {cs : List Char} (closing : Char) (h : At text pos c)
    (hrest : c.rest = opening :: cs) (hquote : ¬(opening = '\'' || opening = '"') = true) :
    (c.block? opening closing = none ∧
        Bytes.balancedEnd? opening closing text pos = some none) ∨
      ∃ inside c' stop, c.block? opening closing = some (inside, c') ∧
        Bytes.balancedEnd? opening closing text pos = some (some stop) ∧ At text stop c' ∧
        (opening.utf8Size = 1 → closing.utf8Size = 1 →
          (Bytes.minus? stop 1).bind (Bytes.cut? text (pos + 1)) = some inside) := by
  rw [h.balancedEnd?_eq closing hrest hquote]
  cases hlength : blockLength opening closing 0 .code cs with
  | none => exact .inl ⟨by simp [Cursor.block?, hrest, hlength], rfl⟩
  | some n =>
    obtain ⟨inside, behind, rfl, rfl⟩ := exists_eq_of_blockLength hlength
    have htake : (inside ++ closing :: behind).take (inside.length + 1) = inside ++ [closing] :=
      List.take_length_add_append 1
    have hend := h.advance (inside.length + 1 + 1)
    rw [hrest, List.take_succ_cons, htake] at hend
    refine .inr ⟨inside, c.advance (inside.length + 1 + 1),
      pos + (opening.utf8Size + byteLength (inside ++ [closing])),
      by simp [Cursor.block?, hrest, hlength], by rw [← htake]; rfl, hend, fun hopen hclose => ?_⟩
    have hlast : Bytes.minus? (pos + (opening.utf8Size + byteLength (inside ++ [closing]))) 1 =
        some (pos + 1 + byteLength inside) := by
      rw [byteLength_append, Bytes.minus?, if_pos (by omega)]
      simp only [byteLength, hclose, hopen, Option.some.injEq]
      omega
    have hfirst := h.one hrest
    have hinside : (c.advance 1).rest = inside ++ closing :: behind := by
      rw [Cursor.rest_advance, hrest, List.drop_one, List.tail_cons]
    rw [hopen] at hfirst
    rw [hlast, Option.bind_some, hfirst.cut? hinside]

end At

end

end GrammarLab.Source
