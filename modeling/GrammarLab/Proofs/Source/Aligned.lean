import Mathlib.Data.List.Chain
import GrammarLab.Proofs.Source.Bytes
import GrammarLab.Proofs.Text.LineEnds

/-!
# Places in a widened text

Two cursors are aligned when what is left of one text is that of the other with blanks put in at the
ends of lines, and the lines passed are as many. Words, statements and blocks lead from aligned
places to aligned places.

    Aligned c c' → Aligned c.passStatement c'.passStatement           (Aligned.passStatement)
-/

namespace GrammarLab.Source

open Text

/-- `c'` stands where `c` does, in a text that is widened at its line ends. -/
structure Aligned (c c' : Cursor) : Prop where
  line : c'.line = c.line
  rest : Widened c.rest c'.rest

variable {c c' : Cursor} {p : Char → Bool} {d : Char} {s t s' t' : List Char}

/-! ## Moving on -/

theorem advance_of_append (hc : c.rest = s ++ t) :
    c.advance s.length = ⟨c.line + lineFeeds s, t⟩ := by
  simp [Cursor.advance, hc]

theorem pass_eq (p : Char → Bool) (c : Cursor) :
    c.pass p = ⟨c.line + lineFeeds (c.rest.takeWhile p), c.rest.dropWhile p⟩ :=
  advance_of_append List.takeWhile_append_dropWhile.symm

theorem exists_dropWhile_eq_cons (h : d ∈ s) : ∃ more, s.dropWhile (· ≠ d) = d :: more := by
  obtain ⟨more, hmore⟩ := exists_eq_takeWhile_append h
  exact ⟨more, List.append_cancel_left (List.takeWhile_append_dropWhile.trans hmore)⟩

theorem finish_eq (c : Cursor) : c.finish = ⟨c.line + lineFeeds c.rest, []⟩ :=
  advance_of_append (by simp)

/-- A statement that is closed on its line ends behind its `;`. -/
theorem passStatement_eq (c : Cursor) : c.passStatement =
    if ';' ∈ c.restOfLine then (c.pass (· ≠ ';')).advance 1 else c.passLine := by
  by_cases hsemi : ';' ∈ c.restOfLine
  · obtain ⟨more, hmore⟩ := exists_eq_takeWhile_append hsemi
    have hrest : c.rest = c.restOfLine ++ c.rest.dropWhile (· ≠ '\n') :=
      List.takeWhile_append_dropWhile.symm
    have hsame : c.rest.takeWhile (· ≠ ';') = c.restOfLine.takeWhile (· ≠ ';') := by
      conv_lhs => rw [hrest, hmore, List.append_assoc]
      rw [List.takeWhile_append_of_pos fun e => List.mem_takeWhile_imp]
      simp
    have hstatement : c.statement = c.rest.takeWhile (· ≠ ';') ++ [';'] := by
      rw [Cursor.statement, if_pos (List.contains_iff_mem.2 hsemi), hsame]
    rw [if_pos hsemi, Cursor.passStatement, hstatement, List.length_append, advance_add]
    rfl
  · rw [if_neg hsemi, Cursor.passStatement, Cursor.statement,
      if_neg fun h => hsemi (List.contains_iff_mem.1 h)]
    rfl

namespace Aligned

/-- Behind parts with as many line feeds the places are aligned again. -/
theorem advance (h : Aligned c c') (hc : c.rest = s ++ t) (hc' : c'.rest = s' ++ t')
    (hfeeds : lineFeeds s' = lineFeeds s) (ht : Widened t t') :
    Aligned (c.advance s.length) (c'.advance s'.length) := by
  rw [advance_of_append hc, advance_of_append hc']
  exact ⟨by rw [h.line, hfeeds], ht⟩

theorem advance_one (h : Aligned c c') (hc : c.rest = d :: s) (hc' : c'.rest = d :: s')
    (hs : Widened s s') : Aligned (c.advance 1) (c'.advance 1) :=
  Aligned.advance (s := [d]) h hc (by exact hc') rfl hs

/-- A blank in front of a line end is passed in the second text alone. -/
theorem passFiller (h : Aligned c c') (hc' : c'.rest = d :: t) (hd : isFiller d = true)
    (hw : Widened c.rest t) : Aligned c (c'.advance 1) := by
  have hadvance : c'.advance 1 = ⟨c'.line + lineFeeds [d], t⟩ := advance_of_append (s := [d]) hc'
  rw [hadvance]
  exact ⟨by simp [h.line, lineFeeds, ne_lineFeed_of_isFiller hd], hw⟩

theorem pass (hp : TakesFillers p) (h : Aligned c c') : Aligned (c.pass p) (c'.pass p) := by
  rw [pass_eq, pass_eq]
  exact ⟨by rw [h.line, (h.rest.takeWhile hp).lineFeeds_eq], h.rest.dropWhile hp⟩

theorem passBlank (h : Aligned c c') : Aligned c.passBlank c'.passBlank := h.pass (by decide)

theorem passInlineBlank (h : Aligned c c') : Aligned c.passInlineBlank c'.passInlineBlank :=
  h.pass (by decide)

theorem passWord (h : Aligned c c') : Aligned c.passWord c'.passWord := h.pass (by decide)

theorem passLine (h : Aligned c c') : Aligned c.passLine c'.passLine := h.pass (by decide)

theorem finish (h : Aligned c c') : Aligned c.finish c'.finish := by
  rw [finish_eq, finish_eq]
  exact ⟨by rw [h.line, h.rest.lineFeeds_eq], .nil⟩

theorem word_eq (h : Aligned c c') : c'.word = c.word := h.rest.takeWhile_eq (by decide)

theorem hasKeyword_eq (h : Aligned c c') (keyword : String) :
    c'.hasKeyword keyword = c.hasKeyword keyword := by
  rw [Cursor.hasKeyword, h.word_eq, Cursor.hasKeyword]

/-- A keyword that stands here is the word that is passed. -/
theorem passKeyword {keyword : String} (h : Aligned c c') (hk : c.hasKeyword keyword = true) :
    Aligned (c.advance keyword.toList.length) (c'.advance keyword.toList.length) := by
  have hword : c.word = keyword.toList := beq_iff_eq.1 hk
  have hpass : Aligned (c.advance c.word.length) (c'.advance c'.word.length) := h.passWord
  rwa [h.word_eq, hword] at hpass

theorem startsWith_eq (h : Aligned c c') (hd : isFiller d = false) (hline : d ≠ '\n') :
    c'.startsWith d = c.startsWith d := by
  rw [Bool.eq_iff_iff, Cursor.startsWith, Cursor.startsWith, beq_iff_eq, beq_iff_eq]
  exact h.rest.head?_eq_some_iff hd hline

/-- The place behind a character that stands in front of both texts. -/
theorem advance_startsWith (h : Aligned c c') (hd : isFiller d = false)
    (hc : c.startsWith d = true) (hc' : c'.startsWith d = true) :
    Aligned (c.advance 1) (c'.advance 1) := by
  obtain ⟨s, hs⟩ := List.head?_eq_some_iff.1 (beq_iff_eq.1 hc)
  obtain ⟨s', hs'⟩ := List.head?_eq_some_iff.1 (beq_iff_eq.1 hc')
  refine h.advance_one hs hs' (.of_cons hd (c := d) ?_)
  rw [← hs, ← hs']
  exact h.rest

theorem restOfLine (h : Aligned c c') : Widened c.restOfLine c'.restOfLine :=
  h.rest.takeWhile (by decide)

theorem passStatement (h : Aligned c c') : Aligned c.passStatement c'.passStatement := by
  have hstarts : ∀ {c : Cursor}, ';' ∈ c.restOfLine →
      (c.pass (· ≠ ';')).startsWith ';' = true := by
    intro c hsemi
    obtain ⟨more, hmore⟩ := exists_dropWhile_eq_cons ((List.takeWhile_prefix _).subset hsemi)
    rw [pass_eq, Cursor.startsWith, hmore]
    rfl
  rw [passStatement_eq, passStatement_eq]
  by_cases hsemi : ';' ∈ c.restOfLine
  · have hsemi' : ';' ∈ c'.restOfLine := (h.restOfLine.mem_iff (by decide)).2 hsemi
    rw [if_pos hsemi, if_pos hsemi']
    exact (h.pass (by decide)).advance_startsWith (by decide) (hstarts hsemi) (hstarts hsemi')
  · rw [if_neg hsemi, if_neg fun h' => hsemi ((h.restOfLine.mem_iff (by decide)).1 h')]
    exact h.passLine

end Aligned

/-! ## Blocks -/

/-- No line of the text ends with a backslash. -/
def Unbroken (s : List Char) : Prop := s.IsChain fun c d => c = '\\' → d ≠ '\n'

section

variable {opening closing : Char} {depth : Nat} {state state' : BlockState} {r r' : Option Nat}

/-- The block in the middle of code, whatever the number of open delimiters is. -/
theorem blockLength_code (opening closing : Char) (depth : Nat) (c : Char) (s : List Char) :
    blockLength opening closing depth .code (c :: s) =
      if c = '\'' || c = '"' then (blockLength opening closing depth (.quoted c) s).map (· + 1)
      else if c = opening then (blockLength opening closing (depth + 1) .code s).map (· + 1)
      else if c = closing then
        if depth = 0 then some 1
        else (blockLength opening closing (depth - 1) .code s).map (· + 1)
      else (blockLength opening closing depth .code s).map (· + 1) := by
  cases depth with
  | zero => rw [blockLength, if_pos rfl]
  | succ depth => rw [blockLength, if_neg (Nat.succ_ne_zero depth)]; rfl

/-- A character closes the block, or the block goes on behind it. -/
theorem blockLength_cons (opening closing : Char) (depth : Nat) (state : BlockState) (c : Char) :
    (c = closing ∧ ∀ s, blockLength opening closing depth state (c :: s) = some 1) ∨
      ∃ depth' state', (∀ mark, state' = .escaped mark → c = '\\') ∧
        ∀ s, blockLength opening closing depth state (c :: s) =
          (blockLength opening closing depth' state' s).map (· + 1) := by
  cases state with
  | escaped mark => exact .inr ⟨depth, .quoted mark, by simp, fun s => by rw [blockLength]⟩
  | quoted mark =>
    by_cases hc : c = '\\'
    · exact .inr ⟨depth, .escaped mark, fun _ _ => hc, fun s => by rw [blockLength, if_pos hc]⟩
    by_cases hend : (c = mark || c = '\n') = true
    · exact .inr ⟨depth, .code, by simp, fun s => by rw [blockLength, if_neg hc, if_pos hend]⟩
    · exact .inr ⟨depth, .quoted mark, by simp,
        fun s => by rw [blockLength, if_neg hc, if_neg hend]⟩
  | code =>
    by_cases hquote : (c = '\'' || c = '"') = true
    · exact .inr ⟨depth, .quoted c, by simp, fun s => by rw [blockLength_code, if_pos hquote]⟩
    by_cases hopen : c = opening
    · exact .inr ⟨depth + 1, .code, by simp,
        fun s => by rw [blockLength_code, if_neg hquote, if_pos hopen]⟩
    by_cases hclose : c = closing
    · by_cases hdepth : depth = 0
      · exact .inl ⟨hclose, fun s => by
          rw [blockLength_code, if_neg hquote, if_neg hopen, if_pos hclose, if_pos hdepth]⟩
      · exact .inr ⟨depth - 1, .code, by simp, fun s => by
          rw [blockLength_code, if_neg hquote, if_neg hopen, if_pos hclose, if_neg hdepth]⟩
    · exact .inr ⟨depth, .code, by simp,
        fun s => by rw [blockLength_code, if_neg hquote, if_neg hopen, if_neg hclose]⟩

/-- Both blocks are left open, or both are closed, behind texts of which one widens the other. -/
def ClosesAlike (closing : Char) (s t : List Char) (r r' : Option Nat) : Prop :=
  (r = none ∧ r' = none) ∨ ∃ u v u' v', s = u ++ closing :: v ∧ t = u' ++ closing :: v' ∧
    r = some (u.length + 1) ∧ r' = some (u'.length + 1) ∧ Widened u u' ∧ Widened v v'

theorem ClosesAlike.here (h : Widened s t) :
    ClosesAlike closing (closing :: s) (closing :: t) (some 1) (some 1) :=
  .inr ⟨[], s, [], t, rfl, rfl, rfl, rfl, .nil, h⟩

theorem ClosesAlike.cons (c : Char) (h : ClosesAlike closing s t r r') :
    ClosesAlike closing (c :: s) (c :: t) (r.map (· + 1)) (r'.map (· + 1)) := by
  obtain ⟨rfl, rfl⟩ | ⟨u, v, u', v', rfl, rfl, rfl, rfl, hu, hv⟩ := h
  · exact .inl ⟨rfl, rfl⟩
  · exact .inr ⟨c :: u, v, c :: u', v', rfl, rfl, rfl, rfl, hu.cons c, hv⟩

theorem ClosesAlike.filler (hd : isFiller d = true) (hs : AtLineEnd s)
    (h : ClosesAlike closing s t r r') : ClosesAlike closing s (d :: t) r (r'.map (· + 1)) := by
  obtain ⟨rfl, rfl⟩ | ⟨u, v, u', v', rfl, rfl, rfl, rfl, hu, hv⟩ := h
  · exact .inl ⟨rfl, rfl⟩
  · exact .inr ⟨u, v, d :: u', v', rfl, rfl, rfl, rfl,
      hu.filler hd (hs.of_isPrefix (List.prefix_append _ _)), hv⟩

/-- The delimiters of blocks are neither blanks nor line feeds. -/
structure Delimiters (opening closing : Char) : Prop where
  opening_filler : isFiller opening = false
  closing_filler : isFiller closing = false
  opening_line : opening ≠ '\n'
  closing_line : closing ≠ '\n'

instance : Decidable (Delimiters opening closing) :=
  decidable_of_iff (isFiller opening = false ∧ isFiller closing = false ∧ opening ≠ '\n' ∧
    closing ≠ '\n')
    ⟨fun ⟨h₁, h₂, h₃, h₄⟩ => ⟨h₁, h₂, h₃, h₄⟩, fun ⟨h₁, h₂, h₃, h₄⟩ => ⟨h₁, h₂, h₃, h₄⟩⟩

theorem delimiters_braces : Delimiters '\x7b' '\x7d' := by decide

theorem delimiters_brackets : Delimiters '[' ']' := by decide

/-- A blank opens and closes nothing. -/
theorem blockLength_filler (depth : Nat) (hb : Delimiters opening closing)
    (hd : isFiller d = true) (state : BlockState) :
    ∃ state' : BlockState, (∀ mark, state' ≠ .escaped mark) ∧
      ∀ s, blockLength opening closing depth state (d :: s) =
        (blockLength opening closing depth state' s).map (· + 1) := by
  have hother : ∀ {e : Char}, isFiller e = false → d ≠ e := by
    rintro e he rfl
    simp [he] at hd
  cases state with
  | escaped mark => exact ⟨.quoted mark, by simp, fun s => by rw [blockLength]⟩
  | quoted mark =>
    have hd' : d ≠ '\\' := hother (by decide)
    by_cases hend : (d = mark || d = '\n') = true
    · exact ⟨.code, by simp, fun s => by rw [blockLength, if_neg hd', if_pos hend]⟩
    · exact ⟨.quoted mark, by simp, fun s => by rw [blockLength, if_neg hd', if_neg hend]⟩
  | code =>
    have hquote : ¬(d = '\'' || d = '"') = true := by
      simp [hother (e := '\'') (by decide), hother (e := '"') (by decide)]
    exact ⟨.code, by simp, fun s => by
      rw [blockLength_code, if_neg hquote, if_neg (hother hb.opening_filler),
        if_neg (hother hb.closing_filler)]⟩

/-- Behind a line feed no quote is open. -/
theorem blockLength_lineFeed (hb : Delimiters opening closing)
    (hstate : ∀ mark, state ≠ .escaped mark) (s : List Char) :
    blockLength opening closing depth state ('\n' :: s) =
      (blockLength opening closing depth .code s).map (· + 1) := by
  cases state with
  | escaped mark => exact absurd rfl (hstate mark)
  | quoted mark => simp [blockLength]
  | code => simp [blockLength_code, hb.opening_line.symm, hb.closing_line.symm]

/-- What a block is in the middle of may differ in front of a line end only, and no backslash
stands there. -/
theorem closesAlike (hb : Delimiters opening closing) (hw : Widened s t) (hs : Unbroken s)
    (hstate : state' = state ∨ AtLineEnd s)
    (hesc : s.head? = some '\n' → ∀ mark, state ≠ .escaped mark ∧ state' ≠ .escaped mark) :
    ClosesAlike closing s t (blockLength opening closing depth state s)
      (blockLength opening closing depth state' t) := by
  induction hw generalizing depth state state' with
  | nil => exact .inl ⟨by rw [blockLength], by rw [blockLength]⟩
  | @cons s t c hw ih =>
    by_cases hc : c = '\n'
    · subst hc
      have hesc' := hesc rfl
      rw [blockLength_lineFeed hb fun mark => (hesc' mark).1,
        blockLength_lineFeed hb fun mark => (hesc' mark).2]
      exact (ih hs.tail (.inl rfl) (by simp)).cons '\n'
    · obtain rfl := hstate.resolve_right fun h => hc (atLineEnd_cons.1 h)
      obtain ⟨rfl, hone⟩ | ⟨depth', next, hnext, hmore⟩ :=
        blockLength_cons opening closing depth state' c
      · rw [hone, hone]
        exact .here hw
      · rw [hmore, hmore]
        refine (ih hs.tail (.inl rfl) fun hline mark => ?_).cons c
        have hbreaks : next ≠ .escaped mark := fun hmark => by
          obtain ⟨s', rfl⟩ := List.head?_eq_some_iff.1 hline
          exact (List.isChain_cons_cons.1 hs).1 (hnext mark hmark) rfl
        exact ⟨hbreaks, hbreaks⟩
  | @filler s t d hd hend hw ih =>
    obtain ⟨next, hnext, hmore⟩ := blockLength_filler depth hb hd state'
    rw [hmore]
    refine (ih hs (.inr hend) fun hline mark => ⟨(hesc hline mark).1, hnext mark⟩).filler hd hend

theorem Unbroken.onward (hs : Unbroken c.rest) (hc : Onward c c') : Unbroken c'.rest := by
  obtain ⟨passed, hrest, -⟩ := hc
  exact List.IsChain.right_of_append (hrest ▸ hs)

/-- Of two blocks that open at aligned places one is closed when the other is. -/
theorem Aligned.block? (hb : Delimiters opening closing) (h : Aligned c c')
    (hs : Unbroken c.rest) (hc : c.startsWith opening = true) :
    Option.Rel (fun r r' => Widened r.1 r'.1 ∧ Aligned r.2 r'.2) (c.block? opening closing)
      (c'.block? opening closing) := by
  have hc' : c'.startsWith opening = true := by
    rw [h.startsWith_eq hb.opening_filler hb.opening_line, hc]
  obtain ⟨s, hrest⟩ := List.head?_eq_some_iff.1 (beq_iff_eq.1 hc)
  obtain ⟨t, hrest'⟩ := List.head?_eq_some_iff.1 (beq_iff_eq.1 hc')
  have hw : Widened s t := .of_cons hb.opening_filler (hrest ▸ hrest' ▸ h.rest)
  have hcloses : ClosesAlike closing s t (blockLength opening closing 0 .code s)
      (blockLength opening closing 0 .code t) :=
    closesAlike hb hw (hrest ▸ hs).tail (.inl rfl) (by simp)
  simp only [Cursor.block?, hrest, hrest']
  obtain ⟨hnone, hnone'⟩ | ⟨u, v, u', v', rfl, rfl, hsome, hsome', hu, hv⟩ := hcloses
  · rw [hnone, hnone']
    exact .none
  · rw [hsome, hsome', Option.map_some, Option.map_some]
    refine .some ⟨by simpa using hu, ?_⟩
    have hfeeds : lineFeeds (opening :: u' ++ [closing]) =
        lineFeeds (opening :: u ++ [closing]) := by
      simp only [lineFeeds_append, (hu.cons opening).lineFeeds_eq]
    have hadvance : Aligned (c.advance (opening :: u ++ [closing]).length)
        (c'.advance (opening :: u' ++ [closing]).length) :=
      h.advance (by simpa using hrest) (by simpa using hrest') hfeeds hv
    simpa using hadvance

end

end GrammarLab.Source
