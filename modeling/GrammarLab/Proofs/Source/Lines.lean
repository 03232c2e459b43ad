import Mathlib.Data.List.Basic
import GrammarLab.Proofs.Source.Comments
import GrammarLab.Proofs.Source.Step
import GrammarLab.Proofs.Text.Trim

/-!
# Lines of rules

Every rule names three lines of the source: that of its name, that on which its body begins and that
on which it ends. They follow each other within a rule and the rules follow each other by the first.

    Located (strip source) (scanned limits source)                (located_scanned)
-/

namespace GrammarLab.Source

open Text

variable {limits : ScanLimits} {text : List Char} {c c' : Cursor}

/-! ## Lines of a text -/

/-- The number of lines of a text. A line feed at its end begins no further one. -/
def lineCount (s : List Char) : Nat :=
  lineFeeds s + if s.getLast?.all (· = '\n') then 0 else 1

/-- Every character stands on one of the lines. -/
theorem lineFeeds_lt_lineCount (before : List Char) (x : Char) (rest : List Char) :
    lineFeeds before < lineCount (before ++ x :: rest) := by
  unfold lineCount
  rw [lineFeeds_append, List.getLast?_append_cons]
  split
  · rename_i hlast
    have hmem : (x :: rest).getLast (List.cons_ne_nil x rest) = '\n' := by
      simpa [List.getLast?_eq_some_getLast (List.cons_ne_nil x rest)] using hlast
    have hpos : 0 < lineFeeds (x :: rest) :=
      List.count_pos_iff.2 (hmem ▸ List.getLast_mem (List.cons_ne_nil x rest))
    omega
  · omega

theorem lineFeeds_congr {s t : List Char} (h : s.map (· == '\n') = t.map (· == '\n')) :
    lineFeeds s = lineFeeds t := by
  have hcount : ∀ u : List Char, lineFeeds u = (u.map (· == '\n')).count true := fun u => by
    simp only [lineFeeds, List.count, List.countP_map]
    exact List.countP_congr (by simp)
  rw [hcount, hcount, h]

/-- The number of lines is told by which characters are line feeds. -/
theorem lineCount_congr {s t : List Char} (h : s.map (· == '\n') = t.map (· == '\n')) :
    lineCount s = lineCount t := by
  have hlast : ∀ u : List Char,
      u.getLast?.all (· = '\n') = (u.map (· == '\n')).getLast?.all (· = true) := fun u => by
    cases hu : u.getLast? with
    | none => simp [hu]
    | some x => simp [hu, Bool.beq_eq_decide_eq]
  simp only [lineCount, lineFeeds_congr h, hlast, h]

/-- Comments end no line and begin none. -/
theorem lineCount_strip (s : List Char) : lineCount (strip s) = lineCount s :=
  lineCount_congr (map_stripFrom .code s)

/-- A place in front of a character is on one of the lines. -/
theorem line_le_lineCount {x : Char} {rest : List Char} (hc : Onward (.start text) c)
    (hrest : c.rest = x :: rest) : c.line ≤ lineCount text := by
  obtain ⟨before, htext, hline⟩ := hc
  have htext : text = before ++ x :: rest := by rw [← hrest]; exact htext
  have hline : c.line = 1 + lineFeeds before := hline
  have := lineFeeds_lt_lineCount before x rest
  rw [htext]; omega

/-! ## Bodies -/

/-- A body that is terminated ends in front of its `;`. -/
theorem getElem?_bodyReach {left braces : Nat} {state : BodyState} {s : List Char}
    (h : (bodyReach left braces state s).reason = .terminator) :
    s[(bodyReach left braces state s).length]? = some ';' := by
  fun_induction bodyReach left braces state s with
  | case1 => simp at h
  | case2 => simp at h
  | case3 => simp at h
  | case4 left braces state cs hleft hopen ih => exact ih h
  | case5 left braces state c cs hc hsemi => simp_all
  | case6 left braces state c cs hc hsemi state' braces' hnext ih => exact ih h

theorem lineFeeds_le_of_isPrefix {s t : List Char} (h : s <+: t) : lineFeeds s ≤ lineFeeds t :=
  h.sublist.count_le _

/-! ## Lines of one rule -/

theorem line_le_bodyLine (c : Cursor) (raw : List Char) : c.line ≤ bodyLine c raw := by
  unfold bodyLine
  split <;> omega

theorem bodyLine_le_endLine (c : Cursor) (raw : List Char) (terminated : Bool) :
    bodyLine c raw ≤ endLine c raw terminated := by
  have hlead : lineFeeds (raw.takeWhile isWhiteSpace) ≤ lineFeeds raw :=
    lineFeeds_le_of_isPrefix (List.takeWhile_prefix isWhiteSpace)
  unfold endLine
  split
  · unfold bodyLine
    split <;> omega
  split
  · exact Nat.le_refl _
  · rename_i hblank
    have hlead' : lineFeeds (raw.takeWhile isWhiteSpace) ≤ lineFeeds (trimEnd raw) :=
      lineFeeds_le_of_isPrefix (isPrefix_takeWhile_trimEnd (by simpa using hblank))
    rw [bodyLine, if_neg hblank]
    omega

/-- A rule ends on one of the lines: on that of its `;`, of the last character of its body or of its
colon. -/
theorem endLine_le_lineCount {raw rest : List Char} {terminated : Bool}
    (hc : Onward (.start text) c) (hline : c.line ≤ lineCount text) (hraw : c.rest = raw ++ rest)
    (hend : terminated = true → rest.head? = some ';') :
    endLine c raw terminated ≤ lineCount text := by
  unfold endLine
  split
  · rename_i hterm
    obtain ⟨rest', hrest'⟩ : ∃ rest', rest = ';' :: rest' := by
      cases rest with
      | nil => simp [hterm] at hend
      | cons x rest' => exact ⟨rest', by simpa using hend hterm⟩
    have hsemi : (c.advance raw.length).rest = ';' :: rest' := by simp [hraw, hrest']
    simpa [hraw] using line_le_lineCount (hc.trans (.advance _ c)) hsemi
  split
  · rename_i hblank
    simpa [bodyLine, hblank] using hline
  · rename_i hblank
    have hne : trimStart raw ≠ [] := by simpa using hblank
    obtain ⟨init, x, htrim, hx⟩ := exists_trimEnd_eq hne
    obtain ⟨tail, htail⟩ := isPrefix_trimEnd raw
    have hrest : c.rest = init ++ x :: (tail ++ rest) := by
      rw [hraw, ← htail, htrim]; simp
    have hlast : (c.advance init.length).rest = x :: (tail ++ rest) := by simp [hrest]
    have hfeeds : lineFeeds (trimEnd raw) = lineFeeds init := by
      rw [htrim, lineFeeds_append]
      simp [lineFeeds, ne_lineFeed_of_not_isWhiteSpace hx]
    simpa [hrest, hfeeds] using line_le_lineCount (hc.trans (.advance _ c)) hlast

/-- The lines of a rule follow each other and are lines of a text with `count` of them. -/
structure LinesInOrder (count : Nat) (r : Rule) : Prop where
  one_le : 1 ≤ r.lineNumber
  name_le_body : r.lineNumber ≤ r.bodyLine
  body_le_end : r.bodyLine ≤ r.endLine
  end_le : r.endLine ≤ count

/-! ## Lines of all rules -/

namespace Machine

/-- No rule that is read from here on has its name on an earlier line. -/
def nameLine (m : Machine) : Nat :=
  match m.state with
  | .outside => m.cursor.line
  | .header h => h.line
  | .body h => h.line

/-- Where a machine stands in a text, and where the rules do that it has read. -/
structure Located (text : List Char) (m : Machine) : Prop where
  place : Onward (.start text) m.cursor
  one_le : 1 ≤ m.nameLine
  nameLine_le : m.nameLine ≤ m.cursor.line
  /-- The colon in front of a body is on one of the lines. -/
  colon : ∀ h, m.state = .body h → m.cursor.line ≤ lineCount text
  sorted : m.draft.grammar.rules.Pairwise fun r s => r.lineNumber ≤ s.lineNumber
  behind : ∀ r ∈ m.draft.grammar.rules, r.lineNumber ≤ m.nameLine
  ordered : ∀ r ∈ m.draft.grammar.rules, LinesInOrder (lineCount text) r

/-- Rules that stay as they are stay in order when the machine moves on. -/
theorem Located.of_rules_eq {m m' : Machine} (h : Located text m)
    (hrules : m'.draft.grammar.rules = m.draft.grammar.rules) (hc : Onward m.cursor m'.cursor)
    (hge : m.nameLine ≤ m'.nameLine) (hle : m'.nameLine ≤ m'.cursor.line)
    (hcolon : ∀ h, m'.state = .body h → m'.cursor.line ≤ lineCount text) : Located text m' where
  place := h.place.trans hc
  one_le := Nat.le_trans h.one_le hge
  nameLine_le := hle
  colon := hcolon
  sorted := hrules ▸ h.sorted
  behind := fun r hr => Nat.le_trans (h.behind r (hrules ▸ hr)) hge
  ordered := fun r hr => h.ordered r (hrules ▸ hr)

/-- A rule that is added stays in order when its name is on the line of the machine. -/
theorem Located.of_rules_append {m m' : Machine} {r : Rule} (h : Located text m)
    (hrules : m'.draft.grammar.rules = m.draft.grammar.rules ++ [r])
    (hr : LinesInOrder (lineCount text) r) (hname : r.lineNumber = m.nameLine)
    (hc : Onward m.cursor m'.cursor) (hge : m.nameLine ≤ m'.nameLine)
    (hle : m'.nameLine ≤ m'.cursor.line)
    (hcolon : ∀ h, m'.state = .body h → m'.cursor.line ≤ lineCount text) : Located text m' where
  place := h.place.trans hc
  one_le := Nat.le_trans h.one_le hge
  nameLine_le := hle
  colon := hcolon
  sorted := by
    rw [hrules, List.pairwise_append]
    refine ⟨h.sorted, List.pairwise_singleton _ _, fun s hs t ht => ?_⟩
    obtain rfl := List.mem_singleton.1 ht
    exact hname ▸ h.behind s hs
  behind := by
    rw [hrules, List.forall_mem_append]
    exact ⟨fun s hs => Nat.le_trans (h.behind s hs) hge, by simpa [hname] using hge⟩
  ordered := by
    rw [hrules, List.forall_mem_append]
    exact ⟨h.ordered, by simpa using hr⟩

/-- A rule that is closed comes behind all others, or it is not kept. -/
theorem rules_finishRule (h : Header) (c : Cursor) (raw : List Char) (terminated : Bool)
    (d : Draft) :
    (d.finishRule h c raw terminated).grammar.rules = d.grammar.rules ∨
      ∃ d' : Draft, (d.finishRule h c raw terminated).grammar.rules =
        d.grammar.rules ++ [d'.ruleOf h c raw terminated] := by
  obtain ⟨d', hd', hcases⟩ := finishRule_cases h c raw terminated d
  have hrules : d'.grammar.rules = d.grammar.rules := hd' ▸ (alike_terminated terminated h d).rules
  obtain ⟨first, _, hclosed⟩ | ⟨_, hclosed⟩ := hcases
  · exact .inl (hclosed ▸ hrules)
  · exact .inr ⟨d', by rw [hclosed, ← hrules]; rfl⟩

/-- A body that is closed at `c` leaves its rule in order with those before it. -/
theorem located_finishRule {h : Header} {d : Draft} {raw rest : List Char} {terminated : Bool}
    (hm : Located text ⟨.body h, d, c⟩) (hraw : c.rest = raw ++ rest)
    (hend : terminated = true → rest.head? = some ';') (hc : Onward c c') :
    Located text ⟨.outside, d.finishRule h c raw terminated, c'⟩ := by
  have hone : 1 ≤ h.line := hm.one_le
  have hle : h.line ≤ c.line := hm.nameLine_le
  have hline : c.line ≤ lineCount text := hm.colon h rfl
  have hle' : h.line ≤ c'.line := Nat.le_trans hle hc.line_le
  rcases rules_finishRule h c raw terminated d with hrules | ⟨d', hrules⟩
  · exact hm.of_rules_eq hrules hc hle' (Nat.le_refl _) (by simp)
  · have hnew : LinesInOrder (lineCount text) (d'.ruleOf h c raw terminated) :=
      ⟨hone, Nat.le_trans hle (line_le_bodyLine c raw), bodyLine_le_endLine c raw terminated,
        endLine_le_lineCount hm.place hline hraw hend⟩
    exact hm.of_rules_append hrules hnew rfl hc hle' (Nat.le_refl _) (by simp)

theorem located_stepBody {h : Header} {d : Draft} (hm : Located text ⟨.body h, d, c⟩) :
    Located text (stepBody limits h d c) := by
  unfold stepBody
  simp only
  refine located_finishRule hm (List.take_append_drop _ c.rest).symm (fun hterm => ?_)
    (.advance _ c)
  rw [List.head?_drop]
  exact getElem?_bodyReach (by simpa using hterm)

theorem located_step (m m' : Machine) (hs : Step limits m m') (hm : Located text m) :
    Located text m' := by
  cases hs with
  | reads hr =>
    exact hm.of_rules_eq hr.alike.rules hr.onward hr.onward.line_le (Nat.le_refl _) (by simp)
  | mode name line hc =>
    exact hm.of_rules_eq rfl hc hc.line_le (Nat.le_refl _) (by simp)
  | opens ho => exact hm.of_rules_eq rfl ho.onward ho.line_ge ho.line_le (by simp)
  | header afterThrows hc =>
    exact hm.of_rules_eq rfl hc (Nat.le_refl _) (Nat.le_trans hm.nameLine_le hc.line_le) (by simp)
  | abandons hr =>
    have hle := Nat.le_trans hm.nameLine_le hr.onward.line_le
    exact hm.of_rules_eq hr.alike.rules hr.onward hle (Nat.le_refl _) (by simp)
  | colon rest hrest =>
    refine hm.of_rules_eq rfl (.advance 1 _) (Nat.le_refl _)
      (Nat.le_trans hm.nameLine_le (Nat.le_add_right _ _)) fun _ _ => ?_
    -- the colon ends no line
    have hcolon := line_le_lineCount hm.place hrest
    simpa [hrest, lineFeeds] using hcolon
  | body => exact located_stepBody hm

theorem located_start (text : List Char) : Located text { cursor := .start text } where
  place := .refl _
  one_le := Nat.le_refl _
  nameLine_le := Nat.le_refl _
  colon := by simp
  sorted := List.Pairwise.nil
  behind := by simp
  ordered := by simp

theorem located_scanned (limits : ScanLimits) (source : List Char) :
    Located (strip source) (scanned limits source) :=
  invariant_run located_step (located_start _)

/-- Closing a rule at the end is a step that reads nothing. -/
theorem located_close {m : Machine} (hm : Located text m) :
    Located text ⟨.outside, m.close, m.cursor⟩ := by
  obtain ⟨state, d, c⟩ := m
  have hle := hm.nameLine_le
  cases state with
  | outside => exact hm
  | header h => exact hm.of_rules_eq rfl (.refl c) hle (Nat.le_refl _) (by simp)
  | body h => exact located_finishRule hm rfl (by simp) (.refl c)

end Machine

end GrammarLab.Source
