import GrammarLab.Source.Machine

/-!
# Progress

Each step either consumes something or leaves a header for the outside, so the potential

    2 * (characters left) + (1 inside a rule, 0 outside)

falls with every step.

    m.cursor.rest ≠ [] → potential (step limits first m) < potential m        (potential_step)
-/

namespace GrammarLab.Source

namespace Machine

/-- What every step lowers. -/
def potential (m : Machine) : Nat :=
  2 * m.cursor.rest.length + (if m.state = .outside then 0 else 1)

theorem rest_ne_nil_of_hasKeyword {c : Cursor} {keyword : String} (hk : keyword.toList ≠ [])
    (h : c.hasKeyword keyword = true) : c.rest ≠ [] := by
  intro hr
  simp only [Cursor.hasKeyword, Cursor.word, hr, List.takeWhile_nil, beq_iff_eq] at h
  exact hk h.symm

theorem length_unrecognized_lt (d : Draft) {c : Cursor} (hc : c.rest ≠ []) :
    (d.unrecognized c).2.rest.length < c.rest.length :=
  Cursor.length_advance_lt (Nat.lt_of_lt_of_le Nat.zero_lt_one (Nat.le_max_right _ _)) hc

theorem length_finish (c : Cursor) : c.finish.rest.length = 0 := by simp [Cursor.finish]

theorem length_unterminated_lt (d : Draft) {c : Cursor} (hc : c.rest ≠ []) :
    (d.unterminated c).2.rest.length < c.rest.length := by
  have := List.length_pos_iff.2 hc
  have := length_finish c
  simp only [Draft.unterminated]; omega

theorem length_passStatement_le (c : Cursor) : c.passStatement.rest.length ≤ c.rest.length :=
  Cursor.length_advance_le _ c

theorem length_passBlank_le (c : Cursor) : c.passBlank.rest.length ≤ c.rest.length :=
  Cursor.length_pass_le _ c

theorem length_grammarKindAt_le (c : Cursor) :
    (Draft.grammarKindAt c).2.rest.length ≤ c.rest.length := by
  unfold Draft.grammarKindAt
  split
  · exact Nat.le_trans (length_passBlank_le _) (Cursor.length_advance_le _ c)
  split
  · exact Nat.le_trans (length_passBlank_le _) (Cursor.length_advance_le _ c)
  · exact Nat.le_refl _

theorem length_grammarDeclaration_lt (d : Draft) {c : Cursor} (hc : c.rest ≠ []) :
    (d.grammarDeclaration c).2.rest.length < c.rest.length := by
  unfold Draft.grammarDeclaration
  have h₁ := length_grammarKindAt_le c
  rcases hk : Draft.grammarKindAt c with ⟨kind, c₁⟩
  simp only [hk] at h₁ ⊢
  split
  · rename_i hg
    have h₂ := Cursor.length_advance_lt (n := 7) (by decide)
      (rest_ne_nil_of_hasKeyword (by decide) hg)
    have h₃ := length_passBlank_le (c₁.advance 7)
    have h₄ := length_passStatement_le (c₁.advance 7).passBlank
    simp only at h₂ h₃ h₄ ⊢; omega
  · exact length_unrecognized_lt d hc

theorem length_importDeclaration_lt (d : Draft) {c : Cursor} (hc : c.rest ≠ []) :
    (d.importDeclaration c).2.rest.length < c.rest.length :=
  Nat.lt_of_le_of_lt (length_passStatement_le _) (Cursor.length_advance_lt (by decide) hc)

theorem length_blockDeclaration_lt (block : Draft.Block) (d : Draft) {c : Cursor}
    (hc : c.rest ≠ []) : (d.blockDeclaration block c).2.rest.length < c.rest.length := by
  unfold Draft.blockDeclaration
  have h₁ := Nat.le_trans (length_passBlank_le (c.advance block.keyword.length))
    (Cursor.length_advance_le _ c)
  dsimp only
  split
  · split
    · rename_i hb
      exact Nat.lt_of_lt_of_le (Cursor.length_block?_lt hb) h₁
    · have := List.length_pos_iff.2 hc
      have := length_finish c
      simp only; omega
  · exact length_unrecognized_lt d hc

theorem length_modeDeclaration_lt (d : Draft) {c : Cursor} (hc : c.rest ≠ []) :
    (d.modeDeclaration c).2.rest.length < c.rest.length := by
  unfold Draft.modeDeclaration
  dsimp only
  split
  · exact length_unrecognized_lt d hc
  · exact Nat.lt_of_le_of_lt
      (Nat.le_trans (length_passStatement_le _) (length_passBlank_le _))
      (Cursor.length_advance_lt (by decide) hc)

theorem length_passBlock?_le {opening closing : Char} {c c' : Cursor}
    (h : Draft.passBlock? opening closing c = some c') : c'.rest.length ≤ c.rest.length := by
  unfold Draft.passBlock? at h
  simp only at h
  split at h
  · simp only [Option.map_eq_some_iff, Prod.exists] at h
    obtain ⟨inside, c₂, hb, rfl⟩ := h
    exact Nat.le_of_lt (Nat.lt_of_lt_of_le (Cursor.length_block?_lt hb) (length_passBlank_le c))
  · simp only [Option.some.injEq] at h
    exact Nat.le_of_eq (by rw [h])

theorem length_handler_lt (d : Draft) {c : Cursor} (hc : c.rest ≠ []) (hw : c.word ≠ []) :
    (d.handler c).2.rest.length < c.rest.length := by
  unfold Draft.handler
  split
  · rename_i c' h
    simp only [Option.bind_eq_some_iff] at h
    obtain ⟨c₁, h₁, h₂⟩ := h
    have hp : c.passWord.rest.length < c.rest.length :=
      Cursor.length_advance_lt (List.length_pos_iff.2 hw) hc
    exact Nat.lt_of_le_of_lt
      (Nat.le_trans (length_passBlock?_le h₂) (length_passBlock?_le h₁)) hp
  · exact length_unterminated_lt d hc

theorem length_namedAction_lt (d : Draft) {c : Cursor} (hc : c.rest ≠ []) :
    (d.namedAction c).2.rest.length < c.rest.length := by
  unfold Draft.namedAction
  dsimp only
  split
  · split
    · rename_i hb
      exact Nat.lt_of_lt_of_le (Cursor.length_block?_lt hb)
        (Nat.le_trans (length_passBlank_le _)
          (Nat.le_trans (Cursor.length_pass_le _ _) (Cursor.length_advance_le _ c)))
    · exact length_unterminated_lt d hc
  · exact length_unrecognized_lt d hc

theorem length_declaration?_lt {d d' : Draft} {c c' : Cursor} (hc : c.rest ≠ [])
    (h : declaration? d c = some (d', c')) : c'.rest.length < c.rest.length := by
  have key : ∀ p : Draft × Cursor, p.2.rest.length < c.rest.length → some p = some (d', c') →
      c'.rest.length < c.rest.length := by
    intro p hp heq
    simp only [Option.some.injEq] at heq
    rwa [heq] at hp
  unfold declaration? at h
  split at h
  · exact key _ (length_grammarDeclaration_lt d hc) h
  split at h
  · exact key _ (length_importDeclaration_lt d hc) h
  split at h
  · exact key _ (length_blockDeclaration_lt _ d hc) h
  split at h
  · exact key _ (length_blockDeclaration_lt _ d hc) h
  split at h
  · exact key _ (length_blockDeclaration_lt _ d hc) h
  split at h
  · exact key _ (length_modeDeclaration_lt d hc) h
  split at h
  · rename_i hw
    refine key _ (length_handler_lt d hc ?_) h
    intro hn
    simp [Cursor.hasKeyword, hn] at hw
  split at h
  · exact key _ (length_namedAction_lt d hc) h
  · simp at h

theorem length_passModifiers_le (isFragment : Bool) (c : Cursor) :
    (passModifiers isFragment c).2.rest.length ≤ c.rest.length := by
  fun_induction passModifiers isFragment c with
  | case1 => exact Nat.le_refl _
  | case2 _ c f n h ih =>
    exact Nat.le_trans ih (Nat.le_trans (length_passBlank_le _) (Cursor.length_advance_le _ c))

theorem length_header?_lt {c c' : Cursor} {h : Header} (hh : header? c = some (h, c')) :
    c'.rest.length < c.rest.length := by
  unfold header? at hh
  have h₁ := length_passModifiers_le false c
  rcases hm : passModifiers false c with ⟨f, c₁⟩
  simp only [hm] at h₁ hh
  split at hh
  · rename_i hi
    simp only [Option.some.injEq, Prod.mk.injEq] at hh
    obtain ⟨-, rfl⟩ := hh
    have hw : c₁.word ≠ [] := by
      intro hn
      simp [isIdentifier, hn] at hi
    have hr : c₁.rest ≠ [] := by
      intro hn
      simp [Cursor.word, hn] at hw
    exact Nat.lt_of_lt_of_le
      (Cursor.length_advance_lt (List.length_pos_iff.2 hw) hr) h₁
  · simp at hh

theorem potential_outside (d : Draft) (c : Cursor) :
    potential ⟨.outside, d, c⟩ = 2 * c.rest.length := by simp [potential]

theorem potential_le (m : Machine) : potential m ≤ 2 * m.cursor.rest.length + 1 := by
  unfold potential; split <;> omega

theorem potential_stepOutside (first : Char) (d : Draft) {c : Cursor} (hc : c.rest ≠ []) :
    potential (stepOutside first d c) < 2 * c.rest.length := by
  have hstep : ∀ m : Machine, m.cursor.rest.length < c.rest.length →
      potential m < 2 * c.rest.length := by
    intro m hm
    have := potential_le m
    omega
  unfold stepOutside
  split
  · exact hstep _ (Cursor.length_advance_lt (by decide) hc)
  split
  · rename_i hd
    exact hstep _ (length_declaration?_lt hc hd)
  split
  · rename_i hh
    exact hstep _ (length_header?_lt hh)
  · exact hstep _ (length_unrecognized_lt d hc)

theorem potential_abandonHeader (h : Header) (first : Char) (d : Draft) (c : Cursor) :
    potential (abandonHeader h first d c) < 2 * c.rest.length + 1 := by
  unfold abandonHeader
  have h₁ := Cursor.length_advance_le c.restOfLine.length c
  have h₂ := Cursor.length_advance_le 1 c
  split
  · simp only [Cursor.passLine, potential_outside]; omega
  split
  · simp only [potential_outside]; omega
  · simp only [potential_outside]; omega

theorem potential_headerBlock (h : Header) (opening closing : Char) (d : Draft) (c : Cursor) :
    potential (headerBlock h opening closing d c) < 2 * c.rest.length + 1 := by
  unfold headerBlock
  split
  · rename_i c' hb
    have := Cursor.length_block?_lt hb
    have := potential_le ⟨.header h, d, c'⟩
    simp only at this ⊢; omega
  · have := length_finish c
    simp only [Draft.unterminated, potential_outside]; omega

theorem potential_headerWord (h : Header) (first : Char) (d : Draft) (c : Cursor)
    (hc : c.rest ≠ []) : potential (headerWord h first d c) < 2 * c.rest.length + 1 := by
  have hstep : ∀ h', c.word ≠ [] →
      potential ⟨.header h', d, c.passWord⟩ < 2 * c.rest.length + 1 := by
    intro h' hw
    have h₁ : c.passWord.rest.length < c.rest.length :=
      Cursor.length_advance_lt (List.length_pos_iff.2 hw) hc
    have := potential_le ⟨.header h', d, c.passWord⟩
    simp only at this; omega
  unfold headerWord
  split
  · rename_i hk
    refine hstep _ fun hn => ?_
    simp [Cursor.hasKeyword, hn] at hk
  split
  · rename_i hk
    refine hstep _ fun hn => ?_
    simp [Cursor.hasKeyword, hn] at hk
  split
  · rename_i hk
    refine hstep _ fun hn => ?_
    simp [hn] at hk
  · exact potential_abandonHeader h first d c

theorem potential_stepHeader (limits : ScanLimits) (h : Header) (first : Char) (d : Draft)
    {c : Cursor} (hc : c.rest ≠ []) :
    potential (stepHeader limits h first d c) < 2 * c.rest.length + 1 := by
  have hone : ∀ s, potential ⟨s, d, c.advance 1⟩ < 2 * c.rest.length + 1 := by
    intro s
    have h₁ : (c.advance 1).rest.length < c.rest.length := Cursor.length_advance_lt (by decide) hc
    have := potential_le ⟨s, d, c.advance 1⟩
    simp only at this; omega
  unfold stepHeader
  split
  · split
    · have h₁ : (c.advance 1).rest.length < c.rest.length :=
        Cursor.length_advance_lt (by decide) hc
      simp only [potential_outside]; omega
    · exact hone _
  split
  · exact hone _
  split
  · exact potential_headerBlock h _ _ d c
  split
  · exact potential_headerBlock h _ _ d c
  split
  · have h₁ : (c.advance 1).rest.length < c.rest.length := Cursor.length_advance_lt (by decide) hc
    have h₂ : (c.advance 1).passWord.rest.length ≤ (c.advance 1).rest.length :=
      Cursor.length_advance_le _ _
    have := potential_le ⟨.header h, d, (c.advance 1).passWord⟩
    simp only at this; omega
  split
  · exact hone _
  · exact potential_headerWord h first d c hc

theorem potential_stepBody (limits : ScanLimits) (h : Header) (d : Draft) {c : Cursor}
    (hc : c.rest ≠ []) : potential (stepBody limits h d c) < 2 * c.rest.length + 1 := by
  have key : ∀ n, 2 * (c.advance (max n 1)).rest.length < 2 * c.rest.length + 1 := by
    intro n
    have := Cursor.length_advance_lt
      (Nat.lt_of_lt_of_le Nat.zero_lt_one (Nat.le_max_right n 1)) hc
    omega
  simp only [stepBody, potential_outside]
  exact key _

/-- Every step in front of a character lowers the potential. -/
theorem potential_step (limits : ScanLimits) (first : Char) (m : Machine)
    (hc : m.cursor.rest ≠ []) : potential (step limits first m) < potential m := by
  unfold step
  split
  · rename_i hs
    have hp : potential m = 2 * m.cursor.rest.length := by simp [potential, hs]
    exact hp ▸ potential_stepOutside first m.draft hc
  · rename_i h hs
    have hp : potential m = 2 * m.cursor.rest.length + 1 := by simp [potential, hs]
    exact hp ▸ potential_stepHeader limits h first m.draft hc
  · rename_i h hs
    have hp : potential m = 2 * m.cursor.rest.length + 1 := by simp [potential, hs]
    exact hp ▸ potential_stepBody limits h m.draft hc

end Machine

end GrammarLab.Source
