import GrammarLab.Proofs.Body.Coverage
import GrammarLab.Proofs.Text.Offsets

/-!
# Tokens and references in their places

Each token of a body is found at its offset, in front of those behind it. The references of a body
are some of the names among its tokens.

    t ∈ significant body →
      ∃ before after, body = before ++ t.text ++ after ∧ byteLength before = t.offset
-/

namespace GrammarLab.Body

open Text

variable {ls : List Lexeme} {n : Nat} {body : List Char} {t : Token}

/-! ## Places of tokens -/

theorem exists_split_of_mem_locate (h : t ∈ locate n ls) :
    ∃ before after, textOf ls = before ++ t.text ++ after ∧ t.offset = n + byteLength before := by
  induction ls generalizing n with
  | nil => simp [locate] at h
  | cons l ls ih =>
    rw [locate] at h
    rcases List.mem_cons.1 h with rfl | h
    · exact ⟨[], textOf ls, by rw [textOf_cons]; rfl, rfl⟩
    · obtain ⟨before, after, htext, hoffset⟩ := ih h
      refine ⟨l.text ++ before, after, ?_, ?_⟩
      · rw [textOf_cons, htext]
        simp only [List.append_assoc]
      · rw [hoffset, byteLength_append, Nat.add_assoc]

theorem pairwise_locate (h : ∀ l ∈ ls, l.text ≠ []) (n : Nat) :
    (locate n ls).Pairwise fun t u => t.offset < u.offset := by
  induction ls generalizing n with
  | nil => exact .nil
  | cons l ls ih =>
    rw [List.forall_mem_cons] at h
    rw [locate, List.pairwise_cons]
    refine ⟨fun u hu => ?_, ih h.2 _⟩
    obtain ⟨before, -, -, hoffset⟩ := exists_split_of_mem_locate hu
    have hpos := byteLength_pos h.1
    simp only [hoffset]
    omega

theorem regular_of_mem_lex (h : t ∈ lex body) : t.lexeme.Regular := by
  refine regular_lexemes body _ ?_
  rw [← map_lexeme_lex]
  exact List.mem_map_of_mem h

/-- A token that is neither blank space nor a comment begins with no blank. -/
theorem exists_head_of_mem_significant (h : t ∈ significant body) :
    ∃ c cs, t.text = c :: cs ∧ isBlank c = false := by
  obtain ⟨hlex, hkind⟩ := List.mem_filter.1 h
  obtain ⟨c, cs, htext, hblank, -⟩ := (regular_of_mem_lex hlex).head
  refine ⟨c, cs, htext, hblank fun hk => ?_⟩
  have hkind : t.kind.isTrivia = false := by simpa using hkind
  rw [show t.kind = .blank from hk] at hkind
  exact absurd hkind (by decide)

theorem pairwise_offset_significant (body : List Char) :
    (significant body).Pairwise fun t u => t.offset < u.offset := by
  refine List.Pairwise.filter _ (pairwise_locate (fun l hl => ?_) 0)
  obtain ⟨c, cs, htext, -⟩ := (regular_lexemes body l hl).head
  rw [htext]
  exact List.cons_ne_nil c cs

/-! ## References -/

/-- The token as a reference. -/
def Token.reference (t : Token) : Reference := ⟨t.name, t.offset⟩

/-- The references are some of the names among the tokens, in order. -/
def NamedBy (refs : List Reference) (ts : List Token) : Prop :=
  ∃ us, List.Sublist us ts ∧ (∀ t ∈ us, t.kind = .ident) ∧ refs = us.map Token.reference

theorem NamedBy.skip {refs : List Reference} {ts rest : List Token} (h : NamedBy refs rest)
    (hrest : rest <:+ ts) (t : Token) : NamedBy refs (t :: ts) :=
  let ⟨us, hsub, hkinds, hrefs⟩ := h
  ⟨us, (hsub.trans hrest.sublist).cons t, hkinds, hrefs⟩

theorem NamedBy.cons {refs : List Reference} {ts : List Token} (h : NamedBy refs ts)
    (hident : t.kind = .ident) : NamedBy (t.reference :: refs) (t :: ts) := by
  obtain ⟨us, hsub, hkinds, rfl⟩ := h
  exact ⟨t :: us, hsub.cons_cons t, List.forall_mem_cons.2 ⟨hident, hkinds⟩, rfl⟩

end GrammarLab.Body
