import GrammarLab.Proofs.Pattern.Literal
import GrammarLab.Proofs.Pattern.Singles

/-!
# Quoted texts

A text is quoted by a backslash in front of each of its backslashes and quotes. What is quoted is
read back by everything that reads literals: it is one token, one literal of a structure, and a
pattern that matches the text.

    Literal.unescape (quoted v) = v                                          (unescape_quoted)
-/

namespace GrammarLab.Pattern

open Body Regex Text

/-- A character between single quotes. -/
def quotedChar (c : Char) : List Char := if c = '\\' ∨ c = '\'' then ['\\', c] else [c]

/-- The text between single quotes. -/
def quoted (v : List Char) : List Char := '\'' :: (v.flatMap quotedChar ++ ['\''])

/-! ## Tokens -/

theorem quotable_quotedChar (c : Char) : Quotable '\'' (quotedChar c) := by
  unfold quotedChar
  split
  · rename_i hc
    refine .escaped ?_ .nil
    rintro rfl
    simp at hc
  · rename_i hc
    rw [not_or] at hc
    exact .plain hc.1 hc.2 .nil

theorem isWhole_quoted (v : List Char) : Lexeme.IsWhole ⟨.literal, quoted v⟩ := by
  apply isWhole_literal
  induction v with
  | nil => exact .nil
  | cons c v ih =>
    rw [List.flatMap_cons]
    exact (quotable_quotedChar c).append ih

theorem lex_of_isWhole {q : List Char} (h : Lexeme.IsWhole ⟨.literal, q⟩) :
    lex q = [⟨.literal, q, 0⟩] := by
  obtain ⟨cs, hq, hreach⟩ := h
  obtain rfl : q = '\'' :: cs := hq
  have hleading : leading '\'' cs = (.literal, cs.length) := by
    simp [leading, delimited, hreach]
  rw [lex, lexemes_cons, hleading, List.take_length, List.drop_length, lexemes]
  rfl

/-! ## Values -/

theorem decode_plain {c : Char} (hc : c ≠ '\\') (rest : List Char) :
    Literal.decode (c :: rest) = c :: Literal.decode rest := by
  rw [Literal.decode]
  all_goals simp [hc]

theorem decode_quotedChar (c : Char) (rest : List Char) :
    Literal.decode (quotedChar c ++ rest) = c :: Literal.decode rest := by
  unfold quotedChar
  split
  · rename_i hc
    rcases hc with rfl | rfl
    · simp [Literal.decode, Literal.decodeEscape]
    · simp [Literal.decode, Literal.decodeEscape]
  · rename_i hc
    rw [not_or] at hc
    exact decode_plain hc.1 rest

theorem unquote_of_ends (s : List Char) : Literal.unquote ('\'' :: (s ++ ['\''])) = s := by
  simp [Literal.unquote]

theorem unescape_quoted (v : List Char) : Literal.unescape (quoted v) = v := by
  rw [Literal.unescape, quoted, unquote_of_ends]
  induction v with
  | nil => simp [Literal.decode]
  | cons c v ih => rw [List.flatMap_cons, decode_quotedChar, ih]

/-! ## Structures -/

theorem isLiteral_of_isWhole {q : List Char} (h : Lexeme.IsWhole ⟨.literal, q⟩) :
    IsLiteral (Structure.parse q) q := by
  have hsignificant : significant q = [⟨.literal, q, 0⟩] := by
    rw [significant, lex_of_isWhole h]
    rfl
  exact ⟨true, _, _, _, by rw [Structure.parse, hsignificant]; rfl⟩

/-! ## Patterns -/

/-- The text stands in another one at a byte offset. -/
def StandsAt (v s : List Char) (offset : Nat) : Prop :=
  ∃ before behind, s = before ++ (v ++ behind) ∧ byteLength before = offset

/-- The pattern takes the text wherever it stands and nothing else. -/
structure TakesExactly (p : Pattern) (v : List Char) : Prop where
  at_iff : ∀ s offset, p.matchAt s offset = some (byteLength v) ↔ StandsAt v s offset
  none_iff : ∀ s offset, p.matchAt s offset = none ↔ ¬StandsAt v s offset
  whole_iff : ∀ s, p.matchesWhole s = true ↔ s = v

theorem MatchesOnly.takesExactly {p : Pattern} {v : List Char} (h : p.MatchesOnly v) (hv : v ≠ []) :
    p.TakesExactly v := by
  constructor
  · intro s offset
    constructor
    · intro hm
      obtain ⟨-, -, hstands⟩ := h.exists_of_matchAt hm
      exact hstands
    · rintro ⟨before, behind, rfl, rfl⟩
      obtain ⟨n, -, hn⟩ := (h.takes hv).exists_matchAt before behind
      obtain ⟨-, rfl, -⟩ := h.exists_of_matchAt hn
      exact hn
  · intro s offset
    constructor
    · rintro hnone ⟨before, behind, rfl, rfl⟩
      obtain ⟨n, -, hn⟩ := (h.takes hv).exists_matchAt before behind
      rw [hnone] at hn
      simp at hn
    · intro hno
      cases hm : p.matchAt s offset with
      | none => rfl
      | some n =>
        obtain ⟨-, -, hstands⟩ := h.exists_of_matchAt hm
        exact absurd hstands hno
  · intro s
    rw [matchesWhole_iff, h.exact]
    constructor
    · rintro ⟨-, hs, -⟩
      exact hs
    · rintro rfl
      exact ⟨hv, rfl, .inl h.greedy⟩

theorem symbols?_grouped_literalText (v : List Char) :
    symbols? (grouped (literalText v)) =
      some (.groupOpen :: ((v.map CharSet.single).map (Symbol.atom · 0) ++ [.groupClose])) := by
  have hopen : symbol? '(' ('?' :: ':' :: (literalText v ++ [')'])) =
    some (.groupOpen, literalText v ++ [')']) := rfl
  have hclose : symbols? [')'] = some [.groupClose] := by
    rw [@symbols?_cons ')' [] [] .groupClose rfl, symbols?]
    rfl
  show symbols? ('(' :: '?' :: ':' :: (literalText v ++ [')'])) = _
  rw [symbols?_cons hopen, symbols?_literalText_append, hclose, List.map_map]
  rfl

/-- A literal is compiled to a pattern of what it stands for. -/
theorem exists_compile_literal {q : List Char} (h : Lexeme.IsWhole ⟨.literal, q⟩) :
    ∃ p, Pattern.compile q = .ok p ∧ p.MatchesOnly (Literal.unescape q) := by
  have hlead : leadingPiece ⟨.literal, q, 0⟩ [] =
    .ok (.text (grouped (literalText (Literal.unescape q))), []) := rfl
  have hpieces : pieces (significant q) = [.text (grouped (literalText (Literal.unescape q)))] := by
    rw [significant, lex_of_isWhole h]
    show pieces [_] = _
    rw [pieces_of_leadingPiece hlead, pieces]
  obtain ⟨r, hr⟩ :=
    exists_parse?_of_groupedAtoms (symbols?_grouped_literalText (Literal.unescape q))
  have hspells := (spells_item (spells_literal (Literal.unescape q))).mono
    fun _ hy => isBranches_singleton (isSequence_singleton hy)
  rw [compile_of_pieces hpieces, ofSpelling, hr]
  exact ⟨_, rfl, rfl, matches_iff_of_spells hspells hr⟩

/-- A range of literals matches the characters between the two they stand for. -/
theorem exists_compile_range {first last : List Char} {lo hi : Char}
    (hfirst : Lexeme.IsWhole ⟨.literal, first⟩) (hlast : Lexeme.IsWhole ⟨.literal, last⟩)
    (hlo : Literal.unescape first = [lo]) (hhi : Literal.unescape last = [hi]) (hle : lo ≤ hi) :
    ∃ p, Pattern.compile (first ++ '.' :: '.' :: last) = .ok p ∧
      p.MatchesOneOf fun c => lo ≤ c ∧ c ≤ hi := by
  have hmember : MemberText (.range first last) (charText lo ++ '-' :: charText hi) :=
    .range hlo hhi
  have hlegible : (Content.range first last).IsLegible := ⟨hfirst, hlast⟩
  obtain ⟨sets, hopen, hsets⟩ := exists_opening_range hle
  obtain ⟨p, hp, hmatches⟩ := exists_compile_of_opening?
    (pieces_member hmember rfl hlegible (by simp)) (classInside_range lo hi) (by simp) hopen
  exact ⟨p, hp, hmatches.congr hsets⟩

/-- **Quoting.** A quoted text is one token, stands for the text, is the only literal of its
structure and is compiled, like the text itself, to a pattern that takes the text and nothing else;
a range of two quoted characters matches the characters from one to the other. -/
theorem quoted_reads_back (v : List Char) (hv : v ≠ []) (lo hi : Char) (hle : lo ≤ hi) :
    lex (quoted v) = [⟨.literal, quoted v, 0⟩] ∧
    Literal.unescape (quoted v) = v ∧
    (Structure.parse (quoted v)).soleLiteral? = some v ∧
    (∃ p, Pattern.compile (quoted v) = .ok p ∧ p.TakesExactly v) ∧
    (∃ p, Pattern.literal v = .ok p ∧ p.TakesExactly v) ∧
    ∃ p, Pattern.compile (quoted [lo] ++ '.' :: '.' :: quoted [hi]) = .ok p ∧
      p.MatchesOneOf fun c => lo ≤ c ∧ c ≤ hi := by
  have hwhole := isWhole_quoted v
  have hvalue := unescape_quoted v
  refine ⟨lex_of_isWhole hwhole, hvalue, ?_, ?_, ?_, ?_⟩
  · rw [soleLiteral?_of_isLiteral (isLiteral_of_isWhole hwhole), hvalue, if_neg (by simpa using hv)]
  · obtain ⟨p, hp, hmatches⟩ := exists_compile_literal hwhole
    rw [hvalue] at hmatches
    exact ⟨p, hp, hmatches.takesExactly hv⟩
  · obtain ⟨p, hp⟩ := exists_literal v
    exact ⟨p, hp, (matchesOnly_literal hp).takesExactly hv⟩
  · exact exists_compile_range (isWhole_quoted [lo]) (isWhole_quoted [hi]) (unescape_quoted [lo])
      (unescape_quoted [hi]) hle

/-- Marks that something else than their own text stands for where they are not quoted. -/
theorem quoted_marks_read_back :
    lex ['\'', '\\', '\'', '\\', '\\', '[', '\n', '\''] =
      [⟨.literal, ['\'', '\\', '\'', '\\', '\\', '[', '\n', '\''], 0⟩] ∧
    ∃ p, Pattern.compile (quoted ['\''] ++ '.' :: '.' :: quoted ['\\']) = .ok p ∧
      p.MatchesOneOf fun c => '\'' ≤ c ∧ c ≤ '\\' :=
  have h := quoted_reads_back ['\'', '\\', '[', '\n'] (by decide) '\'' '\\' (by decide)
  ⟨h.1, h.2.2.2.2.2⟩

end GrammarLab.Pattern
