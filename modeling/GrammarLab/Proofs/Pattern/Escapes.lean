import GrammarLab.Proofs.Pattern.Classes
import GrammarLab.Proofs.Pattern.Quoted

/-!
# Escapes of literals and of classes

An escape that stands for one character in a class stands for the same character in a literal,
unless it is a code point in braces. A literal knows no braces: it takes the four characters behind
`\u` for digits, and as they are none, it keeps all but the backslash as it is.

    Escapes e c → ¬IsBraced e → Literal.unescape ('\'' :: (e ++ ['\''])) = [c]
                                                                  (unescape_of_not_isBraced)
-/

namespace GrammarLab.Pattern

open Body Regex Text

/-- A code point in braces. -/
def IsBraced (e : List Char) : Prop := ∃ ds, e = '\\' :: 'u' :: '\x7b' :: ds

/-! ## Decoding -/

section

variable {e ds : List Char} {n : Nat} {c : Char}

theorem decode_of_plain {s : List Char} (h : ∀ c ∈ s, c ≠ '\\') : Literal.decode s = s := by
  induction s with
  | nil => rw [Literal.decode]
  | cons c s ih =>
    obtain ⟨hc, hs⟩ := List.forall_mem_cons.1 h
    rw [decode_plain hc, ih hs]

theorem not_isBraced_of_digits (h : hexNumber? ds = some n) : ¬IsBraced ('\\' :: 'u' :: ds) := by
  rintro ⟨ds', he⟩
  have hhead := head?_of_hexNumber? h []
  obtain ⟨-, he⟩ := List.cons.inj he
  obtain ⟨-, rfl⟩ := List.cons.inj he
  simp at hhead

theorem decode_digits (hlen : ds.length = 4) (hn : hexNumber? ds = some n)
    (hc : scalar? n = some c) : Literal.decode ('\\' :: 'u' :: ds) = [c] := by
  obtain ⟨w, x, y, z, rfl⟩ : ∃ w x y z, ds = [w, x, y, z] := by
    match ds, hlen with
    | [w, x, y, z], _ => exact ⟨w, x, y, z, rfl⟩
  have hplus : w ≠ '+' := by
    rintro rfl
    have := (digits_of_hexNumber? hn).2 '+' List.mem_cons_self
    simp [hexDigit?] at this
  have hpoint : Literal.codePoint? [w, x, y, z] = some c := by
    rw [Literal.codePoint?]
    · rw [hn]
      exact hc
    · rintro rest h
      exact hplus (List.cons.inj h).1
  simp [Literal.decode, Literal.decodePoint, hpoint]

/-- An opening brace is no digit. -/
theorem decodePoint_brace (s : List Char) :
    Literal.decodePoint ('\x7b' :: s) = 'u' :: '\x7b' :: s := by
  simp [Literal.decodePoint, Literal.codePoint?, hexNumber?, hexNumberFrom?, hexDigit?]

theorem decode_braced (h : ∀ c ∈ ds, c ≠ '\\') (hne : ds ≠ []) :
    Literal.decode ('\\' :: 'u' :: '\x7b' :: (ds ++ ['\x7d'])) =
      'u' :: '\x7b' :: (ds ++ ['\x7d']) := by
  have hend : ∀ s : List Char, (∀ c ∈ s, c ≠ '\\') →
      Literal.decode (s ++ ['\x7d']) = s ++ ['\x7d'] := by
    intro s hs
    refine decode_of_plain fun c hc => ?_
    rcases List.mem_append.1 hc with hc | hc
    · exact hs c hc
    · obtain rfl : c = '\x7d' := by simpa using hc
      decide
  match ds, hne with
  | [x], _ => simp [Literal.decode, decodePoint_brace]
  | [x, y], _ => simp [Literal.decode, decodePoint_brace]
  | x :: y :: z :: more, _ =>
    have hmore := hend more fun c hc => h c (by simp [hc])
    simp [Literal.decode, decodePoint_brace, hmore]

/-- Without braces a literal and a class decode an escape alike. -/
theorem unescape_of_not_isBraced (h : Escapes e c) (hb : ¬IsBraced e) :
    Literal.unescape ('\'' :: (e ++ ['\''])) = [c] := by
  rw [Literal.unescape, unquote_of_ends]
  cases h with
  | letter he =>
    simp only [escapeLetters, List.mem_cons, Prod.mk.injEq, List.not_mem_nil, or_false] at he
    rcases he with ⟨rfl, rfl⟩ | ⟨rfl, rfl⟩ | ⟨rfl, rfl⟩ | ⟨rfl, rfl⟩ | ⟨rfl, rfl⟩ | ⟨rfl, rfl⟩ |
      ⟨rfl, rfl⟩ | ⟨rfl, rfl⟩
    all_goals simp [Literal.decode, Literal.decodeEscape]
  | digits hlen hn hc => exact decode_digits hlen hn hc
  | braced _ _ => exact absurd ⟨_, rfl⟩ hb

/-- With braces a literal keeps the text of the escape but for the backslash. -/
theorem unescape_of_isBraced (h : Escapes e c) (hb : IsBraced e) :
    Literal.unescape ('\'' :: (e ++ ['\''])) = e.tail := by
  rw [Literal.unescape, unquote_of_ends]
  cases h with
  | letter _ =>
    obtain ⟨ds, he⟩ := hb
    simp at he
  | digits _ hn _ => exact absurd hb (not_isBraced_of_digits hn)
  | braced hn _ =>
    exact decode_braced (fun c hc => (plain_of_hexNumber? hn c hc).1) (digits_of_hexNumber? hn).1

theorem unescape_eq_iff (h : Escapes e c) :
    Literal.unescape ('\'' :: (e ++ ['\''])) = [c] ↔ ¬IsBraced e := by
  constructor
  · rintro hvalue hb
    rw [unescape_of_isBraced h hb] at hvalue
    obtain ⟨ds, rfl⟩ := hb
    simp at hvalue
  · exact unescape_of_not_isBraced h

end

/-! ## Patterns -/

/-- The class of one escape. -/
theorem exists_compile_escape {e : List Char} {c : Char} (h : Escapes e c) :
    ∃ q, Pattern.compile ('[' :: (e ++ [']'])) = .ok q ∧ q.MatchesOneOf (· = c) := by
  have hspans : spans [.escape e c h] = [(c, c)] := by simp [spans, ClassItem.char]
  obtain ⟨q, hq, hmatches⟩ := @exists_compile_class [.escape e c h]
    (by simp [hspans]) (List.isChain_singleton _)
  have htext : itemsText [.escape e c h] = e := by simp [itemsText, ClassItem.text]
  rw [htext] at hq
  refine ⟨q, hq, hmatches.congr fun d => ?_⟩
  rw [inSpans_single hspans]
  simp [InSpans, spans, ClassItem.char]

/-- **Escapes.** Both in a literal and in a class an escape of one character is compiled, and the
class matches the character. The literal stands for the character, and matches what the class
matches, if and only if the escape is not in braces. -/
theorem escape_decoders_agree_iff {e : List Char} {c : Char} (h : Escapes e c) :
    ∃ p q, Pattern.compile ('\'' :: (e ++ ['\''])) = .ok p ∧
      Pattern.compile ('[' :: (e ++ [']'])) = .ok q ∧ q.MatchesOneOf (· = c) ∧
      (Literal.unescape ('\'' :: (e ++ ['\''])) = [c] ↔ ¬IsBraced e) ∧
      ((∀ s, p.matchesWhole s = q.matchesWhole s) ↔ ¬IsBraced e) := by
  have hwhole := isWhole_literal (quotable_of_escapes (by decide) h)
  obtain ⟨p, hp, honly⟩ := exists_compile_literal hwhole
  obtain ⟨q, hq, hone⟩ := exists_compile_escape h
  have hvalue := unescape_eq_iff h
  refine ⟨p, q, hp, hq, hone, hvalue, ?_⟩
  have hmatches : p.matchesWhole [c] = true ↔ [c] = Literal.unescape ('\'' :: (e ++ ['\''])) := by
    rw [matchesWhole_iff, honly.exact]
    simp [honly.greedy]
  constructor
  · intro hagree
    rw [← hvalue]
    exact (hmatches.1 ((hagree [c]).trans ((hone.iff c).2 rfl))).symm
  · intro hb s
    have hexact := honly.exact
    rw [hvalue.2 hb] at hexact
    rw [Bool.eq_iff_iff, hone s, matchesWhole_iff, hexact]
    constructor
    · rintro ⟨-, rfl, -⟩
      exact ⟨c, rfl, rfl⟩
    · rintro ⟨d, rfl, rfl⟩
      exact ⟨by simp, rfl, .inl honly.greedy⟩

/-- The two ways to write the code point of `A`, of which a literal knows one. -/
theorem escape_decoders_agree_capitalA :
    (∃ p q, Pattern.compile ['\'', '\\', 'u', '0', '0', '4', '1', '\''] = .ok p ∧
      Pattern.compile ['[', '\\', 'u', '0', '0', '4', '1', ']'] = .ok q ∧
      ∀ s, p.matchesWhole s = q.matchesWhole s) ∧
    ∃ p q, Pattern.compile ['\'', '\\', 'u', '\x7b', '4', '1', '\x7d', '\''] = .ok p ∧
      Pattern.compile ['[', '\\', 'u', '\x7b', '4', '1', '\x7d', ']'] = .ok q ∧
      ¬∀ s, p.matchesWhole s = q.matchesWhole s := by
  have hdigits : Escapes ['\\', 'u', '0', '0', '4', '1'] 'A' := .digits (n := 0x41) rfl rfl rfl
  have hbraced : Escapes ['\\', 'u', '\x7b', '4', '1', '\x7d'] 'A' :=
    @Escapes.braced ['4', '1'] 0x41 'A' rfl rfl
  obtain ⟨p, q, hp, hq, -, -, hagree⟩ := escape_decoders_agree_iff hdigits
  obtain ⟨p', q', hp', hq', -, -, hdiffer⟩ := escape_decoders_agree_iff hbraced
  have hno : ¬IsBraced ['\\', 'u', '0', '0', '4', '1'] := by
    rintro ⟨ds, h⟩
    simp at h
  exact ⟨⟨p, q, hp, hq, hagree.2 hno⟩, p', q', hp', hq', fun h => hdiffer.1 h ⟨_, rfl⟩⟩

end GrammarLab.Pattern
