import GrammarLab.Text.Hex
import GrammarLab.Regex.Property

/-!
# Escapes of the expression text

What a backslash in the text of an expression introduces: a character by its code point or by a
letter, a set of characters, or a character that would mean something else without it.

    escape? ['x', '\x7b', '4', '1', '\x7d'] = some (.char 'A', [])
-/

namespace GrammarLab.Regex

open Text

/-- What one unit of the text of an expression stands for. -/
inductive TextUnit
  | char (c : Char)
  | set (s : CharSet)
deriving DecidableEq, Repr

def TextUnit.toSet : TextUnit → CharSet
  | .char c => .single c
  | .set s => s

/-- The characters that operators are written with. -/
def isMeta (c : Char) : Bool :=
  c = '\\' || c = '.' || c = '+' || c = '*' || c = '?' || c = '(' || c = ')' || c = '|' ||
    c = '[' || c = ']' || c = '\x7b' || c = '\x7d' || c = '^' || c = '$' || c = '#' || c = '&' ||
    c = '-' || c = '~'

/-- The text in front of a closing brace, and the text behind it. -/
def braced? : List Char → Option (List Char × List Char)
  | [] => none
  | c :: cs =>
    if c = '\x7d' then some ([], cs)
    else (braced? cs).map fun (inner, rest) => (c :: inner, rest)

/-- A code point in braces, or of exactly `n` digits. -/
def codePoint? (n : Nat) : List Char → Option (TextUnit × List Char)
  | [] => none
  | c :: cs =>
    if c = '\x7b' then do
      let (digits, rest) ← braced? cs
      return (.char (← scalar? (← hexNumber? digits)), rest)
    else if n ≤ (c :: cs).length then do
      return (.char (← scalar? (← hexNumber? ((c :: cs).take n))), (c :: cs).drop n)
    else none

/-- A property in braces, or a category of one letter. -/
def propertyUnit? (negated : Bool) : List Char → Option (TextUnit × List Char)
  | [] => none
  | c :: cs =>
    let unit (s : CharSet) : TextUnit := .set (if negated then s.compl else s)
    if c = '\x7b' then do
      let (text, rest) ← braced? cs
      return (unit (← CharSet.property? text), rest)
    else if c = '\\' then none
    else do
      return (unit (← CharSet.named? [c]), cs)

/-- The control character that a letter names. -/
def control? (c : Char) : Option Char :=
  if c = 'a' then some '\x07'
  else if c = 'f' then some '\x0c'
  else if c = 'n' then some '\n'
  else if c = 'r' then some '\r'
  else if c = 't' then some '\t'
  else if c = 'v' then some '\x0b'
  else none

/-- The set that a letter names; the capital letter names all other characters. -/
def class? (c : Char) : Option CharSet :=
  if c = 'd' then some .digit
  else if c = 's' then some .space
  else if c = 'w' then some .word
  else if c = 'D' then some CharSet.digit.compl
  else if c = 'S' then some CharSet.space.compl
  else if c = 'W' then some CharSet.word.compl
  else none

/-- The characters that stand for themselves behind a backslash. -/
def isEscapable (c : Char) : Bool := c.toNat < 128 && !c.isAlphanum && c ≠ '<' && c ≠ '>'

/-- The unit behind a backslash, and the text behind it. -/
def escape? : List Char → Option (TextUnit × List Char)
  | [] => none
  | c :: cs =>
    if c = 'x' then codePoint? 2 cs
    else if c = 'u' then codePoint? 4 cs
    else if c = 'U' then codePoint? 8 cs
    else if c = 'p' then propertyUnit? false cs
    else if c = 'P' then propertyUnit? true cs
    else match class? c with
      | some s => some (.set s, cs)
      | none =>
        match control? c with
        | some d => some (.char d, cs)
        | none => if isEscapable c then some (.char c, cs) else none

/-- The unit that starts with `c`, and the text behind it. -/
def unit? (c : Char) (cs : List Char) : Option (TextUnit × List Char) :=
  if c = '\\' then escape? cs else some (.char c, cs)

/-! ## Lemmas -/

theorem length_le_of_braced? {s inner rest : List Char} (h : braced? s = some (inner, rest)) :
    rest.length ≤ s.length := by
  induction s generalizing inner rest with
  | nil => simp [braced?] at h
  | cons c cs ih =>
    simp only [braced?] at h
    split at h
    · simp only [Option.some.injEq, Prod.mk.injEq] at h
      simp [h.2]
    · obtain ⟨⟨i, r⟩, hb, he⟩ := Option.map_eq_some_iff.1 h
      simp only [Prod.mk.injEq] at he
      have := ih hb
      rw [← he.2]
      simp only [List.length_cons]; omega

theorem length_le_of_codePoint? {n : Nat} {s : List Char} {u : TextUnit} {rest : List Char}
    (h : codePoint? n s = some (u, rest)) : rest.length ≤ s.length := by
  cases s with
  | nil => simp [codePoint?] at h
  | cons c cs =>
    simp only [codePoint?] at h
    split at h
    · simp only [bind, Option.bind_eq_some_iff, pure, Option.some.injEq, Prod.mk.injEq] at h
      obtain ⟨⟨i, r⟩, hb, _, _, _, _, _, hr⟩ := h
      have := length_le_of_braced? hb
      simp only [← hr, List.length_cons]; omega
    · split at h
      · simp only [bind, Option.bind_eq_some_iff, pure, Option.some.injEq, Prod.mk.injEq] at h
        obtain ⟨_, _, _, _, _, hr⟩ := h
        simp [← hr]
      · simp at h

theorem length_le_of_propertyUnit? {negated : Bool} {s : List Char} {u : TextUnit}
    {rest : List Char} (h : propertyUnit? negated s = some (u, rest)) : rest.length ≤ s.length := by
  cases s with
  | nil => simp [propertyUnit?] at h
  | cons c cs =>
    simp only [propertyUnit?] at h
    split at h
    · simp only [bind, Option.bind_eq_some_iff, pure, Option.some.injEq, Prod.mk.injEq] at h
      obtain ⟨⟨i, r⟩, hb, _, _, _, hr⟩ := h
      have := length_le_of_braced? hb
      simp only [← hr, List.length_cons]; omega
    · split at h
      · simp at h
      · simp only [bind, Option.bind_eq_some_iff, pure, Option.some.injEq, Prod.mk.injEq] at h
        obtain ⟨_, _, _, hr⟩ := h
        simp [← hr]

theorem length_le_of_escape? {s : List Char} {u : TextUnit} {rest : List Char}
    (h : escape? s = some (u, rest)) : rest.length ≤ s.length := by
  cases s with
  | nil => simp [escape?] at h
  | cons c cs =>
    have behind : ∀ {o : Option (TextUnit × List Char)}, o = some (u, rest) →
        (∀ v r, o = some (v, r) → r.length ≤ cs.length) → rest.length ≤ (c :: cs).length := by
      intro o ho hle
      have := hle u rest ho
      simp only [List.length_cons]; omega
    simp only [escape?] at h
    split at h
    · exact behind h fun _ _ => length_le_of_codePoint?
    split at h
    · exact behind h fun _ _ => length_le_of_codePoint?
    split at h
    · exact behind h fun _ _ => length_le_of_codePoint?
    split at h
    · exact behind h fun _ _ => length_le_of_propertyUnit?
    split at h
    · exact behind h fun _ _ => length_le_of_propertyUnit?
    split at h
    · simp only [Option.some.injEq, Prod.mk.injEq] at h
      simp [← h.2]
    split at h
    · simp only [Option.some.injEq, Prod.mk.injEq] at h
      simp [← h.2]
    split at h
    · simp only [Option.some.injEq, Prod.mk.injEq] at h
      simp [← h.2]
    · simp at h

theorem length_le_of_unit? {c : Char} {cs : List Char} {u : TextUnit} {rest : List Char}
    (h : unit? c cs = some (u, rest)) : rest.length ≤ cs.length := by
  simp only [unit?] at h
  split at h
  · exact length_le_of_escape? h
  · simp only [Option.some.injEq, Prod.mk.injEq] at h
    simp [← h.2]

end GrammarLab.Regex
