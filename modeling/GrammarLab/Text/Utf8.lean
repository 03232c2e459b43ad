/-!
# Byte offsets

Offsets into a text count the bytes of its encoding in UTF-8, while the text itself is a list of
characters. `dropBytes` goes from an offset to the rest of the text and is defined exactly at
character boundaries.

    dropBytes (byteLength s) (s ++ t) = some t
-/

namespace GrammarLab.Text

/-- The number of bytes of the text. -/
def byteLength : List Char → Nat
  | [] => 0
  | c :: cs => c.utf8Size + byteLength cs

/-- What follows the first `n` bytes, if a character ends there. -/
def dropBytes : Nat → List Char → Option (List Char)
  | 0, s => some s
  | _ + 1, [] => none
  | n + 1, c :: cs => if c.utf8Size ≤ n + 1 then dropBytes (n + 1 - c.utf8Size) cs else none
termination_by _ s => s.length

/-- The longest beginning of the text that fits into `n` bytes. -/
def takeBytes : Nat → List Char → List Char
  | _, [] => []
  | n, c :: cs => if c.utf8Size ≤ n then c :: takeBytes (n - c.utf8Size) cs else []

/-! ## Lemmas -/

@[simp] theorem byteLength_append (s t : List Char) :
    byteLength (s ++ t) = byteLength s + byteLength t := by
  induction s with
  | nil => simp [byteLength]
  | cons c cs ih => simp [byteLength, ih]; omega

theorem byteLength_pos {s : List Char} (h : s ≠ []) : 0 < byteLength s := by
  cases s with
  | nil => exact absurd rfl h
  | cons c cs => have := c.utf8Size_pos; simp only [byteLength]; omega

theorem dropBytes_byteLength (s t : List Char) : dropBytes (byteLength s) (s ++ t) = some t := by
  induction s with
  | nil => simp [byteLength, dropBytes]
  | cons c cs ih =>
    have hc := c.utf8Size_pos
    obtain ⟨n, hn⟩ : ∃ n, c.utf8Size + byteLength cs = n + 1 :=
      ⟨c.utf8Size + byteLength cs - 1, by omega⟩
    simp only [byteLength, List.cons_append]
    rw [hn, dropBytes, if_pos (by omega), show n + 1 - c.utf8Size = byteLength cs by omega, ih]

end GrammarLab.Text
