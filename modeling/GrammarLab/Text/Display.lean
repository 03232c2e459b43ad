import GrammarLab.Text.Classes
import GrammarLab.Text.Table.Display

/-!
# Text on a grid

How text looks where every character takes a number of columns. Controls are shown by their
pictures, a tab by four blanks, and what would turn the direction of the text by a replacement.

    displayed (s ++ t) = displayed s ++ displayed t
-/

namespace GrammarLab.Text

/-- Controls that turn the direction of the text that follows. -/
def turnsDirection (c : Char) : Bool := inRanges [(0x202A, 0x202E), (0x2066, 0x2069)] c

/-- What stands on the grid for a character. Line breaks are left to who shows the lines. -/
def shownAs (c : Char) : List Char :=
  if c = '\n' then [c]
  else if c = '\t' then [' ', ' ', ' ', ' ']
  else if c.toNat < 32 then [Char.ofNat (0x2400 + c.toNat)]
  else if c.toNat = 127 then [Char.ofNat 0x2421]
  else if c.toNat = 0x200D then []
  else if turnsDirection c then [Char.ofNat 0xFFFD]
  else [c]

def displayed (s : List Char) : List Char := s.flatMap shownAs

/-- The columns that a character takes. -/
def columns (c : Char) : Nat :=
  if c = '\t' then 4
  else if c.toNat < 128 || turnsDirection c then 1
  else if inRanges Table.zeroWidth c then 0
  else if inRanges Table.wide c then 2
  else 1

/-- The columns that a text takes. -/
def width : List Char → Nat
  | [] => 0
  | c :: s => columns c + width s

/-- The longest beginning of the text that fits into `n` columns. -/
def takeColumns : Nat → List Char → List Char
  | _, [] => []
  | n, c :: s => if columns c ≤ n then c :: takeColumns (n - columns c) s else []

/-- What is left of the text when it is dropped until `n` columns are gone. -/
def dropColumns : Nat → List Char → List Char
  | 0, s => s
  | _, [] => []
  | n + 1, c :: s => dropColumns (n + 1 - columns c) s

/-! ## Lemmas -/

@[simp] theorem displayed_append (s t : List Char) :
    displayed (s ++ t) = displayed s ++ displayed t := by
  simp [displayed]

@[simp] theorem width_append (s t : List Char) : width (s ++ t) = width s + width t := by
  induction s with
  | nil => simp [width]
  | cons c s ih => simp [width, ih, Nat.add_assoc]

theorem width_takeColumns_le (n : Nat) (s : List Char) : width (takeColumns n s) ≤ n := by
  fun_induction takeColumns n s with
  | case1 => simp [width]
  | case2 n c s h ih => simp only [width]; omega
  | case3 => simp [width]

theorem dropColumns_suffix (n : Nat) (s : List Char) : dropColumns n s <:+ s := by
  fun_induction dropColumns n s with
  | case1 => exact List.suffix_rfl
  | case2 => exact List.suffix_rfl
  | case3 n c s ih => exact ih.trans (List.suffix_cons c s)

end GrammarLab.Text
