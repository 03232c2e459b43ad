/-!
# Hexadecimal code points

    hexNumber? ['4', '1'] = some 65        scalar? 65 = some 'A'
-/

namespace GrammarLab.Text

def hexDigit? (c : Char) : Option Nat :=
  if '0' ≤ c && c ≤ '9' then some (c.toNat - 48)
  else if 'a' ≤ c && c ≤ 'f' then some (c.toNat - 87)
  else if 'A' ≤ c && c ≤ 'F' then some (c.toNat - 55)
  else none

/-- The number that the digits after `acc` spell. -/
def hexNumberFrom? (acc : Nat) : List Char → Option Nat
  | [] => some acc
  | c :: cs =>
    match hexDigit? c with
    | some d => hexNumberFrom? (16 * acc + d) cs
    | none => none

/-- The number that one or more digits spell, in either case. -/
def hexNumber? (s : List Char) : Option Nat :=
  if s.isEmpty then none else hexNumberFrom? 0 s

/-- The character of a code point, if it is a scalar value. -/
def scalar? (n : Nat) : Option Char :=
  if n < 0xD800 || (0xDFFF < n && n < 0x110000) then some (Char.ofNat n) else none

end GrammarLab.Text
