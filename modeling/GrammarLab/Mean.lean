/-!
# Means

A mean is kept as its total and its count. In print it is the nearest number with 53 significant
bits, rounded to a number of decimal places; ties go to the even neighbour both times.

    (Mean.mk 9 8).decimal 2 = "1.12"
-/

namespace GrammarLab

/-- The quotient rounded to the nearest integer, a tie to the even one. -/
def roundDiv (num den : Nat) : Nat :=
  let q := num / den
  let twice := 2 * (num % den)
  if twice < den then q
  else if den < twice then q + 1
  else if q % 2 = 0 then q else q + 1

structure Mean where
  total : Nat
  count : Nat
deriving DecidableEq, Repr

namespace Mean

/-- The mean as `significand / 2 ^ scale` with 53 significant bits. Of nothing it is zero. -/
def binary (m : Mean) : Nat × Nat :=
  if m.total = 0 || m.count = 0 then (0, 0)
  else
    let scale := 180 - (m.total * Nat.pow 2 128 / m.count).log2
    (roundDiv (m.total * Nat.pow 2 scale) m.count, scale)

/-- The digits of `n`, at least `width` of them. -/
def padded (width n : Nat) : List Char :=
  let digits := Nat.toDigits 10 n
  List.replicate (width - digits.length) '0' ++ digits

def decimal (m : Mean) (places : Nat) : String :=
  let (significand, scale) := m.binary
  let unit := Nat.pow 10 places
  let scaled := roundDiv (significand * unit) (Nat.pow 2 scale)
  toString (scaled / unit) ++ "." ++ String.ofList (padded places (scaled % unit))

end Mean

end GrammarLab
