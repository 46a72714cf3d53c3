import EffectLisp.Number.Nearest

/-!
# Decimal numerals

A decimal numeral is a coefficient times a power of ten.  It is written
positionally, never with an exponent, and it names the double nearest to it.
-/

namespace EffectLisp.Number

/-- The number `coefficient * 10 ^ exponent`. -/
structure Decimal where
  coefficient : Nat
  exponent : Int
  deriving DecidableEq, Repr

namespace Decimal

/-- The numerator of the numeral as a fraction. -/
def numerator (d : Decimal) : Nat :=
  d.coefficient * 10 ^ d.exponent.toNat

/-- The denominator of the numeral as a fraction. -/
def denominator (d : Decimal) : Nat :=
  10 ^ (-d.exponent).toNat

/-- The bits of the double nearest to the numeral. -/
def bits (d : Decimal) : Nat :=
  nearest d.numerator d.denominator

/-- Remove trailing zeros from the coefficient, at most `room` of them. -/
def strip : Nat → Decimal → Decimal
  | 0, d => d
  | room + 1, d =>
      if d.coefficient % 10 = 0 then strip room ⟨d.coefficient / 10, d.exponent + 1⟩ else d

/-- The decimal digits of a natural number, the most significant first. -/
def digits (n : Nat) : List Char :=
  Nat.toDigits 10 n

/-- The numeral in positional notation: zeros fill the places before the unit
and between the point and the first digit, and a point stands only before a
digit. -/
def chars (d : Decimal) : List Char :=
  let written := digits d.coefficient
  if 0 ≤ d.exponent then written ++ List.replicate d.exponent.toNat '0'
  else
    let places := (-d.exponent).toNat
    if written.length ≤ places then
      '0' :: '.' :: List.replicate (places - written.length) '0' ++ written
    else
      written.take (written.length - places) ++ '.' :: written.drop (written.length - places)

end Decimal

end EffectLisp.Number
