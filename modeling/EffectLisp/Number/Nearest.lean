/-!
# The double nearest to a fraction

A finite double without its sign is a whole number of units of `2 ^ -1074`.
Its bits, read as a number, count the doubles below it, so rounding a fraction
means finding that count.  Of two neighbours equally near the one with the
even count is taken, and what lies beyond the largest finite double is rounded
to infinity.
-/

namespace EffectLisp.Number

/-- Powers are core's, also where another library brings an instance of its own. -/
@[default_instance 20000]
instance (priority := 20000) corePower {α : Type} [NatPow α] : Pow α Nat :=
  instPowNat

/-- The quotient rounded to the nearest whole number, halves to the even one. -/
def roundQuotient (numerator denominator : Nat) : Nat :=
  let quotient := numerator / denominator
  let remainder := numerator % denominator
  if 2 * remainder < denominator then quotient
  else if denominator < 2 * remainder then quotient + 1
  else quotient + quotient % 2

/-- How many binary places a unit in the last place of a double has dropped. -/
def smallestExponent : Nat := 1074

/-- The bits of a significand that are written down. -/
def fractionBits : Nat := 52

def infinityBits : Nat := 0x7FF * 2 ^ fractionBits

/-- The bits of the double nearest to a fraction that is not negative. -/
def nearest (numerator denominator : Nat) : Nat :=
  let units := numerator * 2 ^ smallestExponent
  let shift := (units / denominator).log2 - fractionBits
  min (shift * 2 ^ fractionBits + roundQuotient units (denominator * 2 ^ shift)) infinityBits

/-- A finite double as a significand and a power of two of units: the exact
value is `significand * 2 ^ shift` units. -/
structure Units where
  significand : Nat
  shift : Nat
  deriving DecidableEq, Repr

/-- The exact value of the finite double with the bits, its sign left out. -/
def Units.ofBits (bits : Nat) : Units :=
  let shift := bits / 2 ^ fractionBits - 1
  ⟨bits - shift * 2 ^ fractionBits, shift⟩

/-- How many units the value is. -/
def Units.count (units : Units) : Nat :=
  units.significand * 2 ^ units.shift

/-- Whether the double has the sign of a negative number. -/
def isNegative (x : Float) : Bool :=
  2 ^ 63 ≤ x.toBits.toNat

/-- The bits of a double without its sign. -/
def magnitude (x : Float) : Nat :=
  x.toBits.toNat % 2 ^ 63

/-- The double with a sign and the bits of its magnitude. -/
def ofMagnitude (negative : Bool) (bits : Nat) : Float :=
  Float.ofBits (UInt64.ofNat (if negative then 2 ^ 63 + bits else bits))

end EffectLisp.Number
