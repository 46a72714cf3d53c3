import EffectLisp.Number.Decimal

/-!
# The shortest numeral of a double

Of the numerals that name a double, the ones with the fewest digits are the
shortest, and of those the nearest to the double is written.  With `n` digits
the numerals form a grid; if any point of it names the double, so does one of
the two points beside the double, so only those two are tried.
-/

namespace EffectLisp.Number

/-- Enough decimal places to show a digit of every positive double. -/
def leadingPlaces : Nat := 330

/-- The number `k` with `10 ^ (k - 1) ≤ x < 10 ^ k`, for `x` in units: the digits
before the point, or, where there are none, as many fewer than none as zeros
follow the point. -/
def Units.leading (units : Units) : Int :=
  let whole := units.count / 2 ^ smallestExponent
  if 0 < whole then (Decimal.digits whole).length
  else
    let scaled := units.count * 10 ^ leadingPlaces / 2 ^ smallestExponent
    (Decimal.digits scaled).length - leadingPlaces

/-- The value divided by `10 ^ exponent`, as a fraction. -/
def Units.scaled (units : Units) (exponent : Int) : Nat × Nat :=
  (units.count * 10 ^ (-exponent).toNat, 2 ^ smallestExponent * 10 ^ exponent.toNat)

/-- The numeral without trailing zeros, if it names the double with the bits. -/
def candidate? (bits : Nat) (coefficient : Nat) (exponent : Int) : Option Decimal :=
  let numeral := Decimal.strip 20 ⟨coefficient, exponent⟩
  if numeral.bits = bits then some numeral else none

/-- The numeral on the grid of an exponent that names the double: of the two
beside the double the nearer, and of two equally near the larger. -/
def onGrid? (bits : Nat) (exponent : Int) : Option Decimal :=
  let (numerator, denominator) := (Units.ofBits bits).scaled exponent
  let below := numerator / denominator
  let fromBelow := numerator % denominator
  if fromBelow = 0 then candidate? bits below exponent
  else if 2 * fromBelow < denominator then
    candidate? bits below exponent <|> candidate? bits (below + 1) exponent
  else
    candidate? bits (below + 1) exponent <|> candidate? bits below exponent

/-- Search the grids from `exponent` down to finer ones. -/
def search (bits : Nat) : Nat → Int → Option Decimal
  | 0, _ => none
  | room + 1, exponent => onGrid? bits exponent <|> search bits room (exponent - 1)

/-- Every digit of the value: a unit is `5 ^ 1074 * 10 ^ -1074`. -/
def exact (bits : Nat) : Decimal :=
  let units := Units.ofBits bits
  ⟨units.significand * 2 ^ units.shift * 5 ^ smallestExponent, -smallestExponent⟩

/-- The shortest numeral that names the positive finite double with the bits.
Seventeen digits are always enough. -/
def shortest (bits : Nat) : Decimal :=
  (search bits 17 ((Units.ofBits bits).leading - 1)).getD (exact bits)

/-- The text of a double: never an exponent, `-0` for the negative zero, and
names of their own for what is not finite. -/
def chars (x : Float) : List Char :=
  if x.isNaN then "+nan.0".toList
  else if magnitude x = infinityBits then
    if isNegative x then "-inf.0".toList else "+inf.0".toList
  else
    let unsigned := if magnitude x = 0 then ['0'] else (shortest (magnitude x)).chars
    if isNegative x then '-' :: unsigned else unsigned

end EffectLisp.Number
