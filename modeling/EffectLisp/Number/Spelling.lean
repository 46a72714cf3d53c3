import EffectLisp.Number.Decimal

/-!
# Spellings of numbers

A number is spelled by an optional sign and a decimal numeral: digits with an
optional point, at least one of them a digit, and an optional exponent.  The
three numbers that are not finite have one spelling each.  Words such as
`inf` and `nan` are no numbers.

The digits of an exponent are read only up to the one that takes it to 65536 or
beyond.  That is no loss for a numeral with fewer digits of its own: it is zero
or infinite in any case.
-/

namespace EffectLisp.Number

structure Numeral where
  negative : Bool
  /-- The digits before the point. -/
  whole : List Char
  /-- The digits after the point. -/
  fraction : List Char
  exponent : Int
  deriving DecidableEq, Repr

/-- Split an optional sign off: whether it is a minus, and the rest. -/
def splitSign : List Char → Bool × List Char
  | '-' :: rest => (true, rest)
  | '+' :: rest => (false, rest)
  | chars => (false, chars)

/-- The number that a decimal digit stands for. -/
def digitValue (digit : Char) : Nat :=
  digit.toNat - '0'.toNat

/-- The power of ten at which a block of digits is full. -/
def fullBlock : Nat := 10 ^ 128

/-- The number that decimal digits spell after the digits of `value` and then
those of a block, where `scale` is ten to the number of digits in the block.
Blocks keep the cost of a long numeral down: only a full one touches `value`. -/
def digitsFrom (value block scale : Nat) : List Char → Nat
  | [] => value * scale + block
  | digit :: digits =>
      if scale < fullBlock then
        digitsFrom value (10 * block + digitValue digit) (10 * scale) digits
      else digitsFrom (value * scale + block) (digitValue digit) 10 digits

def digitsValue (digits : List Char) : Nat :=
  digitsFrom 0 0 1 digits

/-- What digits spell after others: those are worth ten times as much for each
digit that follows. -/
theorem digitsFrom_eq_foldl (value block scale : Nat) (digits : List Char) :
    digitsFrom value block scale digits
      = digits.foldl (fun n digit => 10 * n + digitValue digit) (value * scale + block) := by
  induction digits generalizing value block scale with
  | nil => rfl
  | cons digit digits induction =>
      unfold digitsFrom
      split
      · rw [induction, List.foldl_cons]
        congr 1
        rw [Nat.mul_add, Nat.mul_left_comm, Nat.add_assoc]
      · rw [induction, List.foldl_cons]
        congr 1
        rw [Nat.mul_comm]

theorem digitsValue_eq_foldl (digits : List Char) :
    digitsValue digits = digits.foldl (fun n digit => 10 * n + digitValue digit) 0 := by
  rw [digitsValue, digitsFrom_eq_foldl]

/-- Once an exponent has this size, its further digits are passed over. -/
def exponentLimit : Nat := 65536

/-- The number that the digits of an exponent spell, as far as they are read. -/
def exponentValue (digits : List Char) : Nat :=
  digits.foldl
    (fun n digit => if n < exponentLimit then 10 * n + digitValue digit else n) 0

/-- An exponent after its letter: an optional sign and at least one digit. -/
def exponent? (chars : List Char) : Option Int :=
  let (negative, digits) := splitSign chars
  if digits = [] || !digits.all Char.isDigit then none
  else if negative then some (-exponentValue digits)
  else some (exponentValue digits)

/-- The end of a numeral: nothing, or an exponent. -/
def suffix? : List Char → Option Int
  | [] => some 0
  | letter :: chars => if letter = 'e' || letter = 'E' then exponent? chars else none

/-- The digits after an optional point, and the rest. -/
def splitFraction : List Char → List Char × List Char
  | '.' :: rest => (rest.takeWhile Char.isDigit, rest.dropWhile Char.isDigit)
  | chars => ([], chars)

def numeral? (chars : List Char) : Option Numeral :=
  let (negative, unsigned) := splitSign chars
  let whole := unsigned.takeWhile Char.isDigit
  let (fraction, rest) := splitFraction (unsigned.dropWhile Char.isDigit)
  if whole = [] && fraction = [] then none
  else (suffix? rest).map fun exponent => ⟨negative, whole, fraction, exponent⟩

namespace Numeral

def digits (n : Numeral) : List Char :=
  n.whole ++ n.fraction

/-- The unsigned value. -/
def decimal (n : Numeral) : Decimal :=
  ⟨digitsValue n.digits, n.exponent - n.fraction.length⟩

/-- The bits of the nearest double.  A numeral of at least `10 ^ 400` is
infinite and one below `10 ^ -324` is zero; neither needs its power of ten. -/
def bits (n : Numeral) : Nat :=
  if n.decimal.coefficient = 0 then 0
  else if 400 < n.decimal.exponent then infinityBits
  else if n.digits.length + n.decimal.exponent ≤ -324 then 0
  else n.decimal.bits

def toFloat (n : Numeral) : Float :=
  ofMagnitude n.negative n.bits

end Numeral

/-- The number that the characters spell. -/
def ofChars? (chars : List Char) : Option Float :=
  if chars = "+inf.0".toList then some (ofMagnitude false infinityBits)
  else if chars = "-inf.0".toList then some (ofMagnitude true infinityBits)
  else if chars = "+nan.0".toList then some (ofMagnitude false (infinityBits + 2 ^ 51))
  else (numeral? chars).map Numeral.toFloat

end EffectLisp.Number
