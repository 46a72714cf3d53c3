import EffectLisp.Number.Spelling
import EffectLisp.Proofs.Number.Bits
import EffectLisp.Proofs.Number.Shortest
import EffectLisp.Proofs.Text.Span

/-!
# Written numbers read back

The text of a double spells the same double.  A finite one is written as digits
with an optional point; such a spelling never meets the shortcuts for very large
and very small numerals, and as a fraction it is worth the numeral it was written
from.
-/

namespace EffectLisp.Number

theorem digitsValue_eq_ofDigitChars (digits : List Char) :
    digitsValue digits = Nat.ofDigitChars 10 digits 0 :=
  digitsValue_eq_foldl digits

theorem digitsValue_digits (n : Nat) :
    digitsValue (Decimal.digits n) = n := by
  rw [digitsValue_eq_ofDigitChars]
  exact Nat.ofDigitChars_ten_toDigits

theorem digitsValue_append_zeros (digits : List Char) (zeros : Nat) :
    digitsValue (digits ++ List.replicate zeros '0') =
      digitsValue digits * 10 ^ zeros := by
  rw [digitsValue_eq_ofDigitChars, digitsValue_eq_ofDigitChars,
    Nat.ofDigitChars_append, Nat.ofDigitChars_replicate_zero, Nat.mul_comm]

theorem digitsValue_zeros_append (zeros : Nat) (digits : List Char) :
    digitsValue (List.replicate zeros '0' ++ digits) = digitsValue digits := by
  rw [digitsValue_eq_ofDigitChars, digitsValue_eq_ofDigitChars,
    Nat.ofDigitChars_append, Nat.ofDigitChars_replicate_zero, Nat.mul_zero]

/-- Digits and nothing else. -/
def AllDigits (chars : List Char) : Prop :=
  ∀ c ∈ chars, c.isDigit = true

theorem allDigits_digits (n : Nat) : AllDigits (Decimal.digits n) :=
  fun _ member => Nat.isDigit_of_mem_toDigits (by decide) (by decide) member

theorem allDigits_zeros (zeros : Nat) : AllDigits (List.replicate zeros '0') := by
  intro c member
  rw [List.eq_of_mem_replicate member]
  decide

theorem allDigits_append
    {first second : List Char}
    (firstDigits : AllDigits first) (secondDigits : AllDigits second) :
    AllDigits (first ++ second) := by
  intro c member
  rcases List.mem_append.mp member with inFirst | inSecond
  · exact firstDigits c inFirst
  · exact secondDigits c inSecond

/-- A fraction as it stands after the digits before the point. -/
def pointed : List Char → List Char
  | [] => []
  | digit :: digits => '.' :: digit :: digits

theorem pointed_of_ne_nil
    {fraction : List Char} (nonempty : fraction ≠ []) :
    pointed fraction = '.' :: fraction := by
  cases fraction with
  | nil => exact absurd rfl nonempty
  | cons digit digits => rfl

/-- The value of digits before a point and digits after it. -/
def positionalValue (whole fraction : List Char) : Decimal :=
  ⟨digitsValue (whole ++ fraction), 0 - fraction.length⟩

/-- The characters are a spelling without an exponent that is worth the double
with the bits. -/
structure Positional
    (chars : List Char) (bits : Nat) (whole fraction : List Char) : Prop where
  spelled : chars = whole ++ pointed fraction
  nonempty : whole ≠ []
  whole_digits : AllDigits whole
  fraction_digits : AllDigits fraction
  worth : (positionalValue whole fraction).bits = bits

section Layout

variable {digits : List Char} (nonempty : digits ≠ []) (allDigits : AllDigits digits)

include nonempty allDigits

/-- Zeros fill the places before the unit. -/
private theorem positional_integral (zeros : Nat) :
    Positional (digits ++ List.replicate zeros '0')
      (Decimal.bits ⟨digitsValue digits, zeros⟩)
      (digits ++ List.replicate zeros '0') [] where
  spelled := (List.append_nil _).symm
  nonempty := by simp [nonempty]
  whole_digits := allDigits_append allDigits (allDigits_zeros zeros)
  fraction_digits := by simp [AllDigits]
  worth := by
    simp [positionalValue, Decimal.bits, Decimal.numerator, Decimal.denominator,
      digitsValue_append_zeros]

/-- Zeros fill the places between the point and the first digit. -/
private theorem positional_small (zeros : Nat) :
    Positional ('0' :: '.' :: List.replicate zeros '0' ++ digits)
      (Decimal.bits ⟨digitsValue digits, -(zeros + digits.length : Nat)⟩)
      ['0'] (List.replicate zeros '0' ++ digits) where
  spelled := by
    rw [pointed_of_ne_nil (by simp [nonempty])]
    rfl
  nonempty := by simp
  whole_digits := by simp [AllDigits]
  fraction_digits := allDigits_append (allDigits_zeros zeros) allDigits
  worth := by
    have leading : '0' :: (List.replicate zeros '0' ++ digits) =
        List.replicate (zeros + 1) '0' ++ digits := rfl
    rw [positionalValue, List.singleton_append, leading, digitsValue_zeros_append,
      List.length_append, List.length_replicate, Int.zero_sub]

omit nonempty in
/-- The point stands between two digits. -/
private theorem positional_mixed {places : Nat} (long : places < digits.length)
    (positive : 0 < places) :
    Positional (digits.take (digits.length - places) ++
        '.' :: digits.drop (digits.length - places))
      (Decimal.bits ⟨digitsValue digits, -(places : Nat)⟩)
      (digits.take (digits.length - places))
      (digits.drop (digits.length - places)) where
  spelled := by
    rw [pointed_of_ne_nil]
    exact List.ne_nil_of_length_pos (by rw [List.length_drop]; omega)
  nonempty := List.ne_nil_of_length_pos (by rw [List.length_take]; omega)
  whole_digits := fun c member => allDigits c (List.mem_of_mem_take member)
  fraction_digits := fun c member => allDigits c (List.mem_of_mem_drop member)
  worth := by
    have length : digits.length - (digits.length - places) = places := by omega
    rw [positionalValue, List.take_append_drop, List.length_drop, length, Int.zero_sub]

end Layout

/-- A numeral is written positionally, and what is written is worth as much. -/
theorem positional_chars (d : Decimal) :
    ∃ whole fraction, Positional d.chars d.bits whole fraction := by
  obtain ⟨coefficient, exponent⟩ := d
  have nonempty : Decimal.digits coefficient ≠ [] := Nat.toDigits_ne_nil
  have allDigits := allDigits_digits coefficient
  have value := digitsValue_digits coefficient
  simp only [Decimal.chars]
  generalize Decimal.digits coefficient = digits at nonempty allDigits value ⊢
  subst value
  by_cases integral : 0 ≤ exponent
  · obtain ⟨zeros, rfl⟩ := Int.eq_ofNat_of_zero_le integral
    rw [if_pos integral]
    exact ⟨_, _, positional_integral nonempty allDigits zeros⟩
  · obtain ⟨places, rfl⟩ : ∃ places : Nat, exponent = -(places : Nat) :=
      ⟨(-exponent).toNat, by omega⟩
    rw [if_neg integral, Int.neg_neg, Int.toNat_natCast]
    split
    · next short =>
        have placesEquation :
            places = places - digits.length + digits.length := by omega
        rw [placesEquation, Nat.add_sub_cancel]
        exact ⟨_, _, positional_small nonempty allDigits _⟩
    · next long =>
        exact ⟨_, _, positional_mixed allDigits (by omega) (by omega)⟩

/-- Zero is written as one digit. -/
theorem positional_zero : Positional ['0'] 0 ['0'] [] where
  spelled := rfl
  nonempty := by simp
  whole_digits := by simp [AllDigits]
  fraction_digits := by simp [AllDigits]
  worth := by simp [positionalValue, Decimal.bits, Decimal.numerator, digitsValue,
    digitsFrom, digitValue, nearest, roundQuotient]

/-- Digits with a sign in front of them if the number is negative. -/
def signed (negative : Bool) (chars : List Char) : List Char :=
  if negative then '-' :: chars else chars

theorem splitSign_signed
    (negative : Bool) {digit : Char} (isDigit : digit.isDigit = true)
    (chars : List Char) :
    splitSign (signed negative (digit :: chars)) = (negative, digit :: chars) := by
  cases negative with
  | true => rfl
  | false =>
      have notMinus : digit ≠ '-' := by rintro rfl; simp at isDigit
      have notPlus : digit ≠ '+' := by rintro rfl; simp at isDigit
      simp [signed, splitSign, notMinus, notPlus]

theorem stopsAt_pointed (fraction : List Char) :
    Text.StopsAt Char.isDigit (pointed fraction) := by
  cases fraction with
  | nil => exact Text.stopsAt_nil _
  | cons digit digits => exact Text.stopsAt_cons (by decide) _

theorem splitFraction_pointed
    {fraction : List Char} (allDigits : AllDigits fraction) :
    splitFraction (pointed fraction) = (fraction, []) := by
  cases fraction with
  | nil => rfl
  | cons digit digits =>
      have taken := Text.takeWhile_append_of_stopsAt allDigits (Text.stopsAt_nil _)
      have dropped := Text.dropWhile_append_of_stopsAt allDigits (Text.stopsAt_nil _)
      rw [List.append_nil] at taken dropped
      rw [pointed, splitFraction, taken, dropped]

namespace Positional

variable {chars whole fraction : List Char} {bits : Nat}

theorem numeral?_signed
    (positional : Positional chars bits whole fraction) (negative : Bool) :
    numeral? (signed negative chars) = some ⟨negative, whole, fraction, 0⟩ := by
  have nonempty := positional.nonempty
  have split :
      splitSign (signed negative chars) = (negative, whole ++ pointed fraction) := by
    rw [positional.spelled]
    cases wholeEquation : whole with
    | nil => exact absurd wholeEquation nonempty
    | cons digit digits =>
        exact splitSign_signed negative
          (positional.whole_digits digit (by simp [wholeEquation])) _
  have taken := Text.takeWhile_append_of_stopsAt positional.whole_digits
    (stopsAt_pointed fraction)
  have dropped := Text.dropWhile_append_of_stopsAt positional.whole_digits
    (stopsAt_pointed fraction)
  simp [numeral?, split, taken, dropped,
    splitFraction_pointed positional.fraction_digits, nonempty, suffix?]

/-- A spelling without an exponent never meets the shortcuts. -/
theorem bits_eq
    (positional : Positional chars bits whole fraction) (negative : Bool) :
    Numeral.bits ⟨negative, whole, fraction, 0⟩ = bits := by
  have wholeLength := List.length_pos_iff.mpr positional.nonempty
  have worth := positional.worth
  have decimal : Numeral.decimal ⟨negative, whole, fraction, 0⟩ =
      positionalValue whole fraction := rfl
  rw [Numeral.bits, decimal]
  split
  · next zero =>
      rw [← worth, Decimal.bits, Decimal.numerator, zero]
      simp [nearest, roundQuotient]
  · have small : ¬400 < (positionalValue whole fraction).exponent := by
      simp only [positionalValue]
      omega
    have large : ¬((whole ++ fraction).length : Int) +
        (positionalValue whole fraction).exponent ≤ -324 := by
      simp only [positionalValue, List.length_append]
      omega
    rw [if_neg small, Numeral.digits, if_neg large, worth]

/-- The spelling starts with a digit after its sign, so it is no name of a
special number. -/
theorem ofChars?_signed
    (positional : Positional chars bits whole fraction) (negative : Bool) :
    ofChars? (signed negative chars) = some (ofMagnitude negative bits) := by
  have read := positional.numeral?_signed negative
  have special : ∀ name ∈ ["+inf.0", "-inf.0", "+nan.0"],
      signed negative chars ≠ name.toList := by
    intro name member equality
    rw [equality] at read
    simp only [List.mem_cons, List.not_mem_nil, or_false] at member
    rcases member with rfl | rfl | rfl <;> cases read
  rw [ofChars?, if_neg (special _ (by simp)), if_neg (special _ (by simp)),
    if_neg (special _ (by simp)), read, Option.map_some, Numeral.toFloat,
    positional.bits_eq]

end Positional

theorem positional_magnitude
    {bits : Nat} (finite : bits < infinityBits) :
    ∃ whole fraction,
      Positional (if bits = 0 then ['0'] else (shortest bits).chars) bits
        whole fraction := by
  by_cases zero : bits = 0
  · rw [if_pos zero, zero]
    exact ⟨_, _, positional_zero⟩
  · obtain ⟨whole, fraction, positional⟩ := positional_chars (shortest bits)
    rw [bits_shortest (Nat.pos_of_ne_zero zero) finite] at positional
    rw [if_neg zero]
    exact ⟨whole, fraction, positional⟩

/-- The text of a double is a special name, or a positional spelling of its
magnitude with its sign. -/
theorem chars_cases (x : Float) :
    (∃ name ∈ ["+nan.0", "+inf.0", "-inf.0"],
        chars x = name.toList ∧ ofChars? name.toList = some x) ∨
      ∃ unsigned whole fraction,
        chars x = signed (isNegative x) unsigned ∧
          Positional unsigned (magnitude x) whole fraction := by
  unfold chars
  split
  · next noNumber =>
      rw [eq_ofMagnitude_of_isNaN noNumber]
      exact .inl ⟨_, by simp, rfl, rfl⟩
  · next number =>
      have recovered := ofMagnitude_magnitude x
      split
      · next infinite =>
          rw [infinite] at recovered
          split
          · next negative =>
              rw [negative] at recovered
              exact .inl ⟨_, by simp, rfl, recovered ▸ rfl⟩
          · next positive =>
              rw [Bool.not_eq_true] at positive
              rw [positive] at recovered
              exact .inl ⟨_, by simp, rfl, recovered ▸ rfl⟩
      · next finite =>
          have bound : magnitude x < infinityBits := by
            have notBeyond := mt (isNaN_iff x).mpr number
            omega
          obtain ⟨whole, fraction, positional⟩ := positional_magnitude bound
          exact .inr ⟨_, whole, fraction, rfl, positional⟩

/-- A written double reads back as the same double. -/
theorem ofChars?_chars (x : Float) :
    ofChars? (chars x) = some x := by
  rcases chars_cases x with
    ⟨name, _, written, read⟩ | ⟨unsigned, whole, fraction, written, positional⟩
  · rw [written, read]
  · rw [written, positional.ofChars?_signed, ofMagnitude_magnitude]

/-- The characters that doubles are written with. -/
def isNumeric (c : Char) : Bool :=
  c.isDigit || c ∈ ['+', '-', '.', 'i', 'n', 'f', 'a']

theorem AllDigits.isNumeric
    {digits : List Char} (allDigits : AllDigits digits) :
    ∀ c ∈ digits, isNumeric c = true := by
  intro c member
  simp [Number.isNumeric, allDigits c member]

theorem isNumeric_pointed
    {fraction : List Char} (allDigits : AllDigits fraction) :
    ∀ c ∈ pointed fraction, isNumeric c = true := by
  cases fraction with
  | nil => simp [pointed]
  | cons digit digits =>
      intro c member
      rcases List.mem_cons.mp member with rfl | inDigits
      · decide
      · exact allDigits.isNumeric c inDigits

theorem isNumeric_signed
    {negative : Bool} {unsigned : List Char}
    (numeric : ∀ c ∈ unsigned, isNumeric c = true) :
    ∀ c ∈ signed negative unsigned, isNumeric c = true := by
  cases negative with
  | false => exact numeric
  | true =>
      intro c member
      rcases List.mem_cons.mp member with rfl | inUnsigned
      · decide
      · exact numeric c inUnsigned

theorem isNumeric_of_mem_chars {x : Float} {c : Char}
    (member : c ∈ chars x) : isNumeric c = true := by
  rcases chars_cases x with
    ⟨name, special, written, _⟩ | ⟨unsigned, whole, fraction, written, positional⟩
  · have named : ["+nan.0", "+inf.0", "-inf.0"].all
        (fun name => name.toList.all isNumeric) = true := by decide
    have spelled := List.all_eq_true.mp named name special
    exact List.all_eq_true.mp spelled c (written ▸ member)
  · rw [written] at member
    refine isNumeric_signed (fun c inUnsigned => ?_) c member
    rw [positional.spelled] at inUnsigned
    rcases List.mem_append.mp inUnsigned with inWhole | inFraction
    · exact positional.whole_digits.isNumeric c inWhole
    · exact isNumeric_pointed positional.fraction_digits c inFraction

theorem chars_ne_nil (x : Float) : chars x ≠ [] := by
  intro empty
  have read := ofChars?_chars x
  rw [empty] at read
  cases read

end EffectLisp.Number
