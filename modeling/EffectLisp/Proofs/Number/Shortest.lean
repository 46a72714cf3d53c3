import EffectLisp.Number.Shortest

/-!
# The shortest numeral names its double

Whatever the search for a short numeral finds has been tested against the
double, so it names it.  If the search found nothing the numeral with every
digit would be taken; a fraction that is worth exactly the units of a double is
rounded to that double, so that numeral names it too.
-/

namespace EffectLisp.Number

private theorem roundQuotient_mul
    (quotient : Nat) {denominator : Nat} (positive : 0 < denominator) :
    roundQuotient (quotient * denominator) denominator = quotient := by
  simp only [roundQuotient, Nat.mul_mod_left, Nat.mul_div_cancel _ positive]
  rw [if_pos (by omega)]

/-- The significand and the shift of a double are those of the grid on which
its units are rounded. -/
theorem log2_count_ofBits {bits : Nat} (positive : 0 < bits) :
    (Units.ofBits bits).count.log2 - fractionBits = (Units.ofBits bits).shift := by
  simp only [Units.count, Units.ofBits, fractionBits]
  by_cases small : bits < 2 ^ 53
  · have noShift : bits / 2 ^ 52 - 1 = 0 := by omega
    have bound : bits.log2 < 53 := (Nat.log2_lt (by omega)).mpr small
    simp only [noShift, Nat.zero_mul, Nat.sub_zero, Nat.pow_zero, Nat.mul_one]
    omega
  · generalize shiftEquation : bits / 2 ^ 52 - 1 = shift
    generalize significandEquation : bits - shift * 2 ^ 52 = significand
    have lower : 2 ^ 52 ≤ significand := by omega
    have upper : significand < 2 ^ 53 := by omega
    have power : 0 < 2 ^ shift := Nat.two_pow_pos shift
    have nonzero : significand * 2 ^ shift ≠ 0 :=
      Nat.ne_of_gt (Nat.mul_pos (by omega) power)
    have log : (significand * 2 ^ shift).log2 = 52 + shift := by
      refine (Nat.log2_eq_iff nonzero).mpr ⟨?_, ?_⟩
      · rw [Nat.pow_add]
        exact Nat.mul_le_mul_right _ lower
      · rw [show 52 + shift + 1 = 53 + shift by omega, Nat.pow_add]
        exact Nat.mul_lt_mul_of_pos_right upper power
    rw [log]
    omega

/-- A fraction worth exactly the units of a double is rounded to the double. -/
theorem nearest_eq_of_count
    {numerator denominator bits : Nat}
    (denominatorPositive : 0 < denominator)
    (positive : 0 < bits) (finite : bits < infinityBits)
    (worth : numerator * 2 ^ smallestExponent =
      (Units.ofBits bits).count * denominator) :
    nearest numerator denominator = bits := by
  have shift := log2_count_ofBits positive
  have rounded :
      roundQuotient ((Units.ofBits bits).count * denominator)
        (denominator * 2 ^ (Units.ofBits bits).shift) =
          (Units.ofBits bits).significand := by
    have regroup :
        (Units.ofBits bits).count * denominator =
          (Units.ofBits bits).significand *
            (denominator * 2 ^ (Units.ofBits bits).shift) := by
      rw [Units.count, Nat.mul_assoc, Nat.mul_comm (2 ^ _)]
    rw [regroup]
    exact roundQuotient_mul _ (Nat.mul_pos denominatorPositive (Nat.two_pow_pos _))
  have whole :
      (Units.ofBits bits).shift * 2 ^ fractionBits +
        (Units.ofBits bits).significand = bits := by
    simp only [Units.ofBits, fractionBits]
    omega
  simp only [nearest, worth, Nat.mul_div_cancel _ denominatorPositive, shift,
    rounded, whole]
  exact Nat.min_eq_left (Nat.le_of_lt finite)

theorem bits_exact
    {bits : Nat} (positive : 0 < bits) (finite : bits < infinityBits) :
    (exact bits).bits = bits := by
  have worth :
      (exact bits).numerator * 2 ^ smallestExponent =
        (Units.ofBits bits).count * 10 ^ smallestExponent := by
    have noExponent : (-(smallestExponent : Int)).toNat = 0 := by
      simp only [smallestExponent]
      omega
    rw [Decimal.numerator, exact, noExponent, Nat.pow_zero, Nat.mul_one,
      Nat.mul_assoc, ← Nat.mul_pow, Units.count]
  have denominator : (exact bits).denominator = 10 ^ smallestExponent := by
    rw [Decimal.denominator, exact, Int.neg_neg, Int.toNat_natCast]
  rw [Decimal.bits, denominator]
  exact nearest_eq_of_count (Nat.pow_pos (by decide)) positive finite worth

theorem bits_of_candidate?
    {bits coefficient : Nat} {exponent : Int} {numeral : Decimal}
    (found : candidate? bits coefficient exponent = some numeral) :
    numeral.bits = bits := by
  simp only [candidate?] at found
  split at found
  · next names =>
      rw [← Option.some.inj found]
      exact names
  · cases found

private theorem bits_of_orElse
    {bits : Nat} {first second : Option Decimal} {numeral : Decimal}
    (firstNames : ∀ numeral, first = some numeral → numeral.bits = bits)
    (secondNames : ∀ numeral, second = some numeral → numeral.bits = bits)
    (found : (first <|> second) = some numeral) :
    numeral.bits = bits := by
  cases first with
  | none => exact secondNames numeral (by simpa using found)
  | some other => exact firstNames numeral (by simpa using found)

theorem bits_of_onGrid?
    {bits : Nat} {exponent : Int} {numeral : Decimal}
    (found : onGrid? bits exponent = some numeral) :
    numeral.bits = bits := by
  simp only [onGrid?] at found
  split at found
  · exact bits_of_candidate? found
  · split at found
    all_goals
      exact bits_of_orElse (fun _ => bits_of_candidate?)
        (fun _ => bits_of_candidate?) found

theorem bits_of_search
    {bits room : Nat} {exponent : Int} {numeral : Decimal}
    (found : search bits room exponent = some numeral) :
    numeral.bits = bits := by
  induction room generalizing exponent numeral with
  | zero => cases found
  | succ room induction =>
      exact bits_of_orElse (fun _ => bits_of_onGrid?)
        (fun _ later => induction later) found

/-- The numeral that is written for a double names the double. -/
theorem bits_shortest
    {bits : Nat} (positive : 0 < bits) (finite : bits < infinityBits) :
    (shortest bits).bits = bits := by
  unfold shortest
  cases found : search bits 17 ((Units.ofBits bits).leading - 1) with
  | none => exact bits_exact positive finite
  | some numeral => exact bits_of_search found

end EffectLisp.Number
