import Mathlib
import EffectLisp.Number.Nearest

/-!
# Doubles and their bits

A double is its bits: taking the bits of a double and making a double of them
gives the double back.  The sign and the magnitude therefore determine it, and
there is a single double that is no number.
-/

namespace EffectLisp.Number

open Float.Model (Format UnpackedFloat)
open Float.Model.UnpackedFloat

theorem toBitVec_ofBitVec (bit : BitVec 1) :
    (Sign.ofBitVec bit).toBitVec = bit := by
  by_cases zero : bit = 0#1
  · simp [Sign.ofBitVec, Sign.toBitVec, zero]
  · have one : bit = 1#1 := by
      have bound := bit.isLt
      have positive : bit.toNat ≠ 0 := fun equality =>
        zero (BitVec.eq_of_toNat_eq (by simpa using equality))
      apply BitVec.eq_of_toNat_eq
      simp only [BitVec.toNat_ofNat]
      omega
    simp [Sign.ofBitVec, Sign.toBitVec, one]

theorem toNat_unpackMantissa (bits : BitVec Format.binary64.numBits) :
    (unpackMantissa bits).toNat = bits.toNat % 2 ^ 52 := by
  simp [unpackMantissa]

theorem toNat_unpackExponent (bits : BitVec Format.binary64.numBits) :
    (unpackExponent bits).toNat = bits.toNat / 2 ^ 52 % 2 ^ 11 := by
  simp [unpackExponent, Nat.shiftRight_eq_div_pow]

theorem toNat_unpackSign (bits : BitVec Format.binary64.numBits) :
    (unpackSign bits).toNat = bits.toNat / 2 ^ 63 := by
  have bound : bits.toNat < 2 ^ 64 := bits.isLt
  simp only [unpackSign, BitVec.toNat_cast, BitVec.extractLsb_toNat,
    Nat.shiftRight_eq_div_pow]
  omega

theorem toNat_packComponents
    (sign : Sign) (exponent : BitVec 11) (mantissa : BitVec 52) :
    (packComponents Format.binary64 sign exponent mantissa).toNat =
      sign.toBitVec.toNat * 2 ^ 63 + exponent.toNat * 2 ^ 52 + mantissa.toNat := by
  change (sign.toBitVec ++ exponent ++ mantissa).toNat = _
  rw [BitVec.toNat_append, BitVec.toNat_append,
    ← Nat.shiftLeft_add_eq_or_of_lt exponent.isLt,
    ← Nat.shiftLeft_add_eq_or_of_lt mantissa.isLt,
    Nat.shiftLeft_eq, Nat.shiftLeft_eq]
  omega

/-- The three parts of a bit pattern put together are the pattern. -/
theorem packComponents_parts (bits : BitVec Format.binary64.numBits) :
    packComponents Format.binary64 (Sign.ofBitVec (unpackSign bits))
      (unpackExponent bits) (unpackMantissa bits) = bits := by
  have bound : bits.toNat < 2 ^ 64 := bits.isLt
  apply BitVec.eq_of_toNat_eq
  rw [toNat_packComponents, toBitVec_ofBitVec, toNat_unpackSign,
    toNat_unpackExponent, toNat_unpackMantissa]
  omega

private theorem pack_subnormal
    (sign : Sign) (mantissa : BitVec 52) (positive : 0 < mantissa.toNat) :
    pack Format.binary64 (.finite sign mantissa.toNat (-1074) positive) =
      packComponents Format.binary64 sign 0#11 mantissa := by
  have small : mantissa.toNat.log2 < 52 :=
    (Nat.log2_lt (by omega)).mpr mantissa.isLt
  have notNormal : ¬mantissa.toNat.log2 + 1 = Format.binary64.mantissaBits := by
    simp only [Format.mantissaBits]
    omega
  simp [pack, notNormal, Format.exponentBias]

private theorem pack_normal
    (sign : Sign) (exponent : BitVec 11) (mantissa : BitVec 52)
    (notFull : exponent.toNat < 2047) (positive : 0 < (1#1 ++ mantissa).toNat) :
    pack Format.binary64
        (.finite sign (1#1 ++ mantissa).toNat (exponent.toNat - 1075) positive) =
      packComponents Format.binary64 sign exponent mantissa := by
  have bound := mantissa.isLt
  have whole : (1#1 ++ mantissa).toNat = 2 ^ 52 + mantissa.toNat := by
    rw [BitVec.toNat_append, ← Nat.shiftLeft_add_eq_or_of_lt bound]
    simp [Nat.shiftLeft_eq]
  have log : (1#1 ++ mantissa).toNat.log2 = 52 := by
    rw [whole]
    exact (Nat.log2_eq_iff (by omega)).mpr ⟨by omega, by omega⟩
  have biased :
      ((exponent.toNat : Int) - 1075 + Format.binary64.exponentBias +
        Format.binary64.mantissaBitsWithoutImplicit).toNat = exponent.toNat := by
    simp only [Format.exponentBias]
    omega
  simp only [pack, log, biased]
  rw [if_neg (by omega), if_pos (by decide)]
  congr 1
  · simp
  · apply BitVec.eq_of_toNat_eq
    rw [BitVec.toNat_ofNat, whole]
    omega

/-- Unpacking a valid bit pattern loses nothing. -/
theorem pack_unpack
    (bits : BitVec Format.binary64.numBits) (valid : Format.binary64.Valid bits) :
    pack Format.binary64 (unpack Format.binary64 bits) = bits := by
  have whole := packComponents_parts bits
  simp only [unpack]
  split
  · next full =>
      split
      · next empty => simpa [pack, packedInfinity, full, empty] using whole
      · next nonempty => exact (valid.eq_packedNaN full nonempty).symm
  · next notFull =>
      split
      · next none =>
          split
          · next empty => simpa [pack, packedZero, none, empty] using whole
          · next nonempty =>
              rw [none] at whole
              simp only [none]
              exact (pack_subnormal _ _ _).trans whole
      · have different : (unpackExponent bits).toNat ≠ 2047 := fun equality =>
          notFull (BitVec.eq_of_toNat_eq equality)
        have bound : (unpackExponent bits).toNat < 2 ^ 11 :=
          (unpackExponent bits).isLt
        exact (pack_normal _ _ _ (by omega) _).trans whole

theorem ofBits_toBits (x : Float) : Float.ofBits x.toBits = x := by
  obtain ⟨⟨bits, valid⟩⟩ := x
  have same := pack_unpack bits.toBitVec valid
  simp only [Float.ofBits, Float.toBits, Float.Model.ofBits, Float.Model.pack, same]

theorem ofMagnitude_magnitude (x : Float) :
    ofMagnitude (isNegative x) (magnitude x) = x := by
  have bound : x.toBits.toNat < 2 ^ 64 := x.toBits.toNat_lt
  have whole :
      (if isNegative x then 2 ^ 63 + magnitude x else magnitude x) =
        x.toBits.toNat := by
    simp only [isNegative, magnitude, decide_eq_true_eq]
    split <;> omega
  rw [ofMagnitude, whole, UInt64.ofNat_toNat, ofBits_toBits]

private theorem isNaN_unpack_iff (bits : BitVec Format.binary64.numBits) :
    (unpack Format.binary64 bits).isNaN = true ↔
      unpackExponent bits = -1#11 ∧ unpackMantissa bits ≠ 0#52 := by
  simp only [unpack]
  split
  · next full =>
      split
      · next empty => simp [UnpackedFloat.isNaN, empty]
      · next nonempty => simp [UnpackedFloat.isNaN, full, nonempty]
  · next notFull =>
      split
      · split
        · exact iff_of_false (by simp [UnpackedFloat.isNaN]) fun parts => notFull parts.1
        · exact iff_of_false (by simp [UnpackedFloat.isNaN]) fun parts => notFull parts.1
      · exact iff_of_false (by simp [UnpackedFloat.isNaN]) fun parts => notFull parts.1

/-- Beyond the bits of infinity there is no number. -/
theorem isNaN_iff (x : Float) :
    x.isNaN = true ↔ infinityBits < magnitude x := by
  have bound : x.toBits.toNat < 2 ^ 64 := x.toBits.toNat_lt
  have exponent := toNat_unpackExponent x.toBits.toBitVec
  have mantissa := toNat_unpackMantissa x.toBits.toBitVec
  have parts : x.isNaN = true ↔ _ := isNaN_unpack_iff x.toBits.toBitVec
  rw [parts, ← BitVec.toNat_inj, Ne, ← BitVec.toNat_inj, exponent, mantissa]
  simp only [magnitude, infinityBits, fractionBits, UInt64.toNat_toBitVec,
    BitVec.toNat_neg, BitVec.toNat_ofNat]
  omega

/-- The double that is no number is always the same one. -/
theorem eq_ofMagnitude_of_isNaN {x : Float} (noNumber : x.isNaN = true) :
    x = ofMagnitude false (infinityBits + 2 ^ 51) := by
  obtain ⟨full, nonempty⟩ := (isNaN_unpack_iff x.toBits.toBitVec).mp noNumber
  have pattern := x.toModel.valid.eq_packedNaN full nonempty
  have bits : x.toBits = UInt64.ofNat (infinityBits + 2 ^ 51) :=
    UInt64.toBitVec_inj.mp pattern
  calc
    x = Float.ofBits x.toBits := (ofBits_toBits x).symm
    _ = ofMagnitude false (infinityBits + 2 ^ 51) := by rw [bits]; rfl

end EffectLisp.Number
