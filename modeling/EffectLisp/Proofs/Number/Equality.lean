import EffectLisp.Proofs.Number.Bits
import EffectLisp.Value.Equality

/-!
# When numbers are equal

Numbers that compare as equal have the same bits or are both zero.  So the equality of
values, by which the number that is no number equals itself, tells all numbers apart that
differ in their bits, except the two zeros.
-/

namespace EffectLisp

namespace Number

open Float.Model (Format UnpackedFloat)
open Float.Model.UnpackedFloat (Sign)

/-- Unpacked doubles compare as equal if they are the same and a number, or both zero. -/
theorem unpackedBeq_iff (a b : UnpackedFloat) :
    a.beq b = true ↔
      (a = b ∧ a.isNaN = false) ∨ ∃ sign other, a = .zero sign ∧ b = .zero other := by
  have negative : compare Sign.negative Sign.negative = .eq := rfl
  have positive : compare Sign.positive Sign.positive = .eq := rfl
  rcases a with (_ | _) | _ | (_ | _) | ⟨_ | _, m, e, _⟩ <;>
    rcases b with (_ | _) | _ | (_ | _) | ⟨_ | _, n, f, _⟩ <;>
    simp [UnpackedFloat.beq, UnpackedFloat.compare, UnpackedFloat.isNaN, negative, positive,
      and_comm]

/-- No two doubles unpack to the same. -/
theorem eq_of_unpack_eq {x y : Float} (same : x.toModel.unpack = y.toModel.unpack) : x = y := by
  have bits : x.toBits = y.toBits := by
    apply UInt64.toBitVec_inj.mp
    calc
      x.toBits.toBitVec = UnpackedFloat.pack Format.binary64 x.toModel.unpack :=
        (pack_unpack _ x.toModel.valid).symm
      _ = UnpackedFloat.pack Format.binary64 y.toModel.unpack := by rw [same]
      _ = y.toBits.toBitVec := pack_unpack _ y.toModel.valid
  rw [← ofBits_toBits x, bits, ofBits_toBits]

private theorem isZero_unpack_iff (bits : BitVec Format.binary64.numBits) :
    (∃ sign, UnpackedFloat.unpack Format.binary64 bits = .zero sign) ↔
      UnpackedFloat.unpackExponent bits = 0#11 ∧ UnpackedFloat.unpackMantissa bits = 0#52 := by
  simp only [UnpackedFloat.unpack]
  split
  · next full =>
      have notNone : UnpackedFloat.unpackExponent bits ≠ 0#11 := by
        rw [full]
        decide
      split <;> simp [notNone]
  · split
    · next none =>
        split
        · next empty => simp [none, empty]
        · next nonempty => simp [nonempty]
    · next some => simp [some]

/-- The doubles that unpack to a zero are those of no magnitude. -/
theorem unpack_eq_zero_iff (x : Float) :
    (∃ sign, x.toModel.unpack = .zero sign) ↔ magnitude x = 0 := by
  have bound : x.toBits.toNat < 2 ^ 64 := x.toBits.toNat_lt
  have exponent := toNat_unpackExponent x.toBits.toBitVec
  have mantissa := toNat_unpackMantissa x.toBits.toBitVec
  have parts : (∃ sign, x.toModel.unpack = .zero sign) ↔ _ :=
    isZero_unpack_iff x.toBits.toBitVec
  rw [parts, ← BitVec.toNat_inj, ← BitVec.toNat_inj, exponent, mantissa]
  simp only [magnitude, UInt64.toNat_toBitVec, BitVec.toNat_ofNat]
  omega

theorem beq_iff (x y : Float) :
    (x == y) = true ↔
      (x = y ∧ x.isNaN = false) ∨ (magnitude x = 0 ∧ magnitude y = 0) := by
  have compared : (x == y) = true ↔ _ := unpackedBeq_iff x.toModel.unpack y.toModel.unpack
  have same : x.toModel.unpack = y.toModel.unpack ↔ x = y :=
    ⟨eq_of_unpack_eq, fun equal => by rw [equal]⟩
  rw [compared, same, ← exists_and_exists_comm, unpack_eq_zero_iff, unpack_eq_zero_iff]
  rfl

end Number

/-- Numbers are equal as values if they are the same, or both zero. -/
theorem sameNumber_iff (x y : Float) :
    sameNumber x y = true ↔ x = y ∨ Number.magnitude x = 0 ∧ Number.magnitude y = 0 := by
  rw [sameNumber, Bool.or_eq_true, Bool.and_eq_true, Number.beq_iff]
  constructor
  · rintro ((⟨same, -⟩ | zeros) | ⟨noNumber, alsoNone⟩)
    · exact .inl same
    · exact .inr zeros
    · left
      rw [Number.eq_ofMagnitude_of_isNaN noNumber, Number.eq_ofMagnitude_of_isNaN alsoNone]
  · rintro (rfl | zeros)
    · cases number : x.isNaN with
      | false => exact .inl (.inl ⟨rfl, rfl⟩)
      | true => exact .inr ⟨rfl, rfl⟩
    · exact .inl (.inr zeros)

end EffectLisp
