import Mathlib
import Barscript.Series.Number

/-!
# Counts are positive

A number of at least one counts at least one. This is read off the bits of a
double: a number that is not less than one has its leading bit at the place of
the one or before it, so that cutting off the fraction leaves something.
-/

namespace Barscript.Series

open Float.Model Float.Model.UnpackedFloat

/-- Except for the smallest exponent the leading bit of a mantissa is set. -/
theorem leadingBit (format : Format) (b : BitVec format.numBits) {s : Sign}
    {m : Nat} {e : Int} {hm : 0 < m}
    (hb : UnpackedFloat.unpack format b = .finite s m e hm) :
    e = 1 - (format.exponentBias + format.mantissaBitsWithoutImplicit) ∨
      2 ^ format.mantissaBitsWithoutImplicit ≤ m := by
  unfold UnpackedFloat.unpack at hb
  simp only at hb
  split at hb
  · split at hb <;> cases hb
  · split at hb
    · split at hb
      · cases hb
      · rename_i hexponent _
        cases hb
        left
        rw [hexponent]
        simp
        omega
    · cases hb
      right
      rw [BitVec.toNat_append]
      refine Nat.le_trans ?_ Nat.left_le_or
      simp [Nat.shiftLeft_eq]

theorem mantissa_shiftRight (em : ExtendedMantissa) (n : Nat) :
    (em >>> n).mantissa = em.mantissa / 2 ^ n := by
  show (Nat.repeat ExtendedMantissa.shiftRightOne n em).mantissa = _
  induction n with
  | zero => exact (Nat.div_one _).symm
  | succ n ih =>
      show (Nat.repeat ExtendedMantissa.shiftRightOne n em).mantissa / 2 = _
      rw [ih, Nat.div_div_eq_div_mul, Nat.pow_succ]

/-- The whole part of a positive number. -/
theorem roundToInt_positive (m : Nat) (e : Int) :
    roundToInt .positive m e =
      ((m * 2 ^ e.toNat / 2 ^ (-e).toNat : Nat) : Int) := by
  have hleft : (e - 0).toNat = e.toNat := by omega
  have hright : (0 - (e - (e.toNat : Int))).toNat = (-e).toNat := by omega
  unfold roundToInt decreaseExponent shiftToExponent
  simp only [Sign.apply, mantissa_shiftRight,
    ExtendedMantissa.ofMantissaAndAccuracy, Nat.shiftLeft_eq]
  rw [hleft, hright]

theorem unpack_one : (1.0 : Float).toModel.unpack =
    .finite .positive (2 ^ 52) (-52) (by decide) := by
  rfl

theorem one_le_ofNatClamp {k : Nat} (hk : 1 ≤ k) :
    1 ≤ (UInt64.ofNatClamp k).toNat := by
  unfold UInt64.ofNatClamp
  split
  · simpa using hk
  · decide

/-- The whole part of a number that is not less than one. -/
theorem one_le_toUInt64 {x : Float} (hx : 1.0 ≤ x) :
    1 ≤ x.toUInt64.toNat := by
  have hle : (1.0 : Float).toModel.unpack.le x.toModel.unpack = true :=
    of_decide_eq_true hx
  rw [unpack_one] at hle
  show 1 ≤ (UInt64.ofNatClamp
    (x.toModel.unpack.toInt 0 (UInt64.size - 1)).toNat).toNat
  apply one_le_ofNatClamp
  cases hbits : x.toModel.unpack with
  | notANumber =>
      rw [hbits] at hle
      cases hle
  | zero s =>
      rw [hbits] at hle
      cases hle
  | infinity s =>
      cases s with
      | positive => decide
      | negative =>
          rw [hbits] at hle
          cases hle
  | finite s m e hm =>
      cases s with
      | negative =>
          rw [hbits] at hle
          cases hle
      | positive =>
          have hbit := leadingBit Format.binary64
            x.toModel.toBits.toBitVec hbits
          rw [hbits] at hle
          have hcompare : ((compare (-52) e).then
            (compare (2 ^ 52) m)).isLE = true := hle
          -- The exponent is not below the one of the number one.
          have hexponent : -52 ≤ e := by
            by_cases hlt : e < -52
            · rw [Int.compare_eq_gt.mpr hlt] at hcompare
              cases hcompare
            · exact Int.not_lt.mp hlt
          have hmantissa : 2 ^ 52 ≤ m := by
            rcases hbit with hsmall | hbit
            · have hvalue : e = -1074 := hsmall
              omega
            · exact hbit
          have hshift : 2 ^ (-e).toNat ≤ 2 ^ 52 :=
            Nat.pow_le_pow_right (by decide) (by omega)
          have hgrow : m ≤ m * 2 ^ e.toNat :=
            Nat.le_mul_of_pos_right m (Nat.two_pow_pos _)
          have hquotient : 1 ≤ m * 2 ^ e.toNat / 2 ^ (-e).toNat :=
            Nat.div_pos (by omega) (Nat.two_pow_pos _)
          show 1 ≤ (roundToInt .positive m e).toNat
          rw [roundToInt_positive]
          exact hquotient

/-- **A number of at least one counts at least one.** -/
theorem one_le_toCount {x : Float} (hx : 1.0 ≤ x) : 1 ≤ toCount x := by
  have hwhole := one_le_toUInt64 hx
  unfold toCount
  dsimp only
  split
  · exact Nat.le_min.mpr ⟨Nat.le_add_left 1 _, by decide⟩
  · exact hwhole

end Barscript.Series
