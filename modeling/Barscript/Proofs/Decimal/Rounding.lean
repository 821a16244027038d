import Mathlib
import Barscript.Decimal.Shortest

/-!
# Rounding to the nearest double

A number is rounded in three steps: its mantissa is shifted until 53 bits are left, the bits
that fall out decide between the two neighbours, and a mantissa that gets too long by that
is shifted once more. The two bits that are kept of those that fall out say where the number
is within the last unit (`Locates`), which every shift preserves; so a number in the
interval of a double is rounded to that double (`roundWithAccuracy_eq`).
-/

namespace Barscript.Decimal

open Float.Model Float.Model.UnpackedFloat

/-! ## Shifting -/

/-- Where a number is: at the mantissa, below the half, at the half or above it. -/
def Locates (em : ExtendedMantissa) (x : ℚ) : Prop :=
  match em.roundBit, em.stickyBit with
  | false, false => x = em.mantissa
  | false, true => em.mantissa < x ∧ x < em.mantissa + 1 / 2
  | true, false => x = em.mantissa + 1 / 2
  | true, true => em.mantissa + 1 / 2 < x ∧ x < em.mantissa + 1

theorem Locates.le_and_lt {em : ExtendedMantissa} {x : ℚ} (h : Locates em x) :
    em.mantissa ≤ x ∧ x < em.mantissa + 1 := by
  obtain ⟨m, round, sticky⟩ := em
  unfold Locates at h
  cases round <;> cases sticky <;> simp only at h ⊢ <;> constructor <;> linarith

/-- **One shift keeps the place:** the bit that falls out becomes the round bit, and what was
there before is remembered by the sticky bit. -/
theorem Locates.shiftRightOne {em : ExtendedMantissa} {x : ℚ} (h : Locates em x) :
    Locates em.shiftRightOne (x / 2) := by
  obtain ⟨m, round, sticky⟩ := em
  have hsplit : (m : ℚ) = 2 * (m / 2 : ℕ) + (m % 2 : ℕ) := by
    exact_mod_cast (Nat.div_add_mod m 2).symm
  unfold Locates ExtendedMantissa.shiftRightOne
  unfold Locates at h
  rcases Nat.mod_two_eq_zero_or_one m with hbit | hbit <;>
    rw [hbit] at hsplit <;> push_cast at hsplit <;>
    cases round <;> cases sticky <;>
    simp [hbit] at h ⊢ <;> (try constructor) <;> linarith

/-- A whole shift keeps the place. -/
theorem Locates.shiftRight {em : ExtendedMantissa} {x : ℚ} (h : Locates em x) (n : ℕ) :
    Locates (em >>> n) (x / 2 ^ n) := by
  show Locates (n.repeat ExtendedMantissa.shiftRightOne em) _
  induction n with
  | zero =>
      rw [pow_zero, div_one]
      exact h
  | succ n ih =>
      rw [pow_succ, ← div_div]
      exact ih.shiftRightOne

/-! ## Rounding a mantissa -/

/-- A natural number is nearest to a number; from half way between two, the even one is. -/
def RoundsTo (x : ℚ) (m : ℕ) : Prop :=
  (2 * m - 1 < 2 * x ∧ 2 * x < 2 * m + 1) ∨
    m % 2 = 0 ∧ 2 * m - 1 ≤ 2 * x ∧ 2 * x ≤ 2 * m + 1

theorem RoundsTo.le {x : ℚ} {m : ℕ} (h : RoundsTo x m) :
    2 * m - 1 ≤ 2 * x ∧ 2 * x ≤ 2 * m + 1 := by
  rcases h with ⟨hlow, hhigh⟩ | ⟨-, h⟩
  · exact ⟨hlow.le, hhigh.le⟩
  · exact h

/-- The two bits decide for the nearest mantissa. -/
theorem Locates.roundedMantissa_eq {em : ExtendedMantissa} {x : ℚ} {m : ℕ}
    (h : Locates em x) (hm : RoundsTo x m) : em.roundedMantissa = m := by
  obtain ⟨hlow, hhigh⟩ := hm.le
  obtain ⟨n, round, sticky⟩ := em
  unfold Locates at h
  cases round <;> cases sticky <;> simp only at h
  case false.false =>
    have hle : (2 * n : ℚ) ≤ 2 * m + 1 := by linarith
    have hge : (2 * m : ℚ) ≤ 2 * n + 1 := by linarith
    norm_cast at hle hge
    show n = m
    omega
  case false.true =>
    have hlt : (2 * n : ℚ) < 2 * m + 1 := by linarith
    have hgt : (2 * m : ℚ) < 2 * n + 2 := by linarith
    norm_cast at hlt hgt
    show n = m
    omega
  case true.false =>
    show n + n % 2 = m
    rcases hm with ⟨hlow, hhigh⟩ | ⟨heven, -⟩
    · have hlt : (2 * n : ℚ) < 2 * m := by linarith
      have hgt : (2 * m : ℚ) < 2 * n + 2 := by linarith
      norm_cast at hlt hgt
      omega
    · have hle : (2 * n : ℚ) ≤ 2 * m := by linarith
      have hge : (2 * m : ℚ) ≤ 2 * n + 2 := by linarith
      norm_cast at hle hge
      omega
  case true.true =>
    have hlt : (2 * n : ℚ) < 2 * m := by linarith
    have hgt : (2 * m : ℚ) < 2 * n + 3 := by linarith
    norm_cast at hlt hgt
    show n + 1 = m
    omega

/-! ## Intervals -/

/-- The number lies in an interval. -/
def Interval.Contains (i : Interval) (x : ℚ) : Prop :=
  if i.closed then i.low * 2 ^ i.scale ≤ x ∧ x ≤ i.high * 2 ^ i.scale
  else i.low * 2 ^ i.scale < x ∧ x < i.high * 2 ^ i.scale

/-- The magnitudes of the finite doubles but zero: at most 53 bits, and fewer only at the
least exponent. -/
structure Magnitude.Canonical (x : Magnitude) : Prop where
  pos : 0 < x.mantissa
  lt : x.mantissa < 2 ^ 53
  least : leastExponent ≤ x.exponent
  greatest : x.exponent ≤ 971
  full : leastExponent < x.exponent → 2 ^ 52 ≤ x.mantissa

section

variable {m : Magnitude} {x : ℚ}

/-- A quarter of the last bit. -/
theorem two_zpow_scale (m : Magnitude) :
    (2 : ℚ) ^ m.interval.scale = 2 ^ m.exponent / 4 := by
  show (2 : ℚ) ^ (m.exponent - 2) = _
  rw [zpow_sub₀ two_ne_zero]
  norm_num

/-- Membership in quarters of the last bit. -/
theorem contains_iff : m.interval.Contains x ↔
    if m.interval.closed
    then m.interval.low ≤ 4 * (x / 2 ^ m.exponent) ∧
      4 * (x / 2 ^ m.exponent) ≤ m.interval.high
    else m.interval.low < 4 * (x / 2 ^ m.exponent) ∧
      4 * (x / 2 ^ m.exponent) < m.interval.high := by
  have hunit : (0 : ℚ) < 2 ^ m.exponent := by positivity
  have hquarters : 4 * (x / 2 ^ m.exponent) = x / (2 ^ m.exponent / 4) := by field_simp
  have hquarter : (0 : ℚ) < 2 ^ m.exponent / 4 := by positivity
  unfold Interval.Contains
  rw [two_zpow_scale, hquarters, le_div_iff₀ hquarter, div_le_iff₀ hquarter,
    lt_div_iff₀ hquarter, div_lt_iff₀ hquarter]

theorem Interval.Contains.le (h : m.interval.Contains x) :
    m.interval.low ≤ 4 * (x / 2 ^ m.exponent) ∧
      4 * (x / 2 ^ m.exponent) ≤ m.interval.high := by
  rw [contains_iff] at h
  split at h
  · exact h
  · exact ⟨h.1.le, h.2.le⟩

theorem le_low (m : Magnitude) : 4 * m.mantissa ≤ m.interval.low + 2 := by
  unfold Magnitude.interval
  dsimp only
  split <;> omega

/-- In units of the last bit the interval reaches half a unit to both sides, and the ends
belong to it when the mantissa is even. -/
theorem Interval.Contains.roundsTo (h : m.interval.Contains x) :
    RoundsTo (x / 2 ^ m.exponent) m.mantissa := by
  have hlow : (4 * m.mantissa : ℚ) ≤ m.interval.low + 2 := by exact_mod_cast le_low m
  have hhigh : (m.interval.high : ℚ) = 4 * m.mantissa + 2 := by
    simp [Magnitude.interval]
  rw [contains_iff, hhigh] at h
  split at h
  · rename_i hclosed
    exact .inr ⟨of_decide_eq_true hclosed, by linarith [h.1], by linarith [h.2]⟩
  · exact .inl ⟨by linarith [h.1], by linarith [h.2]⟩

/-- Of a full mantissa the interval begins at most a quarter of a unit below the least one,
which is half a unit for the exponent below. -/
theorem Interval.Contains.le_full (h : m.interval.Contains x)
    (hnormal : leastExponent < m.exponent) (hfull : 2 ^ 52 ≤ m.mantissa) :
    2 ^ 52 - 1 / 4 ≤ x / 2 ^ m.exponent := by
  have hlow : 4 * 2 ^ 52 ≤ m.interval.low + 1 := by
    unfold Magnitude.interval fullMantissa
    dsimp only
    rw [Nat.pow_eq]
    split <;> omega
  have hlow : (4 * 2 ^ 52 : ℚ) ≤ m.interval.low + 1 := by exact_mod_cast hlow
  linarith [h.le.1]

end

/-! ## Rounding to a double -/

/-- The exponent that a number is shifted to. -/
def shiftedExponent (mantissa : ℕ) (exponent : ℤ) : ℤ :=
  max (mantissa.log2 + exponent - 52) leastExponent

theorem targetExponent_eq (mantissa : ℕ) (exponent : ℤ) :
    Format.binary64.targetExponent (totalExponent mantissa exponent) =
      shiftedExponent mantissa exponent := by
  have hbits : (Format.binary64.mantissaBits : ℤ) = 53 := rfl
  have hmin : Format.binary64.minExponent = leastExponent := rfl
  unfold Format.targetExponent totalExponent shiftedExponent
  rw [hbits, hmin]
  congr 1
  omega

section

variable {mantissa : ℕ} {exponent : ℤ} {accuracy : Accuracy} {x : ℚ}

theorem shiftToTargetExponent_eq (h : exponent ≤ shiftedExponent mantissa exponent) :
    shiftToTargetExponent Format.binary64 mantissa exponent accuracy =
      (ExtendedMantissa.ofMantissaAndAccuracy mantissa accuracy >>>
        (shiftedExponent mantissa exponent - exponent).toNat,
        shiftedExponent mantissa exponent) := by
  have hshift : ((shiftedExponent mantissa exponent - exponent).toNat : ℤ) =
      shiftedExponent mantissa exponent - exponent :=
    Int.toNat_of_nonneg (sub_nonneg.mpr h)
  unfold shiftToTargetExponent shiftToExponent
  rw [targetExponent_eq]
  dsimp only
  rw [hshift, add_sub_cancel]

/-- A mantissa and an accuracy that describe a number with enough bits. -/
structure Describes (mantissa : ℕ) (exponent : ℤ) (accuracy : Accuracy) (x : ℚ) : Prop where
  locates : Locates (.ofMantissaAndAccuracy mantissa accuracy) (x / 2 ^ exponent)
  fine : exponent ≤ shiftedExponent mantissa exponent

/-- What is left after the first shift still locates the number. -/
theorem Describes.shifted (h : Describes mantissa exponent accuracy x) :
    Locates (shiftToTargetExponent Format.binary64 mantissa exponent accuracy).1
      (x / 2 ^ shiftedExponent mantissa exponent) := by
  have hle := h.fine
  rw [shiftToTargetExponent_eq hle]
  have hpow : (2 : ℚ) ^ shiftedExponent mantissa exponent =
      2 ^ exponent * 2 ^ (shiftedExponent mantissa exponent - exponent).toNat := by
    rw [← zpow_natCast, ← zpow_add₀ two_ne_zero]
    congr 1
    omega
  rw [hpow, ← div_div]
  exact h.locates.shiftRight _

theorem ofMantissaAndAccuracy_mantissa :
    (ExtendedMantissa.ofMantissaAndAccuracy mantissa accuracy).mantissa = mantissa := by
  unfold ExtendedMantissa.ofMantissaAndAccuracy
  split <;> rfl

/-- The number has at most 53 bits above the exponent it is shifted to. -/
theorem Describes.lt (h : Describes mantissa exponent accuracy x) :
    x < 2 ^ (shiftedExponent mantissa exponent + 53) := by
  have hlt := h.locates.le_and_lt.2
  rw [ofMantissaAndAccuracy_mantissa, div_lt_iff₀ (by positivity)] at hlt
  have hbits : (mantissa + 1 : ℚ) ≤ 2 ^ (mantissa.log2 + 1) := by
    exact_mod_cast Nat.lt_log2_self
  calc x < (mantissa + 1) * 2 ^ exponent := hlt
    _ ≤ 2 ^ (mantissa.log2 + 1) * 2 ^ exponent := by gcongr
    _ = 2 ^ ((mantissa.log2 : ℤ) + 1 + exponent) := by
      rw [zpow_add₀ two_ne_zero]
      norm_cast
    _ ≤ 2 ^ (shiftedExponent mantissa exponent + 53) := by
      apply zpow_le_zpow_right₀ one_le_two
      unfold shiftedExponent
      omega

/-- Unless it is shifted to the least exponent, it has exactly 53 bits above it. -/
theorem Describes.le (h : Describes mantissa exponent accuracy x)
    (hnormal : leastExponent < shiftedExponent mantissa exponent) :
    2 ^ (shiftedExponent mantissa exponent + 52) ≤ x := by
  have hfine := h.fine
  have hexponent : shiftedExponent mantissa exponent = mantissa.log2 + exponent - 52 := by
    unfold shiftedExponent at hnormal ⊢
    omega
  have hpos : mantissa ≠ 0 := by
    rintro rfl
    rw [Nat.log2_zero] at hexponent
    omega
  have hle := h.locates.le_and_lt.1
  rw [ofMantissaAndAccuracy_mantissa, le_div_iff₀ (by positivity)] at hle
  have hbits : (2 ^ mantissa.log2 : ℚ) ≤ mantissa := by
    exact_mod_cast Nat.log2_self_le hpos
  calc (2 : ℚ) ^ (shiftedExponent mantissa exponent + 52)
      = 2 ^ ((mantissa.log2 : ℤ) + exponent) := by rw [hexponent, sub_add_cancel]
    _ = 2 ^ mantissa.log2 * 2 ^ exponent := by
      rw [zpow_add₀ two_ne_zero]
      norm_cast
    _ ≤ mantissa * 2 ^ exponent := by gcongr
    _ ≤ x := hle

end

section

variable {m : Magnitude}

/-- A mantissa of at most 53 bits is not shifted again. -/
theorem Magnitude.Canonical.shift (hc : m.Canonical) :
    shiftToTargetExponent Format.binary64 m.mantissa m.exponent .exact =
      (⟨m.mantissa, false, false⟩, m.exponent) := by
  have hbits : m.mantissa.log2 < 53 := (Nat.log2_lt hc.pos.ne').mpr hc.lt
  have hexponent : shiftedExponent m.mantissa m.exponent = m.exponent := by
    have hleast := hc.least
    unfold shiftedExponent
    by_cases hnormal : leastExponent < m.exponent
    · have hfull : 52 ≤ m.mantissa.log2 := (Nat.le_log2 hc.pos.ne').mpr (hc.full hnormal)
      omega
    · omega
  rw [shiftToTargetExponent_eq hexponent.ge, hexponent, sub_self]
  rfl

/-- A mantissa that rounding made too long by one bit is shifted once. -/
theorem shift_overlong {exponent : ℤ} (h : leastExponent ≤ exponent) :
    shiftToTargetExponent Format.binary64 (2 ^ 53) exponent .exact =
      (⟨2 ^ 52, false, false⟩, exponent + 1) := by
  have hexponent : shiftedExponent (2 ^ 53) exponent = exponent + 1 := by
    unfold shiftedExponent
    rw [Nat.log2_two_pow]
    omega
  rw [shiftToTargetExponent_eq (by omega), hexponent, add_sub_cancel_left]
  rfl

end

section

variable {mantissa : ℕ} {exponent : ℤ} {accuracy : Accuracy} {x : ℚ} {m : Magnitude}

/-- Two shifts and the rounding between them. -/
theorem roundWithAccuracy_of_shifts {rounded : ℕ} {sign : Sign}
    (hfine : exponent ≤ shiftedExponent mantissa exponent)
    (hrounded : (shiftToTargetExponent Format.binary64 mantissa exponent
      accuracy).1.roundedMantissa = rounded)
    (hshift : shiftToTargetExponent Format.binary64 rounded
      (shiftedExponent mantissa exponent) .exact =
        (⟨m.mantissa, false, false⟩, m.exponent)) (hpos : 0 < m.mantissa) :
    roundWithAccuracy Format.binary64 sign mantissa exponent accuracy =
      .finite sign m.mantissa m.exponent hpos := by
  have hsecond : (shiftToTargetExponent Format.binary64 mantissa exponent accuracy).2 =
      shiftedExponent mantissa exponent := by
    rw [shiftToTargetExponent_eq hfine]
  unfold roundWithAccuracy
  simp only [hrounded, hsecond, hshift]
  rw [dif_neg hpos.ne']

/-- A number in the interval of a double has at most 53 bits above its exponent. -/
theorem Interval.Contains.lt_zpow (hx : m.interval.Contains x) (hc : m.Canonical) :
    x < 2 ^ (m.exponent + 53) := by
  have hunit : (0 : ℚ) < 2 ^ m.exponent := by positivity
  have hhigh := hx.roundsTo.le.2
  have hbits : (m.mantissa + 1 : ℚ) ≤ 2 ^ 53 := by exact_mod_cast hc.lt
  rw [zpow_add₀ two_ne_zero, mul_comm, ← div_lt_iff₀ hunit]
  norm_num at hbits ⊢
  linarith

/-- Unless that is the least exponent, it has 52 bits above it or more. -/
theorem Interval.Contains.zpow_lt (hx : m.interval.Contains x) (hc : m.Canonical)
    (hnormal : leastExponent < m.exponent) : 2 ^ (m.exponent + 51) < x := by
  have hunit : (0 : ℚ) < 2 ^ m.exponent := by positivity
  have hlow := hx.le_full hnormal (hc.full hnormal)
  rw [zpow_add₀ two_ne_zero, mul_comm, ← lt_div_iff₀ hunit]
  norm_num at hlow ⊢
  linarith

/-- A greater exponent than that of the double would need 53 bits above it. -/
theorem Describes.exponent_le (h : Describes mantissa exponent accuracy x)
    (hc : m.Canonical) (hx : m.interval.Contains x) :
    shiftedExponent mantissa exponent ≤ m.exponent := by
  by_contra hgreater
  have hnormal : leastExponent < shiftedExponent mantissa exponent :=
    lt_of_le_of_lt hc.least (not_le.mp hgreater)
  have hless := (zpow_lt_zpow_iff_right₀ one_lt_two).mp
    ((h.le hnormal).trans_lt (hx.lt_zpow hc))
  omega

/-- The exponent that a number in the interval of a double is shifted to is that of the
double, or the one below it for a number just below a power of two. -/
theorem Describes.exponent_cases (h : Describes mantissa exponent accuracy x)
    (hc : m.Canonical) (hx : m.interval.Contains x) :
    shiftedExponent mantissa exponent = m.exponent ∨
      m.mantissa = 2 ^ 52 ∧ leastExponent < m.exponent ∧
        shiftedExponent mantissa exponent = m.exponent - 1 := by
  rcases (h.exponent_le hc hx).eq_or_lt with heq | hless
  · exact .inl heq
  · right
    have hnormal : leastExponent < m.exponent :=
      lt_of_le_of_lt (le_max_right _ _) hless
    have hfull := hc.full hnormal
    have hnear := (zpow_lt_zpow_iff_right₀ one_lt_two).mp ((hx.zpow_lt hc hnormal).trans h.lt)
    have hexponent : shiftedExponent mantissa exponent = m.exponent - 1 := by omega
    refine ⟨?_, hnormal, hexponent⟩
    -- A greater mantissa would be too far above the power of two.
    by_contra hne
    have hgreater : (2 ^ 52 + 1 : ℚ) ≤ m.mantissa := by
      have hsucc : 2 ^ 52 + 1 ≤ m.mantissa := by omega
      exact_mod_cast hsucc
    have hlow := hx.roundsTo.le.1
    have hhigh := h.lt
    rw [hexponent, show m.exponent - 1 + 53 = m.exponent + 52 by ring,
      zpow_add₀ two_ne_zero, mul_comm, ← div_lt_iff₀ (by positivity)] at hhigh
    norm_num at hhigh
    linarith

/-- **A number in the interval of a double is rounded to that double.** -/
theorem roundWithAccuracy_eq (h : Describes mantissa exponent accuracy x)
    (hc : m.Canonical) (hx : m.interval.Contains x) (sign : Sign) :
    roundWithAccuracy Format.binary64 sign mantissa exponent accuracy =
      .finite sign m.mantissa m.exponent hc.pos := by
  rcases h.exponent_cases hc hx with hexponent | ⟨hfull, hnormal, hexponent⟩
  · have hlocated := h.shifted
    rw [hexponent] at hlocated
    refine roundWithAccuracy_of_shifts h.fine
      (hlocated.roundedMantissa_eq hx.roundsTo) ?_ hc.pos
    rw [hexponent]
    exact hc.shift
  · -- The number is rounded up to the power of two, which is one bit too long.
    have hlocated := h.shifted
    have hrounds : RoundsTo (x / 2 ^ shiftedExponent mantissa exponent) (2 ^ 53) := by
      have hlow := hx.le_full hnormal hfull.ge
      have hhigh := h.lt
      rw [hexponent, show m.exponent - 1 + 53 = m.exponent + 52 by ring,
        zpow_add₀ two_ne_zero, mul_comm, ← div_lt_iff₀ (by positivity)] at hhigh
      have hdouble : x / 2 ^ (m.exponent - 1) = 2 * (x / 2 ^ m.exponent) := by
        rw [zpow_sub_one₀ two_ne_zero]
        field_simp
      rw [hexponent, hdouble]
      norm_num at hlow hhigh
      exact .inr ⟨by norm_num, by push_cast; linarith, by push_cast; linarith⟩
    refine roundWithAccuracy_of_shifts h.fine (hlocated.roundedMantissa_eq hrounds) ?_ hc.pos
    rw [hexponent, shift_overlong (by omega), hfull, sub_add_cancel]

end

end Barscript.Decimal
