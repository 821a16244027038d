import Barscript.Proofs.Decimal.Bits
import Barscript.Proofs.Decimal.Digits

/-!
# Decimals read as doubles

A decimal `digits * 10 ^ exponent` becomes a double by one multiplication or one division
and a rounding. The factors are exact, for a power of ten too great for a double stays a
natural number; so the product or the quotient is the decimal itself, and it becomes the
double in whose interval it lies (`ofScientific_eq`).
-/

namespace Barscript.Decimal

open Float.Model Float.Model.UnpackedFloat

/-! ## Exact mantissas -/

/-- A mantissa with all its bits describes its own value. -/
theorem describes_exact {mantissa : ℕ} (hfull : 2 ^ 52 ≤ mantissa) (exponent : ℤ) :
    Describes mantissa exponent .exact (mantissa * 2 ^ exponent) where
  locates := by
    show (mantissa * 2 ^ exponent / 2 ^ exponent : ℚ) = mantissa
    field_simp
  fine := by
    have hbits : 52 ≤ mantissa.log2 := (Nat.le_log2 (by omega)).mpr hfull
    unfold shiftedExponent
    omega

/-- The value of a magnitude lies in its interval. -/
theorem contains_value {m : Magnitude} (hc : m.Canonical) :
    m.interval.Contains (m.mantissa * 2 ^ m.exponent) := by
  have hpos := hc.pos
  have hlow : m.interval.low < 4 * m.mantissa := by
    unfold Magnitude.interval
    dsimp only
    split <;> omega
  have hlow : (m.interval.low : ℚ) < 4 * m.mantissa := by exact_mod_cast hlow
  have hhigh : (m.interval.high : ℚ) = 4 * m.mantissa + 2 := by
    simp [Magnitude.interval]
  have hvalue : (m.mantissa * 2 ^ m.exponent / 2 ^ m.exponent : ℚ) = m.mantissa := by
    field_simp
  rw [contains_iff, hvalue, hhigh]
  split <;> constructor <;> linarith

section

variable {m : Magnitude} {mantissa mantissa' : ℕ} {exponent exponent' : ℤ}
  {hm : 0 < mantissa} {hm' : 0 < mantissa'}

/-- A product becomes the double in whose interval it lies. -/
theorem mul_eq (hc : m.Canonical) (hfull : 2 ^ 52 ≤ mantissa)
    (hx : m.interval.Contains (mantissa * 2 ^ exponent * (mantissa' * 2 ^ exponent'))) :
    UnpackedFloat.mul Format.binary64 (.finite .positive mantissa exponent hm)
      (.finite .positive mantissa' exponent' hm') =
        .finite .positive m.mantissa m.exponent hc.pos := by
  have hvalue : (mantissa * 2 ^ exponent * (mantissa' * 2 ^ exponent') : ℚ) =
      (mantissa * mantissa' : ℕ) * 2 ^ (exponent + exponent') := by
    rw [zpow_add₀ two_ne_zero, Nat.cast_mul]
    ring
  rw [hvalue] at hx
  exact roundWithAccuracy_eq
    (describes_exact (hfull.trans (Nat.le_mul_of_pos_right mantissa hm')) _) hc hx _

/-- The remainder tells where a quotient is. -/
theorem locates_quotient (n : ℕ) {d : ℕ} (hd : 0 < d) :
    Locates (.ofMantissaAndAccuracy (n / d) (accuracyOfFraction (n % d) d)) (n / d) := by
  have hdpos : (0 : ℚ) < d := by exact_mod_cast hd
  have hsplit : (n : ℚ) = d * (n / d : ℕ) + (n % d : ℕ) := by
    exact_mod_cast (Nat.div_add_mod n d).symm
  have hless : ((n % d : ℕ) : ℚ) < d := by exact_mod_cast Nat.mod_lt n hd
  unfold accuracyOfFraction
  split
  · rename_i hzero
    show (n / d : ℚ) = (n / d : ℕ)
    rw [hzero] at hsplit
    rw [div_eq_iff hdpos.ne', hsplit]
    push_cast
    ring
  · rename_i hrest
    have hpos : (0 : ℚ) < (n % d : ℕ) := by exact_mod_cast Nat.pos_of_ne_zero hrest
    cases hhalf : compare (2 * (n % d)) d with
    | lt =>
        have hlt : (2 * (n % d : ℕ) : ℚ) < d := by
          exact_mod_cast Nat.compare_eq_lt.mp hhalf
        show ((n / d : ℕ) : ℚ) < n / d ∧ (n / d : ℚ) < (n / d : ℕ) + 1 / 2
        rw [lt_div_iff₀ hdpos, div_lt_iff₀ hdpos]
        constructor <;> linarith
    | eq =>
        have heq : (2 * (n % d : ℕ) : ℚ) = d := by
          exact_mod_cast Nat.compare_eq_eq.mp hhalf
        show (n / d : ℚ) = (n / d : ℕ) + 1 / 2
        rw [div_eq_iff hdpos.ne']
        linarith
    | gt =>
        have hgt : (d : ℚ) < 2 * (n % d : ℕ) := by
          exact_mod_cast Nat.compare_eq_gt.mp hhalf
        show ((n / d : ℕ) : ℚ) + 1 / 2 < n / d ∧ (n / d : ℚ) < (n / d : ℕ) + 1
        rw [lt_div_iff₀ hdpos, div_lt_iff₀ hdpos]
        constructor <;> linarith

/-- The exponent of a quotient of two numbers with that many bits. -/
def quotientExponent (mantissa : ℕ) (exponent : ℤ) (mantissa' : ℕ) (exponent' : ℤ) : ℤ :=
  min (exponent - exponent')
    (max (mantissa.log2 + exponent - mantissa'.log2 - exponent' - 53) leastExponent)

theorem divCore_eq : divCore Format.binary64 mantissa exponent mantissa' exponent' =
    let quotient := quotientExponent mantissa exponent mantissa' exponent'
    let shifted := mantissa * 2 ^ (exponent - exponent' - quotient).toNat
    (shifted / mantissa', quotient, accuracyOfFraction (shifted % mantissa') mantissa') := by
  have hexponent : min (exponent - exponent') (Format.binary64.targetExponent
      (totalExponent mantissa exponent - totalExponent mantissa' exponent')) =
        quotientExponent mantissa exponent mantissa' exponent' := by
    have hbits : (Format.binary64.mantissaBits : ℤ) = 53 := rfl
    have hmin : Format.binary64.minExponent = leastExponent := rfl
    unfold Format.targetExponent totalExponent quotientExponent
    rw [hbits, hmin]
    omega
  unfold divCore
  dsimp only
  rw [hexponent, Nat.shiftLeft_eq]

/-- The quotient is shifted far enough to have all its bits. -/
theorem full_quotient (hm : 0 < mantissa) (hm' : 0 < mantissa') {shift : ℕ}
    (hshift : mantissa'.log2 + 53 ≤ mantissa.log2 + shift) :
    2 ^ 52 ≤ mantissa * 2 ^ shift / mantissa' := by
  rw [Nat.le_div_iff_mul_le hm']
  calc 2 ^ 52 * mantissa' ≤ 2 ^ 52 * 2 ^ (mantissa'.log2 + 1) :=
        Nat.mul_le_mul_left _ Nat.lt_log2_self.le
    _ = 2 ^ (mantissa'.log2 + 53) := by
        rw [← pow_add]
        congr 1
        omega
    _ ≤ 2 ^ (mantissa.log2 + shift) := Nat.pow_le_pow_right two_pos hshift
    _ ≤ mantissa * 2 ^ shift := by
        rw [pow_add]
        exact Nat.mul_le_mul_right _ (Nat.log2_self_le hm.ne')

/-- A quotient of two numbers, counted in units of its last bit. -/
theorem quotient_eq {quotient : ℤ} (hle : quotient ≤ exponent - exponent') :
    (mantissa * 2 ^ exponent / (mantissa' * 2 ^ exponent') / 2 ^ quotient : ℚ) =
      (mantissa * 2 ^ (exponent - exponent' - quotient).toNat : ℕ) / mantissa' := by
  have hpow : (2 : ℚ) ^ exponent =
      2 ^ (exponent - exponent' - quotient).toNat * 2 ^ exponent' * 2 ^ quotient := by
    rw [← zpow_natCast, ← zpow_add₀ two_ne_zero, ← zpow_add₀ two_ne_zero]
    congr 1
    omega
  rw [hpow]
  push_cast
  field_simp

theorem describes_quotient (hm : 0 < mantissa) (hm' : 0 < mantissa') :
    Describes (divCore Format.binary64 mantissa exponent mantissa' exponent').1
      (divCore Format.binary64 mantissa exponent mantissa' exponent').2.1
      (divCore Format.binary64 mantissa exponent mantissa' exponent').2.2
      (mantissa * 2 ^ exponent / (mantissa' * 2 ^ exponent')) := by
  rw [divCore_eq]
  dsimp only
  generalize hquotient : quotientExponent mantissa exponent mantissa' exponent' = quotient
  have hle : quotient ≤ exponent - exponent' := hquotient ▸ min_le_left _ _
  refine ⟨?_, ?_⟩
  · rw [quotient_eq hle]
    exact locates_quotient _ hm'
  · by_cases hleast : quotient ≤ leastExponent
    · exact hleast.trans (le_max_right _ _)
    · have hexponent : quotient ≤
          mantissa.log2 + exponent - mantissa'.log2 - exponent' - 53 := by
        unfold quotientExponent at hquotient
        omega
      exact (describes_exact (full_quotient hm hm' (by omega)) quotient).fine

/-- A quotient becomes the double in whose interval it lies. -/
theorem div_eq (hc : m.Canonical)
    (hx : m.interval.Contains (mantissa * 2 ^ exponent / (mantissa' * 2 ^ exponent'))) :
    UnpackedFloat.div Format.binary64 (.finite .positive mantissa exponent hm)
      (.finite .positive mantissa' exponent' hm') =
        .finite .positive m.mantissa m.exponent hc.pos :=
  roundWithAccuracy_eq (describes_quotient hm hm') hc hx _

end

/-! ## Powers of ten -/

/-- A whole number below `2 ^ 53` with its mantissa brought to 53 bits. -/
def wholeMagnitude (n : ℕ) : Magnitude :=
  ⟨n * 2 ^ (52 - n.log2), n.log2 - 52⟩

section

variable {n : ℕ}

theorem le_wholeMagnitude (hpos : 0 < n) (hlt : n < 2 ^ 53) :
    2 ^ 52 ≤ (wholeMagnitude n).mantissa := by
  have hbits : n.log2 < 53 := (Nat.log2_lt hpos.ne').mpr hlt
  calc 2 ^ 52 = 2 ^ n.log2 * 2 ^ (52 - n.log2) := by
        rw [← pow_add]
        congr 1
        omega
    _ ≤ n * 2 ^ (52 - n.log2) := Nat.mul_le_mul_right _ (Nat.log2_self_le hpos.ne')

theorem canonical_wholeMagnitude (hpos : 0 < n) (hlt : n < 2 ^ 53) :
    (wholeMagnitude n).Canonical := by
  have hfull := le_wholeMagnitude hpos hlt
  have hbits : n.log2 < 53 := (Nat.log2_lt hpos.ne').mpr hlt
  refine ⟨by omega, ?_, ?_, ?_, fun _ => hfull⟩
  · calc n * 2 ^ (52 - n.log2) < 2 ^ (n.log2 + 1) * 2 ^ (52 - n.log2) :=
          Nat.mul_lt_mul_of_pos_right Nat.lt_log2_self (by positivity)
      _ = 2 ^ 53 := by
          rw [← pow_add]
          congr 1
          omega
  · show leastExponent ≤ (n.log2 : ℤ) - 52
    unfold leastExponent
    omega
  · show (n.log2 : ℤ) - 52 ≤ 971
    omega

theorem value_wholeMagnitude (hpos : 0 < n) (hlt : n < 2 ^ 53) :
    ((wholeMagnitude n).mantissa * 2 ^ (wholeMagnitude n).exponent : ℚ) = n := by
  have hbits : n.log2 < 53 := (Nat.log2_lt hpos.ne').mpr hlt
  have hpow : (2 : ℚ) ^ (52 - n.log2) * 2 ^ ((n.log2 : ℤ) - 52) = 1 := by
    rw [← zpow_natCast, ← zpow_add₀ two_ne_zero]
    convert zpow_zero (2 : ℚ)
    omega
  unfold wholeMagnitude
  push_cast
  rw [mul_assoc, hpow, mul_one]

theorem ofNat_eq (hpos : 0 < n) (hlt : n < 2 ^ 53) :
    UnpackedFloat.ofNat Format.binary64 n =
      .finite .positive (wholeMagnitude n).mantissa (wholeMagnitude n).exponent
        (canonical_wholeMagnitude hpos hlt).pos := by
  have hc := canonical_wholeMagnitude hpos hlt
  have hbits : n.log2 < 53 := (Nat.log2_lt hpos.ne').mpr hlt
  have hexponent : shiftedExponent n 0 = n.log2 - 52 := by
    unfold shiftedExponent leastExponent
    omega
  have hshift : (0 - ((n.log2 : ℤ) - 52)).toNat = 52 - n.log2 := by omega
  have hround : UnpackedFloat.ofNat Format.binary64 n = roundWithAccuracy Format.binary64
      .positive (wholeMagnitude n).mantissa (wholeMagnitude n).exponent .exact := by
    unfold UnpackedFloat.ofNat UnpackedFloat.ofInt UnpackedFloat.normalize
    rw [Int.compare_eq_gt.mpr (by omega)]
    dsimp only
    unfold UnpackedFloat.round decreaseExponent
    rw [Int.toNat_natCast, targetExponent_eq, hexponent]
    dsimp only
    rw [hshift, Nat.shiftLeft_eq]
    have hsub : (0 : ℤ) - (52 - n.log2 : ℕ) = n.log2 - 52 := by omega
    rw [hsub]
    rfl
  rw [hround]
  exact roundWithAccuracy_eq (describes_exact (le_wholeMagnitude hpos hlt) _) hc
    (contains_value hc) _

/-- The double of a whole number has all its bits. -/
theorem toFloat_eq (hpos : 0 < n) (hlt : n < 2 ^ 53) :
    n.toUInt64.toFloat =
      ofMagnitude .positive (wholeMagnitude n) (canonical_wholeMagnitude hpos hlt) := by
  have hword : n.toUInt64.toNat = n :=
    UInt64.toNat_ofNat_of_lt' (hlt.trans (by decide))
  show Float.ofModel (.pack (UnpackedFloat.ofNat Format.binary64 n.toUInt64.toNat)) = _
  rw [hword, ofNat_eq hpos hlt]
  rfl

end

/-- Whether an unpacked double is exactly a whole number. -/
def isWhole (n : ℕ) : UnpackedFloat → Bool
  | .finite .positive mantissa exponent _ =>
    -52 ≤ exponent && mantissa * 2 ^ (exponent + 52).toNat == n * 2 ^ 52
  | _ => false

theorem isWhole_powerOfTen : ∀ e : Fin Float.exactlyRepresentablePowersOfTen.size,
    isWhole (10 ^ e.val) Float.exactlyRepresentablePowersOfTen[e].toModel.unpack = true := by
  decide

theorem value_of_isWhole {n : ℕ} {u : UnpackedFloat} (h : isWhole n u = true) :
    ∃ mantissa exponent hm, u = .finite .positive mantissa exponent hm ∧
      (mantissa * 2 ^ exponent : ℚ) = n := by
  unfold isWhole at h
  split at h
  · rename_i mantissa exponent hm
    rw [Bool.and_eq_true, decide_eq_true_eq, beq_iff_eq] at h
    obtain ⟨hexponent, hvalue⟩ := h
    refine ⟨mantissa, exponent, hm, rfl, ?_⟩
    have hvalue : (mantissa * 2 ^ (exponent + 52).toNat : ℚ) = n * 2 ^ 52 := by
      exact_mod_cast hvalue
    have hpow : (2 : ℚ) ^ (exponent + 52).toNat = 2 ^ exponent * 2 ^ 52 := by
      rw [← zpow_natCast, Int.toNat_of_nonneg (by omega), zpow_add₀ two_ne_zero]
      rfl
    rw [hpow, ← mul_assoc] at hvalue
    exact mul_right_cancel₀ (by positivity) hvalue
  · cases h

/-! ## Decimals -/

/-- A power of ten to a negative exponent divides. -/
theorem ten_zpow_of_neg {exponent : ℤ} (h : exponent < 0) :
    (10 : ℚ) ^ exponent = (10 ^ exponent.natAbs)⁻¹ := by
  rw [← zpow_natCast, ← zpow_neg]
  congr 1
  omega

theorem ten_zpow_of_nonneg {exponent : ℤ} (h : ¬exponent < 0) :
    (10 : ℚ) ^ exponent = 10 ^ exponent.natAbs := by
  rw [← zpow_natCast]
  congr 1
  omega

section

variable {m : Magnitude} {digits : ℕ} {exponent : ℤ}

/-- Few digits and a small power of ten are doubles themselves. -/
theorem ofScientific_fast (hc : m.Canonical) (hpos : 0 < digits) (hlt : digits < 2 ^ 53)
    (hexponent : exponent.natAbs < Float.exactlyRepresentablePowersOfTen.size)
    (hx : m.interval.Contains (digits * 10 ^ exponent)) :
    (if decide (exponent < 0) = true then
      digits.toUInt64.toFloat / Float.exactlyRepresentablePowersOfTen[exponent.natAbs]
    else digits.toUInt64.toFloat * Float.exactlyRepresentablePowersOfTen[exponent.natAbs]) =
      ofMagnitude .positive m hc := by
  obtain ⟨mantissa, power, hm, hunpack, hpower⟩ :=
    value_of_isWhole (isWhole_powerOfTen ⟨exponent.natAbs, hexponent⟩)
  change Float.exactlyRepresentablePowersOfTen[exponent.natAbs].toModel.unpack = _ at hunpack
  have hwhole := canonical_wholeMagnitude hpos hlt
  rw [toFloat_eq hpos hlt]
  push_cast at hpower
  split
  · rename_i hnegative
    rw [ten_zpow_of_neg (of_decide_eq_true hnegative), ← div_eq_mul_inv] at hx
    show Float.ofModel (.pack (UnpackedFloat.div Format.binary64
      (ofMagnitude .positive _ hwhole).toModel.unpack _)) = _
    rw [unpack_ofMagnitude, hunpack, div_eq hc]
    · rfl
    · rw [value_wholeMagnitude hpos hlt, hpower]
      exact hx
  · rename_i hnegative
    rw [ten_zpow_of_nonneg (mt decide_eq_true hnegative)] at hx
    show Float.ofModel (.pack (UnpackedFloat.mul Format.binary64
      (ofMagnitude .positive _ hwhole).toModel.unpack _)) = _
    rw [unpack_ofMagnitude, hunpack, mul_eq hc (le_wholeMagnitude hpos hlt)]
    · rfl
    · rw [value_wholeMagnitude hpos hlt, hpower]
      exact hx

/-- All other decimals become doubles by way of natural numbers. -/
theorem ofScientific_slow (hc : m.Canonical) (hpos : 0 < digits)
    (hhigh : exponent ≤ 2 ^ 11) (hlow : -(2 ^ 11) ≤ exponent + digits.log2)
    (hx : m.interval.Contains (digits * 10 ^ exponent)) :
    UnpackedFloat.ofScientific Format.binary64 digits exponent =
      .finite .positive m.mantissa m.exponent hc.pos := by
  unfold UnpackedFloat.ofScientific
  rw [dif_neg hpos.ne', if_neg (not_lt.mpr hhigh), if_neg (by dsimp only; omega)]
  split
  · rename_i hnonneg
    have hpower : ((10 ^ exponent.toNat : ℕ) : ℚ) * 2 ^ (0 : ℤ) = 10 ^ exponent := by
      rw [zpow_zero, mul_one, Nat.cast_pow, ← zpow_natCast, Int.toNat_of_nonneg hnonneg]
      rfl
    have hdigits : ((digits <<< 53 : ℕ) : ℚ) * 2 ^ (-53 : ℤ) = digits := by
      rw [Nat.shiftLeft_eq, Nat.cast_mul, zpow_neg]
      push_cast
      field_simp
    have hfull : 2 ^ 52 ≤ digits <<< 53 := by
      rw [Nat.shiftLeft_eq]
      calc 2 ^ 52 ≤ 1 * 2 ^ 53 := by norm_num
        _ ≤ digits * 2 ^ 53 := Nat.mul_le_mul_right _ hpos
    rw [← hdigits, ← hpower] at hx
    exact mul_eq hc hfull hx
  · rename_i hnegative
    apply div_eq hc
    rw [ten_zpow_of_neg (not_le.mp hnegative), ← div_eq_mul_inv] at hx
    have hnat : (-exponent).toNat = exponent.natAbs := by omega
    rw [hnat, zpow_zero, mul_one, mul_one]
    push_cast
    exact hx

/-- **A decimal becomes the double in whose interval it lies.** -/
theorem ofScientific_eq (hc : m.Canonical) (hpos : 0 < digits)
    (hhigh : exponent ≤ 2 ^ 11) (hlow : -(2 ^ 11) ≤ exponent + digits.log2)
    (hx : m.interval.Contains (digits * 10 ^ exponent)) :
    Float.ofScientific digits (exponent < 0) exponent.natAbs = ofMagnitude .positive m hc := by
  unfold Float.ofScientific
  split
  · rename_i hfast
    exact ofScientific_fast hc hpos hfast.1 _ hx
  · have hsigned : (if decide (exponent < 0) = true then Int.negOfNat exponent.natAbs
        else Int.ofNat exponent.natAbs) = exponent := by
      split <;> rename_i hsign
      · rw [decide_eq_true_eq] at hsign
        rw [Int.negOfNat_eq]
        show -(exponent.natAbs : ℤ) = exponent
        omega
      · rw [decide_eq_true_eq] at hsign
        exact Int.natAbs_of_nonneg (not_lt.mp hsign)
    dsimp only
    rw [hsigned]
    show Float.ofModel (.pack (UnpackedFloat.ofScientific Format.binary64 digits exponent)) = _
    rw [ofScientific_slow hc hpos hhigh hlow hx]
    rfl

end

/-! ## Texts of digits -/

section

variable {m : Magnitude} {x : ℚ}

/-- No number in the interval of a double is very small or very great. -/
theorem Interval.Contains.bounds (h : m.interval.Contains x) (hc : m.Canonical) :
    2 ^ (-1076 : ℤ) ≤ x ∧ x < 2 ^ (1024 : ℤ) := by
  constructor
  · have hunit : (0 : ℚ) < 2 ^ m.exponent := by positivity
    have hpos : (1 : ℚ) ≤ m.mantissa := by exact_mod_cast hc.pos
    have hlow := h.roundsTo.le.1
    have hquarter : (1 / 4 : ℚ) ≤ x / 2 ^ m.exponent := by linarith
    rw [le_div_iff₀ hunit] at hquarter
    calc (2 : ℚ) ^ (-1076 : ℤ) ≤ 2 ^ (m.exponent - 2) := by
          apply zpow_le_zpow_right₀ one_le_two
          have hleast := hc.least
          unfold leastExponent at hleast
          omega
      _ = 1 / 4 * 2 ^ m.exponent := by
          rw [zpow_sub₀ two_ne_zero]
          norm_num
          ring
      _ ≤ x := hquarter
  · apply (h.lt_zpow hc).trans_le
    apply zpow_le_zpow_right₀ one_le_two
    have hgreatest := hc.greatest
    omega

/-- Eight is less than ten. -/
theorem two_zpow_le {k : ℤ} (h : 0 ≤ k) : (2 : ℚ) ^ (3 * k) ≤ 10 ^ k := by
  rw [zpow_mul]
  exact zpow_le_zpow_left₀ h (by norm_num) (by norm_num)

theorem ten_zpow_le {k : ℤ} (h : k ≤ 0) : (10 : ℚ) ^ k ≤ 2 ^ (3 * k) := by
  have hinv := two_zpow_le (neg_nonneg.mpr h)
  rw [mul_neg, zpow_neg, zpow_neg] at hinv
  exact (inv_le_inv₀ (by positivity) (by positivity)).mp hinv

/-- A number in between has neither many places nor many zeros behind the point. -/
theorem places_bounds {places : ℤ} (hlow : (2 : ℚ) ^ (-1076 : ℤ) ≤ x)
    (hhigh : x < 2 ^ (1024 : ℤ)) (hplaces : 10 ^ (places - 1) ≤ x) (hplaces' : x < 10 ^ places) :
    -400 ≤ places ∧ places ≤ 400 := by
  constructor
  · by_contra hless
    have hten := ten_zpow_le (show places ≤ 0 by omega)
    have hpowers := (zpow_lt_zpow_iff_right₀ one_lt_two).mp
      ((hlow.trans_lt hplaces').trans_le hten)
    omega
  · by_contra hgreater
    have hten := two_zpow_le (show 0 ≤ places - 1 by omega)
    have hpowers := (zpow_lt_zpow_iff_right₀ one_lt_two).mp
      ((hten.trans hplaces).trans_lt hhigh)
    omega

/-- So digits without zeros in front count no more places than that. -/
theorem places_bounds_digits {c : Char} {rest : List Char} {exponent : ℤ}
    (hlow : (2 : ℚ) ^ (-1076 : ℤ) ≤ digitsValue (c :: rest) * 10 ^ exponent)
    (hhigh : digitsValue (c :: rest) * 10 ^ exponent < (2 : ℚ) ^ (1024 : ℤ))
    (hdigits : ∀ d ∈ c :: rest, d.isDigit = true) (hzero : c ≠ '0') :
    -400 ≤ exponent + ((c :: rest).length : ℤ) ∧
      exponent + ((c :: rest).length : ℤ) ≤ 400 := by
  have hleast : (10 ^ rest.length : ℚ) ≤ digitsValue (c :: rest) := by
    exact_mod_cast le_digitsValue (hdigits c (List.mem_cons_self ..)) hzero rest
  have hgreatest : (digitsValue (c :: rest) : ℚ) < 10 ^ (c :: rest).length := by
    exact_mod_cast digitsValue_lt hdigits
  apply places_bounds hlow hhigh
  · rw [List.length_cons, Nat.cast_succ, ← add_assoc, add_sub_cancel_right, add_comm,
      zpow_add₀ (by norm_num), zpow_natCast]
    gcongr
  · rw [add_comm, zpow_add₀ (by norm_num), zpow_natCast]
    gcongr

/-- Nor is it the product of many digits and a much smaller power of ten. -/
theorem exponent_bound {digits : ℕ} {exponent : ℤ}
    (hlow : (2 : ℚ) ^ (-1076 : ℤ) ≤ digits * 10 ^ exponent) :
    -(2 ^ 11) ≤ exponent + digits.log2 := by
  by_contra hless
  have hten := ten_zpow_le (show exponent ≤ 0 by omega)
  have hdigits : (digits : ℚ) ≤ 2 ^ ((digits.log2 : ℤ) + 1) := by
    exact_mod_cast Nat.lt_log2_self.le
  have hproduct : (digits * 10 ^ exponent : ℚ) ≤
      2 ^ ((digits.log2 : ℤ) + 1) * 2 ^ (3 * exponent) := by gcongr
  rw [← zpow_add₀ two_ne_zero] at hproduct
  have hpowers := (zpow_le_zpow_iff_right₀ one_lt_two).mp (hlow.trans hproduct)
  omega

end

/-- **Digits are read as the double in whose interval their number lies.** -/
theorem nearest_eq {m : Magnitude} (hc : m.Canonical) {digits : List Char} {exponent : ℤ}
    (hdigits : ∀ c ∈ digits, c.isDigit = true)
    (hx : m.interval.Contains (digitsValue digits * 10 ^ exponent)) :
    nearest digits exponent = ofMagnitude .positive m hc := by
  rw [← digitsValue_dropWhile] at hx
  obtain ⟨hlow, hhigh⟩ := hx.bounds hc
  have hpos : 0 < digitsValue (digits.dropWhile (· == '0')) := by
    apply Nat.pos_of_ne_zero
    intro hzero
    rw [hzero, Nat.cast_zero, zero_mul] at hlow
    exact absurd hlow (not_le.mpr (by positivity))
  unfold nearest
  dsimp only
  cases hsignificant : digits.dropWhile (· == '0') with
  | nil =>
      rw [hsignificant] at hpos
      exact absurd hpos (lt_irrefl 0)
  | cons c rest =>
      rw [hsignificant] at hx hpos hlow hhigh
      have hall : ∀ d ∈ c :: rest, d.isDigit = true := fun d hd =>
        hdigits d ((List.dropWhile_sublist _).subset (hsignificant ▸ hd))
      have hzero : c ≠ '0' := by
        have hhead := List.head?_dropWhile_not (· == '0') digits
        rw [hsignificant] at hhead
        simpa using hhead
      have hplaces := places_bounds_digits hlow hhigh hall hzero
      rw [if_neg (by simp), if_neg (not_lt.mpr hplaces.2), if_neg (not_lt.mpr hplaces.1)]
      apply ofScientific_eq hc hpos _ (exponent_bound hlow) hx
      have hlength : 0 ≤ ((c :: rest).length : ℤ) := Int.natCast_nonneg _
      omega

end Barscript.Decimal
