import Barscript.Proofs.Decimal.Rounding

/-!
# The shortest digits lie in the interval

`shortest` tries finer and finer grids until a neighbour of the value lies in the interval.
The comparisons are those of the numbers themselves, brought to a common unit
(`holds_iff`), and the last grid is always fine enough: its step is shorter than the
interval (`ten_zpow_lt`). So the digits that are found read back.
-/

namespace Barscript.Decimal

/-! ## Grids -/

section

variable (i : Interval) (k : ℤ)

/-- The unit that an interval and a grid have in common. -/
def Interval.parts : ℕ :=
  2 ^ (-i.scale).toNat * 10 ^ (-k).toNat

theorem parts_pos : (0 : ℚ) < i.parts k := by
  unfold Interval.parts
  positivity

/-- A power with an exponent of either sign, in whole units. -/
theorem zpow_mul_pow_toNat {b : ℚ} (hb : b ≠ 0) (e : ℤ) :
    b ^ e * b ^ (-e).toNat = b ^ e.toNat := by
  rw [← zpow_natCast, ← zpow_natCast, ← zpow_add₀ hb]
  congr 1
  omega

theorem weight_eq : (i.weight k : ℚ) = 2 ^ i.scale * i.parts k := by
  unfold Interval.weight Interval.parts
  push_cast [Nat.pow_eq]
  rw [← zpow_mul_pow_toNat two_ne_zero i.scale]
  ring

theorem step_eq : (i.step k : ℚ) = 10 ^ k * i.parts k := by
  unfold Interval.step Interval.parts
  push_cast [Nat.pow_eq]
  rw [← zpow_mul_pow_toNat (by norm_num : (10 : ℚ) ≠ 0) k]
  ring

/-- Points are compared with the ends of an interval as the numbers they stand for. -/
theorem weight_le_step (a d : ℕ) :
    a * i.weight k ≤ d * i.step k ↔ (a * 2 ^ i.scale : ℚ) ≤ d * 10 ^ k := by
  rw [← @Nat.cast_le ℚ]
  push_cast
  rw [weight_eq, step_eq, ← mul_assoc, ← mul_assoc]
  exact mul_le_mul_iff_of_pos_right (parts_pos i k)

theorem step_le_weight (a d : ℕ) :
    d * i.step k ≤ a * i.weight k ↔ (d * 10 ^ k : ℚ) ≤ a * 2 ^ i.scale := by
  rw [← @Nat.cast_le ℚ]
  push_cast
  rw [weight_eq, step_eq, ← mul_assoc, ← mul_assoc]
  exact mul_le_mul_iff_of_pos_right (parts_pos i k)

theorem weight_lt_step (a d : ℕ) :
    a * i.weight k < d * i.step k ↔ (a * 2 ^ i.scale : ℚ) < d * 10 ^ k := by
  rw [← not_le, ← not_le, step_le_weight]

theorem step_lt_weight (a d : ℕ) :
    d * i.step k < a * i.weight k ↔ (d * 10 ^ k : ℚ) < a * 2 ^ i.scale := by
  rw [← not_le, ← not_le, weight_le_step]

variable {i k}

theorem holds_iff {d : ℕ} : i.holds k d = true ↔ i.Contains (d * 10 ^ k) := by
  unfold Interval.holds Interval.Contains
  dsimp only
  split <;>
    simp only [Bool.decide_and, Bool.and_eq_true, decide_eq_true_eq, weight_le_step, step_le_weight,
      weight_lt_step, step_lt_weight]

/-- What is taken from a grid lies in the interval. -/
theorem contains_of_onGrid? {tie : Tie} {d : ℕ} (h : i.onGrid? tie k = some d) :
    i.Contains (d * 10 ^ k) := by
  rw [← holds_iff]
  unfold Interval.onGrid? at h
  dsimp only at h
  split at h
  · cases h
  · cases h
    assumption
  · cases h
    assumption
  · rename_i hbelow habove
    cases h
    have hchosen (n : ℕ) (hn : i.holds k n = true) (hn' : i.holds k (n + 1) = true) :
        i.holds k (tie.choose n) = true := by
      unfold Tie.choose
      split
      · exact hn'
      · split
        · exact hn
        · exact hn'
    split
    · exact hbelow
    · split
      · exact habove
      · exact hchosen _ hbelow habove

end

/-! ## The last grid -/

theorem interval_low_lt {m : Magnitude} (h : 0 < m.mantissa) :
    m.interval.low < m.interval.value := by
  unfold Magnitude.interval
  dsimp only
  split <;> omega

theorem interval_high_eq (m : Magnitude) : m.interval.high = m.interval.value + 2 :=
  rfl

/-- What lies strictly between the ends is in the interval. -/
theorem contains_of_lt {i : Interval} {x : ℚ} (hlow : i.low * 2 ^ i.scale < x)
    (hhigh : x < i.high * 2 ^ i.scale) : i.Contains x := by
  unfold Interval.Contains
  split
  · exact ⟨hlow.le, hhigh.le⟩
  · exact ⟨hlow, hhigh⟩

/-- Of the two neighbours that a value has on a grid one is near enough, if the step of the
grid is shorter than the interval. -/
theorem holds_neighbour {m : Magnitude} (hpos : 0 < m.mantissa) {k : ℤ}
    (hstep : (10 : ℚ) ^ k < 2 ^ (m.interval.scale + 1)) {below : ℕ}
    (hle : (below * 10 ^ k : ℚ) ≤ m.interval.value * 2 ^ m.interval.scale)
    (hlt : (m.interval.value * 2 ^ m.interval.scale : ℚ) < (below + 1 : ℕ) * 10 ^ k) :
    m.interval.holds k below = true ∨ m.interval.holds k (below + 1) = true := by
  have hlow := interval_low_lt hpos
  have hhigh := interval_high_eq m
  generalize m.interval = i at *
  have hunit : (0 : ℚ) < 2 ^ i.scale := by positivity
  have hlow : (i.low * 2 ^ i.scale + 2 ^ i.scale : ℚ) ≤ i.value * 2 ^ i.scale := by
    have hlow : (i.low + 1 : ℚ) ≤ i.value := by exact_mod_cast hlow
    rw [← add_one_mul]
    gcongr
  have hhigh : (i.high * 2 ^ i.scale : ℚ) = i.value * 2 ^ i.scale + 2 * 2 ^ i.scale := by
    rw [hhigh]
    push_cast
    ring
  rw [zpow_add_one₀ two_ne_zero] at hstep
  rw [holds_iff, holds_iff]
  by_cases hlower : (i.low * 2 ^ i.scale : ℚ) < below * 10 ^ k
  · exact .inl (contains_of_lt hlower (by linarith))
  · right
    apply contains_of_lt
    · linarith
    · push_cast
      linarith

/-- **A grid whose step is shorter than the interval has a point in it.** -/
theorem isSome_onGrid? {m : Magnitude} (hpos : 0 < m.mantissa) (tie : Tie) {k : ℤ}
    (hstep : (10 : ℚ) ^ k < 2 ^ (m.interval.scale + 1)) :
    (m.interval.onGrid? tie k).isSome = true := by
  have hstep' : 0 < m.interval.step k := by
    unfold Interval.step
    rw [Nat.pow_eq, Nat.pow_eq]
    positivity
  have hbelow := Nat.div_mul_le_self (m.interval.value * m.interval.weight k) (m.interval.step k)
  have habove := Nat.lt_mul_div_succ (m.interval.value * m.interval.weight k) hstep'
  rw [Nat.mul_comm (m.interval.step k)] at habove
  have hnear := holds_neighbour hpos hstep ((step_le_weight ..).mp hbelow)
    ((weight_lt_step ..).mp habove)
  unfold Interval.onGrid?
  dsimp only
  split
  · rename_i hnot hnot'
    rw [hnot, hnot'] at hnear
    exact absurd hnear (by decide)
  · rfl
  · rfl
  · rfl

/-- Powers of ten and of two compare as their exponents do under `3 / 10`, and for negative
exponents under `28 / 93`, as bounds of the logarithm of two. -/
theorem ten_zpow_lt {k s : ℤ} (hk : k ≤ (s + 55) * 30103 / 100000 - 19) (hleast : -1076 ≤ s)
    (hgreatest : s ≤ 969) : (10 : ℚ) ^ k < 2 ^ (s + 1) := by
  have hpow (b : ℚ) (e : ℤ) (n : ℕ) : (b ^ e) ^ n = (b ^ n) ^ e := by
    rw [← zpow_natCast, ← zpow_natCast, ← zpow_mul, ← zpow_mul, mul_comm]
  by_cases hnonneg : 0 ≤ k
  · apply lt_of_pow_lt_pow_left₀ 3 (by positivity)
    calc ((10 : ℚ) ^ k) ^ 3 = (10 ^ 3) ^ k := hpow 10 k 3
      _ ≤ (2 ^ 10) ^ k := zpow_le_zpow_left₀ hnonneg (by norm_num) (by norm_num)
      _ = 2 ^ (10 * k) := by
          rw [zpow_mul]
          norm_cast
      _ < 2 ^ ((s + 1) * 3) := zpow_lt_zpow_right₀ one_lt_two (by omega)
      _ = (2 ^ (s + 1)) ^ 3 := by
          rw [zpow_mul]
          norm_cast
  · apply lt_of_pow_lt_pow_left₀ 28 (by positivity)
    have hinv : ((10 : ℚ) ^ 28) ^ k ≤ (2 ^ 93) ^ k := by
      rw [← neg_neg k, zpow_neg, zpow_neg ((2 : ℚ) ^ 93)]
      exact inv_anti₀ (by positivity)
        (zpow_le_zpow_left₀ (by omega) (by norm_num) (by norm_num))
    calc ((10 : ℚ) ^ k) ^ 28 = (10 ^ 28) ^ k := hpow 10 k 28
      _ ≤ (2 ^ 93) ^ k := hinv
      _ = 2 ^ (93 * k) := by
          rw [zpow_mul]
          norm_cast
      _ < 2 ^ ((s + 1) * 28) := zpow_lt_zpow_right₀ one_lt_two (by omega)
      _ = (2 ^ (s + 1)) ^ 28 := by
          rw [zpow_mul]
          norm_cast

section

variable {m : Magnitude}

/-- The last grid that is tried is fine enough. -/
theorem last_step_lt (hc : m.Canonical) :
    (10 : ℚ) ^ (m.interval.topExponent - (20 : ℕ)) < 2 ^ (m.interval.scale + 1) := by
  have hleast : -1074 ≤ m.exponent := hc.least
  have hgreatest := hc.greatest
  have hscale : m.interval.scale = m.exponent - 2 := rfl
  have hbits : m.interval.value.log2 < 55 := by
    have hvalue : m.interval.value = 4 * m.mantissa := rfl
    have hpos := hc.pos
    have hlt := hc.lt
    rw [hvalue]
    exact (Nat.log2_lt (by omega)).mpr (by omega)
  apply ten_zpow_lt <;> rw [hscale]
  · unfold Interval.topExponent
    rw [hscale]
    omega
  · omega
  · omega

/-- Zeros at the end are stripped without changing the number. -/
theorem value_stripZeros (fuel : ℕ) (d : Numeral) :
    ((d.stripZeros fuel).digits * 10 ^ (d.stripZeros fuel).exponent : ℚ) =
      d.digits * 10 ^ d.exponent := by
  induction fuel generalizing d with
  | zero => rfl
  | succ fuel ih =>
      rw [Numeral.stripZeros]
      split
      · rename_i hzero
        have hdigits : (d.digits : ℚ) = 10 * (d.digits / 10 : ℕ) := by
          exact_mod_cast (Nat.mul_div_cancel' (Nat.dvd_of_mod_eq_zero hzero.1)).symm
        rw [ih, hdigits, zpow_add_one₀ (by norm_num)]
        ring
      · rfl

/-- **The shortest digits lie in the interval of the double.** -/
theorem contains_shortest (hc : m.Canonical) (tie : Tie) :
    m.interval.Contains ((shortest tie m).digits * 10 ^ (shortest tie m).exponent) := by
  unfold shortest
  dsimp only
  rw [value_stripZeros]
  generalize hhit : ((List.range 21).findSome? fun (n : ℕ) =>
    (m.interval.onGrid? tie (m.interval.topExponent - n)).map fun d =>
      Numeral.mk d (m.interval.topExponent - n)) = hit
  cases hit with
  | none =>
      have hnone := List.findSome?_eq_none_iff.mp hhit 20 (by decide)
      have hlast := isSome_onGrid? hc.pos tie (last_step_lt hc)
      rw [Option.map_eq_none_iff.mp hnone] at hlast
      cases hlast
  | some d =>
      obtain ⟨n, -, hfound⟩ := List.exists_of_findSome?_eq_some hhit
      obtain ⟨digits, hdigits, rfl⟩ := Option.map_eq_some_iff.mp hfound
      exact contains_of_onGrid? hdigits

end

end Barscript.Decimal
