import Mathlib
import Barscript.Series.Number

/-!
# The order of defined numbers

A comparison with an undefined number is false; on the other numbers `<` and `≤` are a total order
in which only the two zeros are equal without being the same. All of this is read off one place,
the `rank` of a number: its side of zero, its exponent, its mantissa.
-/

namespace Barscript.Series

open Float.Model Float.Model.UnpackedFloat

/-! ## Undefined numbers -/

section

variable {x : Float}

theorem unpack_of_isNaN (h : x.isNaN = true) : x.toModel.unpack = .notANumber := by
  change x.toModel.unpack.isNaN = true at h
  revert h
  cases x.toModel.unpack with
  | notANumber => exact fun _ => rfl
  | _ => exact nofun

theorem unpack_ne_notANumber (h : x.isNaN = false) : x.toModel.unpack ≠ .notANumber := by
  change x.toModel.unpack.isNaN = false at h
  intro hx
  rw [hx] at h
  cases h

/-- There is one undefined number. -/
theorem eq_undefined (h : x.isNaN = true) : x = undefined := by
  rw [Float.isNaN_eq_decide_eq_nan, decide_eq_true_eq] at h
  rw [h]
  rfl

end

/-! ## Ranks -/

/-- The place of a number in the order. -/
def rank : UnpackedFloat → ℤ ×ₗ ℤ ×ₗ ℤ
  | .notANumber | .zero _ => toLex (0, toLex (0, 0))
  | .infinity s => toLex (s.apply 2, toLex (0, 0))
  | .finite s m e _ => toLex (s.apply 1, toLex (s.apply e, s.apply m))

theorem compare_natCast (m n : ℕ) : compare (m : ℤ) (n : ℤ) = compare m n := by
  rw [← cmp_eq_compare, ← cmp_eq_compare, Int.natCast_strictMono.cmp_map_eq]

theorem compare_neg (m n : ℤ) : compare (-m) (-n) = (compare m n).swap := by
  have hanti : StrictAnti fun a : ℤ => -a := fun _ _ h => Int.neg_lt_neg h
  rw [← cmp_eq_compare, ← cmp_eq_compare, cmp_swap]
  exact hanti.cmp_map_eq m n

/-- **Numbers are compared by their ranks.** -/
theorem compare_eq_compare_rank {u v : UnpackedFloat} (hu : u ≠ .notANumber)
    (hv : v ≠ .notANumber) : u.compare v = some (compare (rank u) (rank v)) := by
  cases u with
  | notANumber => exact absurd rfl hu
  | zero s =>
      cases v with
      | notANumber => exact absurd rfl hv
      | zero t => rfl
      | infinity t => cases t <;> rfl
      | finite t n f hn => cases t <;> rfl
  | infinity s =>
      cases v with
      | notANumber => exact absurd rfl hv
      | zero t => cases s <;> rfl
      | infinity t => cases s <;> cases t <;> rfl
      | finite t n f hn => cases s <;> cases t <;> rfl
  | finite s m e hm =>
      cases v with
      | notANumber => exact absurd rfl hv
      | zero t => cases s <;> rfl
      | infinity t => cases s <;> cases t <;> rfl
      | finite t n f hn =>
          cases s with
          | negative =>
              cases t with
              | positive => rfl
              | negative =>
                  show some ((compare e f).then (compare m n)).swap =
                    some ((compare (-e) (-f)).then (compare (-(m : ℤ)) (-(n : ℤ))))
                  rw [compare_neg, compare_neg, compare_natCast, Ordering.swap_then]
          | positive =>
              cases t with
              | negative => rfl
              | positive =>
                  show some ((compare e f).then (compare m n)) =
                    some ((compare e f).then (compare (m : ℤ) (n : ℤ)))
                  rw [compare_natCast]

/-! ## Comparisons -/

section

variable {x y z : Float}

theorem lt_iff_unpack : x < y ↔ x.toModel.unpack.compare y.toModel.unpack = some .lt := by
  have hlt : x < y ↔ x.toModel.unpack.lt y.toModel.unpack = true :=
    ⟨of_decide_eq_true, decide_eq_true⟩
  rw [hlt, UnpackedFloat.lt, beq_iff_eq]

theorem le_iff_unpack :
    x ≤ y ↔ (x.toModel.unpack.compare y.toModel.unpack).any Ordering.isLE = true :=
  ⟨of_decide_eq_true, decide_eq_true⟩

/-- What compares at all is defined. -/
theorem defined_of_isSome_compare
    (h : (x.toModel.unpack.compare y.toModel.unpack).isSome = true) :
    x.isNaN = false ∧ y.isNaN = false := by
  constructor
  · apply Bool.eq_false_iff.mpr
    intro hx
    rw [unpack_of_isNaN hx] at h
    cases h
  · apply Bool.eq_false_iff.mpr
    intro hy
    rw [unpack_of_isNaN hy] at h
    revert h
    cases x.toModel.unpack <;> exact nofun

theorem defined_of_lt (h : x < y) : x.isNaN = false ∧ y.isNaN = false :=
  defined_of_isSome_compare (by rw [lt_iff_unpack.mp h]; rfl)

theorem defined_of_le (h : x ≤ y) : x.isNaN = false ∧ y.isNaN = false := by
  have hany := le_iff_unpack.mp h
  apply defined_of_isSome_compare
  cases horder : x.toModel.unpack.compare y.toModel.unpack with
  | none =>
      rw [horder] at hany
      cases hany
  | some order => rfl

theorem lt_iff_rank (hx : x.isNaN = false) (hy : y.isNaN = false) :
    x < y ↔ rank x.toModel.unpack < rank y.toModel.unpack := by
  rw [lt_iff_unpack,
    compare_eq_compare_rank (unpack_ne_notANumber hx) (unpack_ne_notANumber hy),
    Option.some_inj, compare_lt_iff_lt]

theorem le_iff_rank (hx : x.isNaN = false) (hy : y.isNaN = false) :
    x ≤ y ↔ rank x.toModel.unpack ≤ rank y.toModel.unpack := by
  rw [le_iff_unpack,
    compare_eq_compare_rank (unpack_ne_notANumber hx) (unpack_ne_notANumber hy), Option.any_some,
    Ordering.isLE_iff_ne_gt, compare_gt_iff_gt, not_lt]

theorem beq_iff_rank (hx : x.isNaN = false) (hy : y.isNaN = false) :
    (x == y) = true ↔ rank x.toModel.unpack = rank y.toModel.unpack := by
  have hbeq : (x == y) = x.toModel.unpack.beq y.toModel.unpack := rfl
  rw [hbeq, UnpackedFloat.beq,
    compare_eq_compare_rank (unpack_ne_notANumber hx) (unpack_ne_notANumber hy), beq_iff_eq,
    Option.some_inj, compare_eq_iff_eq]

theorem le_iff_not_lt (hx : x.isNaN = false) (hy : y.isNaN = false) : x ≤ y ↔ ¬ y < x := by
  rw [le_iff_rank hx hy, lt_iff_rank hy hx, not_lt]

/-- Of two different numbers one is less than the other. -/
theorem lt_iff_not_lt_of_bne (hx : x.isNaN = false) (hy : y.isNaN = false)
    (h : (x != y) = true) : x < y ↔ ¬ y < x := by
  have hne : rank x.toModel.unpack ≠ rank y.toModel.unpack := by
    rw [Ne, ← beq_iff_rank hx hy, Bool.not_eq_true, ← Bool.not_eq_true']
    exact h
  rw [lt_iff_rank hx hy, lt_iff_rank hy hx, not_lt, hne.le_iff_lt]

theorem number_lt_irrefl (x : Float) : ¬ x < x := by
  intro h
  obtain ⟨hx, -⟩ := defined_of_lt h
  exact lt_irrefl _ ((lt_iff_rank hx hx).mp h)

theorem number_le_refl (hx : x.isNaN = false) : x ≤ x :=
  (le_iff_rank hx hx).mpr le_rfl

theorem number_le_of_lt (h : x < y) : x ≤ y := by
  obtain ⟨hx, hy⟩ := defined_of_lt h
  exact (le_iff_rank hx hy).mpr ((lt_iff_rank hx hy).mp h).le

theorem number_le_trans (hxy : x ≤ y) (hyz : y ≤ z) : x ≤ z := by
  obtain ⟨hx, hy⟩ := defined_of_le hxy
  obtain ⟨-, hz⟩ := defined_of_le hyz
  rw [le_iff_rank hx hy] at hxy
  rw [le_iff_rank hy hz] at hyz
  exact (le_iff_rank hx hz).mpr (hxy.trans hyz)

theorem number_lt_of_lt_of_le (hxy : x < y) (hyz : y ≤ z) : x < z := by
  obtain ⟨hx, hy⟩ := defined_of_lt hxy
  obtain ⟨-, hz⟩ := defined_of_le hyz
  rw [lt_iff_rank hx hy] at hxy
  rw [le_iff_rank hy hz] at hyz
  exact (lt_iff_rank hx hz).mpr (hxy.trans_le hyz)

theorem number_lt_of_le_of_lt (hxy : x ≤ y) (hyz : y < z) : x < z := by
  obtain ⟨hx, hy⟩ := defined_of_le hxy
  obtain ⟨-, hz⟩ := defined_of_lt hyz
  rw [le_iff_rank hx hy] at hxy
  rw [lt_iff_rank hy hz] at hyz
  exact (lt_iff_rank hx hz).mpr (hxy.trans_lt hyz)

/-- Positive numbers that are equal are the same. -/
theorem eq_of_le_of_le (hpos : 0.0 < x) (hxy : x ≤ y) (hyx : y ≤ x) : x = y := by
  obtain ⟨hx, hy⟩ := defined_of_le hxy
  have hrank := le_antisymm ((le_iff_rank hx hy).mp hxy) ((le_iff_rank hy hx).mp hyx)
  have hbeq := Float.beq_iff_ne_nan_and_eq.mp ((beq_iff_rank hx hy).mpr hrank)
  rcases hbeq.2.2 with heq | ⟨rfl, -⟩ | ⟨rfl, -⟩
  · exact heq
  · exact absurd hpos (by decide +kernel)
  · exact absurd hpos (by decide +kernel)

end

end Barscript.Series
