import Barscript.Decimal.Reader
import Barscript.Decimal.Text

/-!
# Numbers without a sign

A text without a minus in front is read as a number whose sign bit is not set
(`isNegative_of_read?`). The operations that reading is put together from are
followed on unpacked doubles, where the sign is a field of its own. Such a
number is printed as digits with at most one point (`numberText_plain`).
-/

namespace Barscript.Decimal

open Float.Model Float.Model.UnpackedFloat

/-! ## Unpacked numbers -/

/-- The number is undefined or has the positive sign. -/
def Unsigned : UnpackedFloat → Prop
  | .notANumber => True
  | .infinity s | .zero s | .finite s _ _ _ => s = .positive

section

variable {u v : UnpackedFloat} {format : Format}

theorem unsigned_dite {p : Prop} [Decidable p] {f : p → UnpackedFloat}
    {g : ¬ p → UnpackedFloat} (hf : ∀ h, Unsigned (f h))
    (hg : ∀ h, Unsigned (g h)) :
    Unsigned (if h : p then f h else g h) := by
  by_cases h : p
  · rw [dif_pos h]
    exact hf h
  · rw [dif_neg h]
    exact hg h

theorem unsigned_ite {p : Prop} [Decidable p] (hu : Unsigned u)
    (hv : Unsigned v) : Unsigned (if p then u else v) :=
  unsigned_dite (fun _ => hu) fun _ => hv

theorem unsigned_roundWithAccuracy (m : Nat) (e : Int) (a : Accuracy) :
    Unsigned (roundWithAccuracy format .positive m e a) := by
  unfold roundWithAccuracy
  exact unsigned_dite (fun _ => rfl) fun _ => rfl

theorem Unsigned.cases (h : Unsigned u) :
    u = .notANumber ∨ u = .infinity .positive ∨ u = .zero .positive ∨
      ∃ m e hm, u = .finite .positive m e hm := by
  cases u with
  | notANumber => exact .inl rfl
  | infinity s =>
      obtain rfl : s = .positive := h
      exact .inr (.inl rfl)
  | zero s =>
      obtain rfl : s = .positive := h
      exact .inr (.inr (.inl rfl))
  | finite s m e hm =>
      obtain rfl : s = .positive := h
      exact .inr (.inr (.inr ⟨m, e, hm, rfl⟩))

theorem unsigned_mul (hu : Unsigned u) (hv : Unsigned v) :
    Unsigned (mul format u v) := by
  rcases hu.cases with rfl | rfl | rfl | ⟨m, e, hm, rfl⟩ <;>
    rcases hv.cases with rfl | rfl | rfl | ⟨m', e', hm', rfl⟩ <;>
    first | trivial | rfl | exact unsigned_roundWithAccuracy _ _ _

theorem unsigned_div (hu : Unsigned u) (hv : Unsigned v) :
    Unsigned (div format u v) := by
  rcases hu.cases with rfl | rfl | rfl | ⟨m, e, hm, rfl⟩ <;>
    rcases hv.cases with rfl | rfl | rfl | ⟨m', e', hm', rfl⟩ <;>
    first | trivial | rfl | exact unsigned_roundWithAccuracy _ _ _

theorem unsigned_ofScientific (m : Nat) (e : Int) :
    Unsigned (UnpackedFloat.ofScientific format m e) := by
  unfold UnpackedFloat.ofScientific
  refine unsigned_dite (fun _ => rfl) fun _ => ?_
  refine unsigned_ite rfl (unsigned_ite rfl (unsigned_ite ?_ ?_))
  · exact unsigned_mul rfl rfl
  · exact unsigned_div rfl rfl

theorem unsigned_ofNat (n : Nat) : Unsigned (UnpackedFloat.ofNat format n) := by
  unfold UnpackedFloat.ofNat UnpackedFloat.ofInt UnpackedFloat.normalize
  split
  · rename_i hless
    have hneg : (n : Int) < 0 := Int.compare_eq_lt.mp hless
    omega
  · rfl
  · exact unsigned_roundWithAccuracy _ _ _

/-! ## Packed numbers -/

/-- The first bit of a packed number is its sign. -/
theorem msb_packComponents (exponent : BitVec format.exponentBits)
    (mantissa : BitVec format.mantissaBitsWithoutImplicit) :
    (packComponents format .positive exponent mantissa).msb = false := by
  unfold packComponents
  rw [BitVec.msb_append, BitVec.msb_append, if_neg (by omega), if_neg (by omega)]
  rfl

theorem msb_pack (h : Unsigned u) :
    (UnpackedFloat.pack format u).msb = false := by
  rcases h.cases with rfl | rfl | rfl | ⟨m, e, hm, rfl⟩
  · exact msb_packComponents _ _
  · exact msb_packComponents _ _
  · exact msb_packComponents _ _
  · unfold UnpackedFloat.pack
    dsimp only
    split
    · exact msb_packComponents _ _
    · split <;> exact msb_packComponents _ _

theorem unpackSign_of_msb {b : BitVec format.numBits} (h : b.msb = false) :
    unpackSign b = 0#1 := by
  have hless := BitVec.msb_eq_false_iff_two_mul_lt.mp h
  apply BitVec.eq_of_toNat_eq
  unfold unpackSign
  rw [BitVec.toNat_cast, BitVec.extractLsb_toNat, Nat.shiftRight_eq_div_pow,
    Nat.div_eq_of_lt]
  · rfl
  · have hpow : 2 ^ format.numBits = 2 * 2 ^
        (format.mantissaBitsWithoutImplicit + format.exponentBits) := by
      rw [← Nat.pow_succ']
      congr 1
      unfold Format.numBits
      omega
    omega

theorem unsigned_unpack {b : BitVec format.numBits} (h : b.msb = false) :
    Unsigned (UnpackedFloat.unpack format b) := by
  have hsign : Sign.ofBitVec (unpackSign b) = .positive := by
    rw [unpackSign_of_msb h]
    rfl
  unfold UnpackedFloat.unpack
  dsimp only
  rw [hsign]
  apply unsigned_ite
  · exact unsigned_ite rfl trivial
  · apply unsigned_ite
    · exact unsigned_dite (fun _ => rfl) fun _ => rfl
    · rfl

end

/-! ## Numbers -/

theorem isNegative_eq (x : Float) :
    isNegative x = x.toModel.toBits.toBitVec.msb := by
  have hless : x.toModel.toBits.toNat < 2 ^ 64 := x.toModel.toBits.toNat_lt
  rw [BitVec.msb_eq_decide]
  show (x.toModel.toBits.toNat / 2 ^ 63 == 1) =
    decide (2 ^ 63 ≤ x.toModel.toBits.toNat)
  rw [Bool.eq_iff_iff, beq_iff_eq, decide_eq_true_eq]
  omega

theorem isNegative_pack {u : UnpackedFloat} (h : Unsigned u) :
    isNegative (.ofModel (.pack u)) = false := by
  rw [isNegative_eq]
  exact msb_pack h

theorem unsigned_of_isNegative {x : Float} (h : isNegative x = false) :
    Unsigned x.toModel.unpack := by
  rw [isNegative_eq] at h
  exact unsigned_unpack h

theorem isNegative_mul {x y : Float} (hx : isNegative x = false)
    (hy : isNegative y = false) : isNegative (x * y) = false :=
  isNegative_pack
    (unsigned_mul (unsigned_of_isNegative hx) (unsigned_of_isNegative hy))

theorem isNegative_div {x y : Float} (hx : isNegative x = false)
    (hy : isNegative y = false) : isNegative (x / y) = false :=
  isNegative_pack
    (unsigned_div (unsigned_of_isNegative hx) (unsigned_of_isNegative hy))

theorem isNegative_toFloat (n : UInt64) : isNegative n.toFloat = false :=
  isNegative_pack (unsigned_ofNat n.toNat)

/-- The powers of ten that are exact have no sign. -/
theorem isNegative_powerOfTen (e : Nat)
    (he : e < Float.exactlyRepresentablePowersOfTen.size) :
    isNegative Float.exactlyRepresentablePowersOfTen[e] = false := by
  have hall : ∀ x ∈ Float.exactlyRepresentablePowersOfTen,
      isNegative x = false := by
    decide
  exact hall _ (Array.getElem_mem he)

theorem isNegative_ofScientific (m : Nat) (s : Bool) (e : Nat) :
    isNegative (Float.ofScientific m s e) = false := by
  unfold Float.ofScientific
  split
  · dsimp only
    split
    · exact isNegative_div (isNegative_toFloat _) (isNegative_powerOfTen e _)
    · exact isNegative_mul (isNegative_toFloat _) (isNegative_powerOfTen e _)
  · exact isNegative_pack (unsigned_ofScientific m _)

/-! ## Reading -/

theorem isNegative_nearest (digits : List Char) (exponent : Int) :
    isNegative (nearest digits exponent) = false := by
  have hzero : isNegative 0.0 = false := isNegative_ofScientific _ _ _
  have hone : isNegative 1.0 = false := isNegative_ofScientific _ _ _
  unfold nearest
  dsimp only
  split
  · exact hzero
  · split
    · exact isNegative_div hone hzero
    · split
      · exact hzero
      · exact isNegative_ofScientific _ _ _

/-- **What has no minus in front is read as no negative number.** -/
theorem isNegative_of_read? {text : List Char} {x : Float}
    (hsign : (splitSign text).1 = false) (h : read? text = some x) :
    isNegative x = false := by
  have hzero : isNegative 0.0 = false := isNegative_ofScientific _ _ _
  have hone : isNegative 1.0 = false := isNegative_ofScientific _ _ _
  unfold read? at h
  dsimp only at h
  rw [hsign] at h
  obtain ⟨y, hy, rfl⟩ := Option.map_eq_some_iff.mp h
  rw [if_neg Bool.false_ne_true]
  rcases Option.or_eq_some_iff.mp hy with hword | ⟨_, hnumber⟩
  · unfold readWord? at hword
    dsimp only at hword
    split at hword
    · cases hword
      exact isNegative_div hone hzero
    · split at hword
      · cases hword
        exact isNegative_div hzero hzero
      · cases hword
  · unfold readUnsigned? at hnumber
    dsimp only at hnumber
    split at hnumber
    all_goals
      split at hnumber
      · cases hnumber
      · obtain ⟨exponent, _, rfl⟩ := Option.map_eq_some_iff.mp hnumber
        exact isNegative_nearest _ _

/-! ## Printing -/

/-- Digits, and perhaps a point and more digits behind them. -/
inductive NumberText : List Char → Prop where
  | whole {digits : List Char} (hne : digits ≠ [])
      (h : ∀ c ∈ digits, c.isDigit = true) : NumberText digits
  | pointed {digits fraction : List Char} (hne : digits ≠ [])
      (h : ∀ c ∈ digits, c.isDigit = true)
      (hfraction : ∀ c ∈ fraction, c.isDigit = true) :
      NumberText (digits ++ '.' :: fraction)

theorem NumberText.first {text : List Char} (h : NumberText text) :
    ∃ c more, text = c :: more ∧ c.isDigit = true := by
  cases h with
  | whole hne hdigits =>
      obtain ⟨c, more, rfl⟩ := List.exists_cons_of_ne_nil hne
      exact ⟨c, more, rfl, hdigits c (List.mem_cons_self ..)⟩
  | @pointed digits fraction hne hdigits _ =>
      obtain ⟨c, more, rfl⟩ := List.exists_cons_of_ne_nil hne
      exact ⟨c, more ++ '.' :: fraction, rfl,
        hdigits c (List.mem_cons_self ..)⟩

theorem isDigit_replicate_zero (n : Nat) :
    ∀ c ∈ List.replicate n '0', c.isDigit = true := by
  intro c hc
  rw [List.eq_of_mem_replicate hc]
  rfl

theorem numberText_positional {digits : List Char} (hne : digits ≠ [])
    (h : ∀ c ∈ digits, c.isDigit = true) (exponent : Int) :
    NumberText (positional digits exponent) := by
  unfold positional
  dsimp only
  split
  · apply NumberText.whole
    · exact List.append_ne_nil_of_left_ne_nil hne _
    · intro c hc
      rcases List.mem_append.mp hc with hc | hc
      · exact h c hc
      · exact isDigit_replicate_zero _ c hc
  · split
    · rename_i hplaces
      apply NumberText.pointed
      · -- The point has a digit in front.
        rw [Ne, List.take_eq_nil_iff]
        rintro (hzero | hnil)
        · omega
        · exact hne hnil
      · exact fun c hc => h c (List.mem_of_mem_take hc)
      · exact fun c hc => h c (List.mem_of_mem_drop hc)
    · refine @NumberText.pointed ['0'] _ (List.cons_ne_nil _ _) ?_ ?_
      · intro c hc
        rw [List.mem_singleton.mp hc]
        rfl
      · intro c hc
        rcases List.mem_append.mp hc with hc | hc
        · exact isDigit_replicate_zero _ c hc
        · exact h c hc

/-- **A finite number without a sign is printed as digits**, with a point at
most among them. -/
theorem numberText_plain {x : Float} (hnan : x.isNaN = false)
    (hinf : x.isInf = false) (hsign : isNegative x = false) :
    NumberText (plain x) := by
  unfold plain spelled
  rw [if_neg (by rw [hnan]; decide), if_neg (by rw [hinf]; decide)]
  unfold signText
  rw [hsign, if_neg Bool.false_ne_true, List.nil_append]
  dsimp only
  split
  · apply NumberText.whole (List.cons_ne_nil _ _)
    intro c hc
    rw [List.mem_singleton.mp hc]
    rfl
  · apply numberText_positional Nat.toDigits_ne_nil
    intro c hc
    exact Nat.isDigit_of_mem_toDigits (by decide) (by decide) hc

end Barscript.Decimal
