import Barscript.Proofs.Decimal.Rounding
import Barscript.Proofs.Decimal.Sign

/-!
# The bits of a double

A double is the packed form of its sign, mantissa and exponent, and no other double has
that form.
-/

namespace Barscript.Decimal

open Float.Model Float.Model.UnpackedFloat

/-! ## Fields -/

section

variable (b : BitVec Format.binary64.numBits)

theorem toNat_unpackMantissa : (unpackMantissa b).toNat = b.toNat % 2 ^ 52 := by
  unfold unpackMantissa
  rw [BitVec.toNat_cast, BitVec.extractLsb_toNat]
  rfl

theorem toNat_unpackExponent : (unpackExponent b).toNat = b.toNat / 2 ^ 52 % 2 ^ 11 := by
  unfold unpackExponent
  rw [BitVec.toNat_cast, BitVec.extractLsb_toNat, Nat.shiftRight_eq_div_pow]
  rfl

theorem toNat_unpackSign : (unpackSign b).toNat = b.toNat / 2 ^ 63 := by
  have hless : b.toNat < 2 ^ 64 := b.isLt
  unfold unpackSign
  rw [BitVec.toNat_cast, BitVec.extractLsb_toNat, Nat.shiftRight_eq_div_pow]
  show b.toNat / 2 ^ 63 % 2 ^ 1 = _
  omega

/-- The hidden bit in front of a mantissa. -/
theorem toNat_append_hidden (f : BitVec Format.binary64.mantissaBitsWithoutImplicit) :
    (1#1 ++ f).toNat = 2 ^ 52 + f.toNat := by
  rw [BitVec.toNat_append, ← Nat.shiftLeft_add_eq_or_of_lt f.isLt]
  rfl

theorem toNat_packComponents (s : Sign) (e : BitVec Format.binary64.exponentBits)
    (f : BitVec Format.binary64.mantissaBitsWithoutImplicit) :
    (packComponents Format.binary64 s e f).toNat =
      s.toBitVec.toNat * 2 ^ 63 + e.toNat * 2 ^ 52 + f.toNat := by
  unfold packComponents
  rw [BitVec.toNat_append, ← Nat.shiftLeft_add_eq_or_of_lt f.isLt, BitVec.toNat_append,
    ← Nat.shiftLeft_add_eq_or_of_lt e.isLt, Nat.shiftLeft_eq, Nat.shiftLeft_eq]
  show (s.toBitVec.toNat * 2 ^ 11 + e.toNat) * 2 ^ 52 + f.toNat = _
  ring

theorem toBitVec_ofBitVec (v : BitVec 1) : (Sign.ofBitVec v).toBitVec = v := by
  revert v
  decide

/-- A double is put together from its fields. -/
theorem packComponents_unpack :
    packComponents Format.binary64 (Sign.ofBitVec (unpackSign b)) (unpackExponent b)
      (unpackMantissa b) = b := by
  apply BitVec.eq_of_toNat_eq
  rw [toNat_packComponents, toBitVec_ofBitVec, toNat_unpackSign, toNat_unpackExponent,
    toNat_unpackMantissa]
  omega

end

/-! ## Finite doubles -/

section

variable {s : Sign} {m : ℕ} {e : ℤ} {hm : 0 < m}

theorem pack_normal (hfull : 2 ^ 52 ≤ m) (hlt : m < 2 ^ 53) (hleast : leastExponent ≤ e)
    (hgreatest : e ≤ 971) : UnpackedFloat.pack Format.binary64 (.finite s m e hm) =
      packComponents Format.binary64 s (BitVec.ofNat 11 (e + 1075).toNat)
        (BitVec.ofNat 52 m) := by
  have hfield : (e + Format.binary64.exponentBias +
      Format.binary64.mantissaBitsWithoutImplicit).toNat = (e + 1075).toNat := by
    show (e + 1023 + 52).toNat = _
    rw [add_assoc]
    norm_num
  have hbits : m.log2 + 1 = Format.binary64.mantissaBits := by
    have hlow : 52 ≤ m.log2 := (Nat.le_log2 hm.ne').mpr hfull
    have hhigh : m.log2 < 53 := (Nat.log2_lt hm.ne').mpr hlt
    show m.log2 + 1 = 53
    omega
  unfold UnpackedFloat.pack
  dsimp only
  rw [hfield, if_neg, if_pos hbits]
  unfold leastExponent at hleast
  omega

theorem pack_subnormal (hlt : m < 2 ^ 52) :
    UnpackedFloat.pack Format.binary64 (.finite s m leastExponent hm) =
      packComponents Format.binary64 s 0#11 (BitVec.ofNat 52 m) := by
  have hbits : m.log2 + 1 ≠ Format.binary64.mantissaBits := by
    have hhigh : m.log2 < 52 := (Nat.log2_lt hm.ne').mpr hlt
    show m.log2 + 1 ≠ 53
    omega
  unfold UnpackedFloat.pack
  dsimp only
  rw [if_neg (by decide), if_neg hbits]

end

/-- The fields of a finite double. -/
theorem unpack_finite {b : BitVec Format.binary64.numBits} {s : Sign} {m : ℕ} {e : ℤ}
    {hm : 0 < m} (h : UnpackedFloat.unpack Format.binary64 b = .finite s m e hm) :
    s = Sign.ofBitVec (unpackSign b) ∧ (unpackExponent b).toNat ≠ 2047 ∧
      if (unpackExponent b).toNat = 0 then
        m = (unpackMantissa b).toNat ∧ e = leastExponent
      else m = 2 ^ 52 + (unpackMantissa b).toNat ∧
        e = (unpackExponent b).toNat - 1 + leastExponent := by
  unfold UnpackedFloat.unpack at h
  dsimp only at h
  split at h
  · split at h <;> cases h
  · rename_i hspecial
    have hne : (unpackExponent b).toNat ≠ 2047 := fun heq =>
      hspecial (BitVec.eq_of_toNat_eq heq)
    split at h
    · rename_i hzero
      split at h
      · cases h
      · cases h
        rw [hzero]
        exact ⟨rfl, by decide, rfl, rfl⟩
    · rename_i hzero
      have hnz : (unpackExponent b).toNat ≠ 0 := fun heq =>
        hzero (BitVec.eq_of_toNat_eq heq)
      cases h
      rw [if_neg hnz]
      refine ⟨rfl, hne, toNat_append_hidden _, ?_⟩
      show ((unpackExponent b).toNat : ℤ) - (1023 + 52) = _
      unfold leastExponent
      omega

/-! ## Packing and unpacking -/

theorem unpackSign_packComponents (s : Sign) (e : BitVec Format.binary64.exponentBits)
    (f : BitVec Format.binary64.mantissaBitsWithoutImplicit) :
    unpackSign (packComponents Format.binary64 s e f) = s.toBitVec := by
  have hfraction : f.toNat < 2 ^ 52 := f.isLt
  have hexponent : e.toNat < 2 ^ 11 := e.isLt
  apply BitVec.eq_of_toNat_eq
  rw [toNat_unpackSign, toNat_packComponents]
  omega

theorem ofBitVec_toBitVec (s : Sign) : Sign.ofBitVec s.toBitVec = s := by
  cases s <;> rfl

section

variable {s : Sign} {e : BitVec Format.binary64.exponentBits}
  {f : BitVec Format.binary64.mantissaBitsWithoutImplicit} {m : ℕ} {exponent : ℤ} {hm : 0 < m}

theorem unpack_normal (hzero : e.toNat ≠ 0) (hones : e.toNat ≠ 2047)
    (hfull : m = 2 ^ 52 + f.toNat) (hexponent : exponent = e.toNat - 1075) :
    UnpackedFloat.unpack Format.binary64 (packComponents Format.binary64 s e f) =
      .finite s m exponent hm := by
  have hnormal : e ≠ 0#_ := fun h => hzero (congrArg BitVec.toNat h)
  have hfinite : e ≠ -1#_ := fun h => hones (congrArg BitVec.toNat h)
  unfold UnpackedFloat.unpack
  simp only [unpackExponent_packComponents, unpackMantissa_packComponents,
    unpackSign_packComponents, ofBitVec_toBitVec, if_neg hnormal, if_neg hfinite]
  congr 1
  · rw [toNat_append_hidden, hfull]
  · rw [hexponent]
    rfl

theorem unpack_subnormal (hm' : m = f.toNat) :
    UnpackedFloat.unpack Format.binary64 (packComponents Format.binary64 s 0#11 f) =
      .finite s m leastExponent hm := by
  have hpos : f ≠ 0#_ := by
    rintro rfl
    exact hm.ne' hm'
  unfold UnpackedFloat.unpack
  simp only [unpackExponent_packComponents, unpackMantissa_packComponents,
    unpackSign_packComponents, ofBitVec_toBitVec, dif_neg hpos, hm']
  rfl

end

/-- A finite double with few enough bits survives packing. -/
theorem unpack_pack {s : Sign} {m : Magnitude} (hc : m.Canonical) :
    UnpackedFloat.unpack Format.binary64
      (UnpackedFloat.pack Format.binary64 (.finite s m.mantissa m.exponent hc.pos)) =
        .finite s m.mantissa m.exponent hc.pos := by
  have hleast := hc.least
  have hlt := hc.lt
  by_cases hfull : 2 ^ 52 ≤ m.mantissa
  · have hgreatest := hc.greatest
    rw [pack_normal hfull hlt hleast hgreatest]
    unfold leastExponent at hleast
    have hfield : (BitVec.ofNat 11 (m.exponent + 1075).toNat).toNat =
        (m.exponent + 1075).toNat := by
      rw [BitVec.toNat_ofNat, Nat.mod_eq_of_lt (by omega)]
    have hfraction : (BitVec.ofNat 52 m.mantissa).toNat = m.mantissa % 2 ^ 52 :=
      BitVec.toNat_ofNat m.mantissa 52
    apply unpack_normal <;> simp only [hfield, hfraction] <;> omega
  · obtain ⟨mantissa, exponent⟩ := m
    obtain rfl : exponent = leastExponent :=
      le_antisymm (not_lt.mp (mt hc.full hfull)) hleast
    rw [pack_subnormal (not_le.mp hfull)]
    apply unpack_subnormal
    rw [BitVec.toNat_ofNat, Nat.mod_eq_of_lt (not_le.mp hfull)]

/-- What a finite double is unpacked to has few enough bits. -/
theorem canonical_of_unpack {b : BitVec Format.binary64.numBits} {s : Sign} {m : ℕ} {e : ℤ}
    {hm : 0 < m} (h : UnpackedFloat.unpack Format.binary64 b = .finite s m e hm) :
    (Magnitude.mk m e).Canonical := by
  obtain ⟨-, hones, hfields⟩ := unpack_finite h
  have hfraction : (unpackMantissa b).toNat < 2 ^ 52 := (unpackMantissa b).isLt
  have hfield : (unpackExponent b).toNat < 2 ^ 11 := (unpackExponent b).isLt
  split at hfields
  · obtain ⟨rfl, rfl⟩ := hfields
    exact ⟨hm, by dsimp only; omega, le_rfl, (by decide : leastExponent ≤ 971),
      fun hlt => absurd hlt (lt_irrefl _)⟩
  · obtain ⟨rfl, rfl⟩ := hfields
    constructor <;> dsimp only [leastExponent] <;> omega

theorem pack_unpack_finite {b : BitVec Format.binary64.numBits} {s : Sign} {m : ℕ} {e : ℤ}
    {hm : 0 < m} (h : UnpackedFloat.unpack Format.binary64 b = .finite s m e hm) :
    UnpackedFloat.pack Format.binary64 (.finite s m e hm) = b := by
  obtain ⟨-, hlt, hleast, hgreatest, -⟩ := canonical_of_unpack h
  dsimp only at hlt hleast hgreatest
  obtain ⟨rfl, hones, hfields⟩ := unpack_finite h
  have hfraction : (unpackMantissa b).toNat < 2 ^ 52 := (unpackMantissa b).isLt
  have hfield : (unpackExponent b).toNat < 2 ^ 11 := (unpackExponent b).isLt
  refine Eq.trans ?_ (packComponents_unpack b)
  split at hfields
  · rename_i hzero
    obtain ⟨rfl, rfl⟩ := hfields
    have hexponent : unpackExponent b = 0#_ := BitVec.eq_of_toNat_eq hzero
    rw [pack_subnormal hfraction, hexponent]
    congr 1
    exact BitVec.ofNat_toNat _ _
  · obtain ⟨rfl, rfl⟩ := hfields
    rw [pack_normal (by omega) hlt hleast hgreatest]
    unfold leastExponent
    congr 1 <;> apply BitVec.eq_of_toNat_eq <;> rw [BitVec.toNat_ofNat] <;> omega

/-- **A double is the packed form of what it is unpacked to.** -/
theorem pack_unpack {b : BitVec Format.binary64.numBits} (hvalid : Format.binary64.Valid b) :
    UnpackedFloat.pack Format.binary64 (UnpackedFloat.unpack Format.binary64 b) = b := by
  generalize hu : UnpackedFloat.unpack Format.binary64 b = u
  have hunpack := hu
  unfold UnpackedFloat.unpack at hu
  dsimp only at hu
  split at hu
  · rename_i hexponent
    split at hu
    · rename_i hmantissa
      subst hu
      refine Eq.trans ?_ (packComponents_unpack b)
      rw [hexponent, hmantissa]
      rfl
    · rename_i hmantissa
      subst hu
      exact (hvalid.eq_packedNaN hexponent hmantissa).symm
  · split at hu
    · rename_i hexponent
      split at hu
      · rename_i hmantissa
        subst hu
        refine Eq.trans ?_ (packComponents_unpack b)
        rw [hexponent, hmantissa]
        rfl
      · subst hu
        exact pack_unpack_finite hunpack
    · subst hu
      exact pack_unpack_finite hunpack

/-! ## Doubles -/

theorem eq_ofModel_pack (x : Float) : x = .ofModel (.pack x.toModel.unpack) := by
  have hbits : UnpackedFloat.pack Format.binary64 x.toModel.unpack =
      x.toModel.toBits.toBitVec := pack_unpack x.toModel.valid
  obtain ⟨⟨bits, valid⟩⟩ := x
  unfold Float.Model.pack
  congr 2
  exact (congrArg UInt64.ofBitVec hbits).symm

theorem magnitude_of_unpack {x : Float} {s : Sign} {m : ℕ} {e : ℤ} {hm : 0 < m}
    (h : x.toModel.unpack = .finite s m e hm) : magnitude x = ⟨m, e⟩ := by
  obtain ⟨-, -, hfields⟩ := unpack_finite h
  rw [toNat_unpackExponent, toNat_unpackMantissa] at hfields
  change if x.toBits.toNat / 2 ^ 52 % 2 ^ 11 = 0 then
      m = x.toBits.toNat % 2 ^ 52 ∧ e = leastExponent
    else m = 2 ^ 52 + x.toBits.toNat % 2 ^ 52 ∧
      e = (x.toBits.toNat / 2 ^ 52 % 2 ^ 11 : ℕ) - 1 + leastExponent at hfields
  show (if x.toBits.toNat / 2 ^ 52 % 2 ^ 11 = 0 then
      Magnitude.mk (x.toBits.toNat % 2 ^ 52) leastExponent
    else ⟨2 ^ 52 + x.toBits.toNat % 2 ^ 52,
      (x.toBits.toNat / 2 ^ 52 % 2 ^ 11 : ℕ) - 1 + leastExponent⟩) = _
  split at hfields
  · rename_i hzero
    rw [if_pos hzero, hfields.1, hfields.2]
  · rename_i hzero
    rw [if_neg hzero, hfields.1, hfields.2]

theorem isNegative_of_unpack {x : Float} {s : Sign} {m : ℕ} {e : ℤ} {hm : 0 < m}
    (h : x.toModel.unpack = .finite s m e hm) : isNegative x = true ↔ s = .negative := by
  obtain ⟨rfl, -, -⟩ := unpack_finite h
  have hbit := toNat_unpackSign x.toModel.toBits.toBitVec
  unfold isNegative Sign.ofBitVec
  change (x.toModel.toBits.toBitVec.toNat / 2 ^ 63 == 1) = true ↔ _
  rw [← hbit, beq_iff_eq]
  generalize unpackSign _ = v
  obtain rfl | rfl : v = 0#1 ∨ v = 1#1 := by
    revert v
    decide
  · exact ⟨nofun, nofun⟩
  · exact ⟨fun _ => rfl, fun _ => rfl⟩

/-- The double of a sign and a magnitude. -/
def ofMagnitude (s : Sign) (m : Magnitude) (hc : m.Canonical) : Float :=
  .ofModel (.pack (.finite s m.mantissa m.exponent hc.pos))

section

variable (s : Sign) {m : Magnitude} (hc : m.Canonical)

theorem unpack_ofMagnitude :
    (ofMagnitude s m hc).toModel.unpack = .finite s m.mantissa m.exponent hc.pos :=
  unpack_pack hc

theorem magnitude_ofMagnitude : magnitude (ofMagnitude s m hc) = m :=
  magnitude_of_unpack (unpack_ofMagnitude s hc)

theorem isNegative_ofMagnitude : isNegative (ofMagnitude s m hc) = true ↔ s = .negative :=
  isNegative_of_unpack (unpack_ofMagnitude s hc)

theorem isNaN_ofMagnitude : (ofMagnitude s m hc).isNaN = false := by
  show (ofMagnitude s m hc).toModel.unpack.isNaN = false
  rw [unpack_ofMagnitude]
  rfl

theorem isInf_ofMagnitude : (ofMagnitude s m hc).isInf = false := by
  show (ofMagnitude s m hc).toModel.unpack.isInf = false
  rw [unpack_ofMagnitude]
  rfl

theorem neg_ofMagnitude : -ofMagnitude .positive m hc = ofMagnitude .negative m hc := by
  show Float.ofModel (.pack (ofMagnitude .positive m hc).toModel.unpack.neg) = _
  rw [unpack_ofMagnitude]
  rfl

end

/-- **A double is undefined, infinite or zero, or it has a magnitude.** -/
theorem float_cases (x : Float) :
    x = .ofModel (.pack .notANumber) ∨ (∃ s, x = .ofModel (.pack (.infinity s))) ∨
      (∃ s, x = .ofModel (.pack (.zero s))) ∨ ∃ s m hc, x = ofMagnitude s m hc := by
  have hx := eq_ofModel_pack x
  cases h : x.toModel.unpack with
  | notANumber => exact .inl (h ▸ hx)
  | infinity s => exact .inr (.inl ⟨s, h ▸ hx⟩)
  | zero s => exact .inr (.inr (.inl ⟨s, h ▸ hx⟩))
  | finite s m e hm =>
      rw [h] at hx
      exact .inr (.inr (.inr ⟨s, ⟨m, e⟩, canonical_of_unpack h, hx⟩))

end Barscript.Decimal
