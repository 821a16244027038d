import Mathlib.Data.List.TakeWhile
import Barscript.Proofs.Decimal.Scientific
import Barscript.Proofs.Decimal.Shortest
import Barscript.Proofs.Text.Blank

/-!
# What is printed reads back

`plain` prints every double so that `read?` gives the same double back (`read?_plain`): the
zeros and the point around the shortest digits do not change their number, and the number
lies in the interval of the double.
-/

namespace Barscript.Decimal

open Barscript.Text Float.Model Float.Model.UnpackedFloat

/-! ## Digits and a point -/

theorem readUnsigned?_whole {digits : List Char} (hne : digits ≠ [])
    (hdigits : ∀ c ∈ digits, c.isDigit = true) :
    readUnsigned? digits = some (nearest digits 0) := by
  have htake : digits.takeWhile Char.isDigit = digits := List.takeWhile_eq_self_iff.mpr hdigits
  have hdrop : digits.dropWhile Char.isDigit = [] := List.dropWhile_eq_nil_iff.mpr hdigits
  unfold readUnsigned?
  simp only [htake, hdrop, List.append_nil]
  rw [if_neg (by simpa using hne)]
  rfl

theorem readUnsigned?_pointed {whole fraction : List Char} (hne : whole ++ fraction ≠ [])
    (hwhole : ∀ c ∈ whole, c.isDigit = true) (hfraction : ∀ c ∈ fraction, c.isDigit = true) :
    readUnsigned? (whole ++ '.' :: fraction) =
      some (nearest (whole ++ fraction) (-fraction.length)) := by
  have htake : (whole ++ '.' :: fraction).takeWhile Char.isDigit = whole := by
    rw [List.takeWhile_append_of_pos hwhole, List.takeWhile_cons_of_neg (by decide),
      List.append_nil]
  have hdrop : (whole ++ '.' :: fraction).dropWhile Char.isDigit = '.' :: fraction := by
    rw [List.dropWhile_append_of_pos hwhole, List.dropWhile_cons_of_neg (by decide)]
  have htake' : fraction.takeWhile Char.isDigit = fraction :=
    List.takeWhile_eq_self_iff.mpr hfraction
  have hdrop' : fraction.dropWhile Char.isDigit = [] :=
    List.dropWhile_eq_nil_iff.mpr hfraction
  unfold readUnsigned?
  simp only [htake, hdrop, htake', hdrop']
  rw [if_neg (by rwa [List.isEmpty_iff])]
  show some (nearest _ (0 - (fraction.length : ℤ))) = _
  rw [zero_sub]

theorem isDigit_append {front behind : List Char} (hfront : ∀ c ∈ front, c.isDigit = true)
    (hbehind : ∀ c ∈ behind, c.isDigit = true) : ∀ c ∈ front ++ behind, c.isDigit = true :=
  List.forall_mem_append.mpr ⟨hfront, hbehind⟩

/-- A layout without an exponent spells the same number by other digits: with more zeros
around them, or with a point among them. -/
theorem readUnsigned?_positional {digits : List Char} (hne : digits ≠ [])
    (hdigits : ∀ c ∈ digits, c.isDigit = true) (exponent : ℤ) :
    ∃ all places, readUnsigned? (positional digits exponent) = some (nearest all places) ∧
      (∀ c ∈ all, c.isDigit = true) ∧
      (digitsValue all * 10 ^ places : ℚ) = digitsValue digits * 10 ^ exponent := by
  unfold positional
  split
  · rename_i hnonneg
    have hall := isDigit_append hdigits (isDigit_replicate_zero exponent.toNat)
    refine ⟨_, _, readUnsigned?_whole (by simp [hne]) hall, hall, ?_⟩
    rw [digitsValue_append, digitsValue_zeros, List.length_replicate, Nat.add_zero]
    push_cast
    rw [mul_one, ← zpow_natCast, Int.toNat_of_nonneg hnonneg]
  · rename_i hnegative
    dsimp only
    have hplaces : (((-exponent).toNat : ℕ) : ℤ) = -exponent := Int.toNat_of_nonneg (by omega)
    generalize (-exponent).toNat = places at hplaces
    obtain rfl : exponent = -places := by omega
    split
    · rename_i hinside
      refine ⟨_, _, readUnsigned?_pointed ?_ (fun c hc => hdigits c (List.mem_of_mem_take hc))
        (fun c hc => hdigits c (List.mem_of_mem_drop hc)), ?_, ?_⟩
      · rwa [List.take_append_drop]
      · rw [List.take_append_drop]
        exact hdigits
      · rw [List.take_append_drop, List.length_drop]
        congr 3
        omega
    · rename_i houtside
      have hfraction := isDigit_append (isDigit_replicate_zero (places - digits.length)) hdigits
      have hzero : ∀ c ∈ ['0'], c.isDigit = true := List.forall_mem_singleton.mpr rfl
      generalize hzeros : List.replicate (places - digits.length) '0' = zeros at hfraction
      have hvalue : digitsValue zeros = 0 := hzeros ▸ digitsValue_zeros _
      have hlength : zeros.length = places - digits.length :=
        hzeros ▸ List.length_replicate
      show ∃ all k, readUnsigned? (['0'] ++ '.' :: (zeros ++ digits)) = _ ∧ _
      refine ⟨_, _, readUnsigned?_pointed (List.cons_ne_nil '0' _) hzero hfraction,
        isDigit_append hzero hfraction, ?_⟩
      rw [digitsValue_append, digitsValue_append, hvalue, List.length_append, hlength]
      have hfirst : digitsValue ['0'] = 0 := rfl
      rw [hfirst, Nat.zero_mul, Nat.zero_mul, Nat.zero_add, Nat.zero_add]
      congr 3
      omega

/-! ## Signs and words -/

/-- What begins with a digit is no word and has no sign. -/
theorem read?_of_isDigit {c : Char} (h : c.isDigit = true) (rest : List Char) :
    readWord? (c :: rest) = none ∧ splitSign (c :: rest) = (false, c :: rest) := by
  have hne (d : Char) (hd : d.isDigit = false) : c ≠ d := by
    rintro rfl
    exact Bool.false_ne_true (hd.symm.trans h)
  have hlower : c.toLower = c := by
    have hrange : c.val.toNat ≤ 57 := (Char.isDigit_iff_toNat.mp h).2
    unfold Char.toLower
    rw [dif_neg]
    rintro ⟨hupper, -⟩
    have hupper : 65 ≤ c.val.toNat := hupper
    omega
  constructor
  · unfold readWord?
    simp only [List.map_cons, hlower, List.cons.injEq, hne 'i' rfl, hne 'n' rfl, false_and,
      or_false, if_false]
  · unfold splitSign
    split
    · rename_i heq
      exact absurd (List.cons.inj heq).1 (hne '-' rfl)
    · rename_i heq
      exact absurd (List.cons.inj heq).1 (hne '+' rfl)
    · rfl

theorem read?_number {text : List Char} (h : NumberText text) :
    read? text = readUnsigned? text ∧
      read? ('-' :: text) = (readUnsigned? text).map fun x => -x := by
  obtain ⟨c, rest, rfl, hc⟩ := h.first
  obtain ⟨hword, hsign⟩ := read?_of_isDigit hc rest
  have hminus : splitSign ('-' :: c :: rest) = (true, c :: rest) := rfl
  unfold read?
  simp only [hsign, hminus, hword, Option.none_or]
  constructor
  · simp
  · simp

section

variable {m : Magnitude} (hc : m.Canonical)

theorem numberText_shortest (m : Magnitude) :
    NumberText (positional (natDigits (shortest .up m).digits) (shortest .up m).exponent) :=
  numberText_positional (natDigits_ne_nil _) (fun _ hc => isDigit_of_mem_natDigits hc) _

/-- A double with bits in its mantissa is printed by its shortest digits. -/
theorem plain_ofMagnitude (s : Sign) :
    plain (ofMagnitude s m hc) = signText (ofMagnitude s m hc) ++
      positional (natDigits (shortest .up m).digits) (shortest .up m).exponent := by
  unfold plain spelled
  rw [isNaN_ofMagnitude, isInf_ofMagnitude, magnitude_ofMagnitude]
  simp [hc.pos.ne']

/-- The shortest digits read back. -/
theorem readUnsigned?_shortest :
    readUnsigned? (positional (natDigits (shortest .up m).digits) (shortest .up m).exponent) =
      some (ofMagnitude .positive m hc) := by
  obtain ⟨all, places, hread, hall, hvalue⟩ := readUnsigned?_positional
    (natDigits_ne_nil (shortest .up m).digits) (fun c hc => isDigit_of_mem_natDigits hc)
    (shortest .up m).exponent
  rw [digitsValue_natDigits] at hvalue
  rw [hread, nearest_eq hc hall]
  rw [hvalue]
  exact contains_shortest hc .up

end

/-- **Every double reads back as it is printed.** -/
theorem read?_plain (x : Float) : read? (plain x) = some x := by
  obtain rfl | ⟨s, rfl⟩ | ⟨s, rfl⟩ | ⟨s, m, hc, rfl⟩ := float_cases x
  · decide +kernel
  · cases s <;> decide +kernel
  · cases s <;> decide +kernel
  · rw [plain_ofMagnitude]
    unfold signText
    cases s with
    | positive =>
        rw [if_neg (mt (isNegative_ofMagnitude .positive hc).mp nofun), List.nil_append,
          (read?_number (numberText_shortest m)).1]
        exact readUnsigned?_shortest hc
    | negative =>
        rw [if_pos ((isNegative_ofMagnitude .negative hc).mpr rfl), List.singleton_append,
          (read?_number (numberText_shortest m)).2, readUnsigned?_shortest hc]
        exact congrArg some (neg_ofMagnitude hc)

theorem readText?_plainText (x : Float) : readText? (plainText x) = some x := by
  rw [readText?, plainText, String.toList_ofList, read?_plain]

/-! ## Blanks -/

theorem not_isBlank_of_numberText {text : List Char} (h : NumberText text) :
    ∀ c ∈ text, isBlank c = false := by
  cases h with
  | whole _ hdigits => exact fun c hc => not_isBlank_of_isDigit (hdigits c hc)
  | pointed _ hdigits hfraction =>
      refine List.forall_mem_append.mpr ⟨fun c hc => not_isBlank_of_isDigit (hdigits c hc), ?_⟩
      exact List.forall_mem_cons.mpr
        ⟨rfl, fun c hc => not_isBlank_of_isDigit (hfraction c hc)⟩

theorem not_isBlank_plain (x : Float) : ∀ c ∈ plain x, isBlank c = false := by
  unfold plain spelled
  split
  · exact not_isBlank_of_all rfl
  · rw [List.forall_mem_append]
    constructor
    · unfold signText
      split <;> exact not_isBlank_of_all rfl
    · split
      · exact not_isBlank_of_all rfl
      · dsimp only
        split
        · exact not_isBlank_of_all rfl
        · exact not_isBlank_of_numberText (numberText_shortest _)

/-- A printed number has no blanks around it. -/
theorem trim_plain (x : Float) : trim (plain x) = plain x :=
  trim_eq_self (fun c hc => not_isBlank_plain x c (List.mem_of_mem_head? hc))
    fun c hc => not_isBlank_plain x c (List.mem_of_mem_getLast? hc)

end Barscript.Decimal
