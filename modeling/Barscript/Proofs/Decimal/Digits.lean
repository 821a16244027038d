import Mathlib.Tactic.Ring
import Barscript.Decimal.Text
import Barscript.Decimal.Reader

/-!
# The value of digits

What a list of digits is worth, and that the digits of a natural number are worth that
number.
-/

namespace Barscript.Decimal

theorem digitsValue_eq_ofDigitChars (digits : List Char) :
    digitsValue digits = Nat.ofDigitChars 10 digits 0 := by
  unfold digitsValue Nat.ofDigitChars
  congr 1
  funext value c
  rw [Nat.mul_comm]

theorem digitsValue_append (front behind : List Char) :
    digitsValue (front ++ behind) =
      digitsValue front * 10 ^ behind.length + digitsValue behind := by
  simp only [digitsValue_eq_ofDigitChars]
  rw [Nat.ofDigitChars_append, Nat.ofDigitChars_eq_ofDigitChars_zero, Nat.mul_comm]

theorem digitsValue_cons (c : Char) (rest : List Char) :
    digitsValue (c :: rest) = (c.toNat - '0'.toNat) * 10 ^ rest.length + digitsValue rest := by
  rw [← List.singleton_append, digitsValue_append]
  congr 2
  exact Nat.zero_add _

@[simp] theorem digitsValue_zeros (n : ℕ) : digitsValue (List.replicate n '0') = 0 := by
  rw [digitsValue_eq_ofDigitChars, Nat.ofDigitChars_replicate_zero, Nat.mul_zero]

@[simp] theorem digitsValue_natDigits (n : ℕ) : digitsValue (natDigits n) = n := by
  rw [digitsValue_eq_ofDigitChars]
  exact Nat.ofDigitChars_ten_toDigits

theorem isDigit_of_mem_natDigits {n : ℕ} {c : Char} (h : c ∈ natDigits n) :
    c.isDigit = true :=
  Nat.isDigit_of_mem_toDigits (by decide) (by decide) h

theorem natDigits_ne_nil (n : ℕ) : natDigits n ≠ [] :=
  Nat.toDigits_ne_nil

/-- A digit is worth less than ten. -/
theorem toNat_sub_lt_ten {c : Char} (h : c.isDigit = true) : c.toNat - '0'.toNat < 10 := by
  have hhigh : c.toNat ≤ 57 := (Char.isDigit_iff_toNat.mp h).2
  show c.toNat - 48 < 10
  omega

theorem digitsValue_lt {digits : List Char} (h : ∀ c ∈ digits, c.isDigit = true) :
    digitsValue digits < 10 ^ digits.length := by
  induction digits with
  | nil => exact Nat.one_pos
  | cons c rest ih =>
      have hc := toNat_sub_lt_ten (h c (List.mem_cons_self ..))
      have hrest := ih fun d hd => h d (List.mem_cons_of_mem c hd)
      rw [digitsValue_cons, List.length_cons, pow_succ]
      have hle : (c.toNat - '0'.toNat) * 10 ^ rest.length ≤ 9 * 10 ^ rest.length :=
        Nat.mul_le_mul_right _ (by omega)
      omega

/-- A digit in front that is no zero counts. -/
theorem le_digitsValue {c : Char} (hdigit : c.isDigit = true) (hzero : c ≠ '0')
    (rest : List Char) : 10 ^ rest.length ≤ digitsValue (c :: rest) := by
  have hworth : 1 ≤ c.toNat - '0'.toNat := by
    have hlow : 48 ≤ c.toNat := (Char.isDigit_iff_toNat.mp hdigit).1
    have hne : c.toNat ≠ 48 := fun h => hzero (Char.toNat_inj.mp h)
    show 1 ≤ c.toNat - 48
    omega
  rw [digitsValue_cons]
  calc 10 ^ rest.length ≤ (c.toNat - '0'.toNat) * 10 ^ rest.length :=
        Nat.le_mul_of_pos_left _ hworth
    _ ≤ _ := Nat.le_add_right _ _

/-- Zeros in front mean nothing. -/
theorem digitsValue_dropWhile (digits : List Char) :
    digitsValue (digits.dropWhile (· == '0')) = digitsValue digits := by
  induction digits with
  | nil => rfl
  | cons c rest ih =>
      by_cases hzero : c = '0'
      · subst hzero
        rw [List.dropWhile_cons_of_pos rfl, ih, digitsValue_cons]
        exact (Nat.zero_mul _ ▸ Nat.zero_add _).symm
      · rw [List.dropWhile_cons_of_neg (by simpa using hzero)]

end Barscript.Decimal
