import Mathlib.Data.List.DropRight
import Mathlib.Tactic.FinCases
import Barscript.Text.Blank

/-!
# Texts without blanks around them

`trim` gives a text back when no blank stands at either end of it, and what it gives is
such a text.
-/

namespace Barscript.Text

/-- A visible ASCII character is no blank. -/
theorem not_isBlank_of_visible {c : Char} (hlow : 0x20 < c.toNat) (hhigh : c.toNat < 0x7F) :
    isBlank c = false := by
  rw [Bool.eq_false_iff]
  unfold isBlank within blankRanges
  simp only [ne_eq, List.any_eq_true, Bool.and_eq_true, decide_eq_true_eq]
  rintro ⟨range, hrange, hbounds⟩
  fin_cases hrange <;> dsimp only at hbounds <;> omega

theorem not_isBlank_of_isDigit {c : Char} (h : c.isDigit = true) : isBlank c = false := by
  have hrange : 48 ≤ c.toNat ∧ c.toNat ≤ 57 := Char.isDigit_iff_toNat.mp h
  exact not_isBlank_of_visible (by omega) (by omega)

theorem not_isBlank_of_all {s : List Char} (h : (s.all fun c => !isBlank c) = true) :
    ∀ c ∈ s, isBlank c = false := by
  simpa using h

/-- `trimEnd` is the dropping of blanks at the end of a list. -/
theorem trimEnd_eq_rdropWhile (s : List Char) : trimEnd s = s.rdropWhile isBlank :=
  rfl

theorem trimStart_eq_self {s : List Char} (h : ∀ c ∈ s.head?, isBlank c = false) :
    trimStart s = s := by
  cases s with
  | nil => rfl
  | cons c rest => exact List.dropWhile_cons_of_neg (Bool.eq_false_iff.mp (h c rfl))

theorem trimEnd_eq_self {s : List Char} (h : ∀ c ∈ s.getLast?, isBlank c = false) :
    trimEnd s = s := by
  rw [trimEnd_eq_rdropWhile, List.rdropWhile_eq_self_iff]
  intro hne
  exact Bool.eq_false_iff.mp (h _ (List.getLast?_eq_getLast_of_ne_nil hne))

/-- A text whose ends are no blanks is left as it is. -/
theorem trim_eq_self {s : List Char} (hfirst : ∀ c ∈ s.head?, isBlank c = false)
    (hlast : ∀ c ∈ s.getLast?, isBlank c = false) : trim s = s := by
  unfold trim
  rw [trimStart_eq_self hfirst, trimEnd_eq_self hlast]

theorem not_isBlank_head?_trimStart (s : List Char) :
    ∀ c ∈ (trimStart s).head?, isBlank c = false := by
  intro c hc
  have hkept := List.head?_dropWhile_not isBlank s
  rw [show s.dropWhile isBlank = trimStart s from rfl] at hkept
  rw [Option.mem_def.mp hc] at hkept
  simpa using hkept

/-- What blanks at the end hide is no blank in front. -/
theorem not_isBlank_head?_trim (s : List Char) :
    ∀ c ∈ (trim s).head?, isBlank c = false := by
  intro c hc
  obtain ⟨behind, hsplit⟩ := List.rdropWhile_prefix isBlank (trimStart s)
  apply not_isBlank_head?_trimStart s c
  rw [← hsplit, List.head?_append, show (trimStart s).rdropWhile isBlank = trim s from rfl,
    Option.mem_def.mp hc]
  rfl

/-- A trimmed text has no blanks left to strip. -/
@[simp] theorem trim_trim (s : List Char) : trim (trim s) = trim s := by
  show trimEnd (trimStart (trim s)) = trim s
  rw [trimStart_eq_self (not_isBlank_head?_trim s)]
  exact List.rdropWhile_idempotent isBlank (trimStart s)

end Barscript.Text
