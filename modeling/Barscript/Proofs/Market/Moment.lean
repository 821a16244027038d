import Mathlib.Data.List.TakeWhile
import Barscript.Proofs.Decimal.Digits
import Barscript.Proofs.Market.Calendar
import Barscript.Proofs.Text.Blank
import Barscript.Market.Moment

/-!
# A written time reads back

Date and time with a blank between them, every part in full width, are read as the moment
they were written from (`read?_dateTime`). The first format gets as far as the end of the
text, where it misses the offset; so no earlier format captures the text of a later one.
-/

namespace Barscript.Market

open Barscript.Text Barscript.Decimal

/-! ## Digits in full width -/

/-- A reader takes a text for a value, whatever follows. -/
def Takes {α : Type} (take : List Char → Option (α × List Char)) (text : List Char)
    (value : α) : Prop :=
  ∀ rest, take (text ++ rest) = some (value, rest)

section

variable {width n : ℕ}

theorem isDigit_padStart :
    ∀ c ∈ padStart width '0' (natDigits n), c.isDigit = true := by
  intro c hc
  rcases List.mem_append.mp hc with hzero | hdigit
  · rw [List.eq_of_mem_replicate hzero]
    rfl
  · exact isDigit_of_mem_natDigits hdigit

theorem digitsValue_padStart : digitsValue (padStart width '0' (natDigits n)) = n := by
  unfold padStart
  rw [digitsValue_append, digitsValue_zeros, digitsValue_natDigits, Nat.zero_mul, Nat.zero_add]

theorem length_padStart (hwidth : 0 < width) (h : n < 10 ^ width) :
    (padStart width '0' (natDigits n)).length = width := by
  have hlength : (natDigits n).length ≤ width :=
    (Nat.length_toDigits_le_iff (by decide) hwidth).mpr h
  unfold padStart
  rw [List.length_append, List.length_replicate]
  omega

/-- A number that fills its width is read as that number. -/
theorem takes_padStart {least : ℕ} (hwidth : 0 < width) (hleast : least ≤ width)
    (h : n < 10 ^ width) :
    Takes (takeNumber least width) (padStart width '0' (natDigits n)) n := by
  intro rest
  have hlength := length_padStart hwidth h
  have htake : ((padStart width '0' (natDigits n) ++ rest).take width).takeWhile Char.isDigit =
      padStart width '0' (natDigits n) := by
    rw [List.take_append_of_le_length hlength.ge, List.take_of_length_le hlength.le]
    exact List.takeWhile_eq_self_iff.mpr isDigit_padStart
  unfold takeNumber takeDigits
  dsimp only
  rw [htake, if_neg (by omega), List.drop_left]
  show some (digitsValue _, rest) = _
  rw [digitsValue_padStart]

end

/-- A number has no blanks in front. -/
theorem trimStart_padStart {width n : ℕ} (rest : List Char) :
    trimStart (padStart width '0' (natDigits n) ++ rest) =
      padStart width '0' (natDigits n) ++ rest := by
  have hne : padStart width '0' (natDigits n) ≠ [] :=
    List.append_ne_nil_of_right_ne_nil _ (natDigits_ne_nil n)
  apply trimStart_eq_self
  intro c hc
  rw [List.head?_append_of_ne_nil _ hne] at hc
  exact not_isBlank_of_isDigit (isDigit_padStart c (List.mem_of_mem_head? hc))

/-- Nor has it any behind. -/
theorem trimEnd_padStart {width n : ℕ} (front : List Char) :
    trimEnd (front ++ padStart width '0' (natDigits n)) =
      front ++ padStart width '0' (natDigits n) := by
  have hne : padStart width '0' (natDigits n) ≠ [] :=
    List.append_ne_nil_of_right_ne_nil _ (natDigits_ne_nil n)
  apply trimEnd_eq_self
  intro c hc
  rw [List.getLast?_append_of_ne_nil _ hne] at hc
  exact not_isBlank_of_isDigit (isDigit_padStart c (List.mem_of_mem_getLast? hc))

/-! ## Dates and times of day -/

/-- A part of a date or of a time of day, read in either way. -/
theorem takes_twoDigits {n : ℕ} (h : n < 100) : Takes (takeNumber 2 2) (twoDigits n) n :=
  takes_padStart two_pos le_rfl h

theorem takes_loosePart {n : ℕ} (h : n < 100) : Takes takeLoosePart (twoDigits n) n := by
  intro rest
  unfold takeLoosePart twoDigits
  rw [trimStart_padStart]
  exact takes_padStart two_pos one_le_two h rest

section

variable {year : ℤ}

theorem yearText_eq (h : 0 ≤ year ∧ year ≤ 9999) :
    yearText year = padStart 4 '0' (natDigits year.natAbs) := by
  unfold yearText
  rw [if_neg (not_lt.mpr h.1), if_neg (not_lt.mpr h.2)]

theorem takes_yearDigits {least : ℕ} (hleast : least ≤ 4) (h : 0 ≤ year ∧ year ≤ 9999) :
    Takes (takeYear least 4) (yearText year) year := by
  intro rest
  have hnumber := takes_padStart four_pos hleast (show year.natAbs < 10 ^ 4 by omega) rest
  unfold takeYear
  rw [yearText_eq h, hnumber]
  show some ((year.natAbs : ℤ), rest) = _
  rw [Int.natAbs_of_nonneg h.1]

theorem takes_looseYear (h : 0 ≤ year ∧ year ≤ 9999) :
    Takes takeLooseYear (yearText year) year := by
  intro rest
  have hread := takes_yearDigits (by decide : 1 ≤ 4) h rest
  unfold takeLooseYear
  rw [yearText_eq h] at hread ⊢
  rw [trimStart_padStart]
  split
  · rename_i hsign
    rw [hsign] at hread
    cases hread
  · rename_i hsign
    rw [hsign] at hread
    cases hread
  · exact hread

end

section

variable {d : Date} {year : List Char → Option (ℤ × List Char)}
  {part : List Char → Option (ℕ × List Char)}

theorem takes_date (hyear : Takes year (yearText d.year) d.year)
    (hpart : ∀ n < 100, Takes part (twoDigits n) n) (hmonth : d.month < 100)
    (hday : d.day < 100) (hvalid : d.isValid = true) : Takes (takeDate year part) d.text d := by
  intro rest
  have htext : d.text ++ rest = yearText d.year ++ ('-' :: (twoDigits d.month ++
      ('-' :: (twoDigits d.day ++ rest)))) := by
    unfold Date.text
    simp
  unfold takeDate
  rw [htext]
  simp only [hyear _, hpart _ hmonth _, hpart _ hday _, takeChar, if_true, Option.bind_eq_bind,
    Option.bind_some]
  exact if_pos hvalid

theorem takes_clock {hour minute second : ℕ} (hpart : ∀ n < 100, Takes part (twoDigits n) n)
    (hhour : hour ≤ 23) (hminute : minute ≤ 59) (hsecond : second ≤ 60) :
    Takes (takeClock part)
      (twoDigits hour ++ ':' :: twoDigits minute ++ ':' :: twoDigits second)
      (hour, minute, second) := by
  intro rest
  have htext : twoDigits hour ++ ':' :: twoDigits minute ++ ':' :: twoDigits second ++ rest =
      twoDigits hour ++ (':' :: (twoDigits minute ++ (':' :: (twoDigits second ++ rest)))) := by
    simp
  unfold takeClock
  rw [htext]
  simp only [hpart hour (by omega) _, hpart minute (by omega) _, hpart second (by omega) _,
    takeChar, if_true, Option.bind_eq_bind, Option.bind_some]
  exact if_pos ⟨hhour, hminute, hsecond⟩

end

/-! ## Moments -/

section

variable {m : Moment}

/-- The parts of a whole second's time of day. -/
theorem clockText_eq (hnanos : m.nanos = 0) :
    m.clockText = twoDigits (m.secondOfDay / 3600) ++ ':' ::
      twoDigits (m.secondOfDay / 60 % 60) ++ ':' :: twoDigits (m.secondOfDay % 60) := by
  unfold Moment.clockText
  rw [hnanos]
  rfl

theorem secondOfDay_lt : m.secondOfDay < 86400 := by
  unfold Moment.secondOfDay daySeconds
  omega

/-- A moment is put together from its date and its time of day. -/
theorem ofParts_date (hnanos : m.nanos = 0) :
    Moment.ofParts m.date (m.secondOfDay / 3600) (m.secondOfDay / 60 % 60)
      (m.secondOfDay % 60) 0 = m := by
  obtain ⟨seconds, nanos⟩ := m
  obtain rfl : nanos = 0 := hnanos
  have hsecond : ((seconds % daySeconds).toNat : ℤ) = seconds % daySeconds :=
    Int.toNat_of_nonneg (Int.emod_nonneg _ (by decide))
  have hlt := secondOfDay_lt (m := ⟨seconds, 0⟩)
  unfold Moment.secondOfDay daySeconds at hlt hsecond
  unfold Moment.ofParts Moment.date Moment.secondOfDay daySeconds
  rw [toDay_ofDay]
  dsimp only at hlt ⊢
  generalize (seconds % 86400).toNat = t at hlt hsecond
  have hleap : ¬ t % 60 = 60 := by omega
  rw [if_neg hleap, if_neg hleap]
  congr 1
  omega

/-- The date of a moment lies in the years of four digits. -/
def Moment.InFourDigits (m : Moment) : Prop :=
  0 ≤ m.date.year ∧ m.date.year ≤ 9999

/-- What a table says of a moment: date and time with a blank between them. -/
def Moment.dateTime (m : Moment) : List Char :=
  m.date.text ++ ' ' :: m.clockText

/-- The date of a moment is read by any readers of its parts. -/
theorem takes_momentDate {year : List Char → Option (ℤ × List Char)}
    {part : List Char → Option (ℕ × List Char)}
    (hyear : Takes year (yearText m.date.year) m.date.year)
    (hpart : ∀ n < 100, Takes part (twoDigits n) n) :
    Takes (takeDate year part) m.date.text m.date := by
  have hbounds := ofDay_bounds (m.seconds / daySeconds)
  exact takes_date hyear hpart (hbounds.1.trans (by decide)) (hbounds.2.trans (by decide))
    (isValid_ofDay _)

/-- So is its time of day. -/
theorem takes_clockText {part : List Char → Option (ℕ × List Char)} (hnanos : m.nanos = 0)
    (hpart : ∀ n < 100, Takes part (twoDigits n) n) :
    Takes (takeClock part) m.clockText
      (m.secondOfDay / 3600, m.secondOfDay / 60 % 60, m.secondOfDay % 60) := by
  have hday := secondOfDay_lt (m := m)
  rw [clockText_eq hnanos]
  exact takes_clock hpart (by omega) (by omega) (by omega)

theorem trimStart_clockText (hnanos : m.nanos = 0) :
    trimStart (' ' :: m.clockText) = m.clockText := by
  rw [clockText_eq hnanos, List.append_assoc]
  exact trimStart_padStart _

/-- A written time has no blanks around it. -/
theorem trim_dateTime (hnanos : m.nanos = 0) (hyear : m.InFourDigits) :
    trim m.dateTime = m.dateTime := by
  have hstart : trimStart m.dateTime = m.dateTime := by
    unfold Moment.dateTime Date.text
    rw [yearText_eq hyear, List.append_assoc, List.append_assoc]
    exact trimStart_padStart _
  have hend : trimEnd m.dateTime = m.dateTime := by
    obtain ⟨front, hsplit⟩ : ∃ front, m.dateTime = front ++ twoDigits (m.secondOfDay % 60) :=
      ⟨m.date.text ++ ' ' :: (twoDigits (m.secondOfDay / 3600) ++ ':' ::
        twoDigits (m.secondOfDay / 60 % 60) ++ [':']), by
        simp [Moment.dateTime, clockText_eq hnanos]⟩
    rw [hsplit]
    exact trimEnd_padStart front
  unfold trim
  rw [hstart, hend]

/-- Behind the time of day the offset is missing. -/
theorem readWithOffset?_dateTime (hnanos : m.nanos = 0) (hyear : m.InFourDigits) :
    readWithOffset? m.dateTime = none := by
  have hdate := takes_momentDate (m := m) (takes_yearDigits le_rfl hyear)
    (fun n hn => takes_twoDigits hn) (' ' :: m.clockText)
  have hclock := takes_clockText hnanos (fun n hn => takes_twoDigits hn) []
  rw [List.append_nil] at hclock
  have hblank : (takeChar 'T' (' ' :: m.clockText)).or ((takeChar 't' (' ' :: m.clockText)).or
      (takeChar ' ' (' ' :: m.clockText))) = some m.clockText := rfl
  unfold readWithOffset? Moment.dateTime
  simp only [hdate, hblank, hclock, takeFraction, takeOffset, Option.bind_eq_bind,
    Option.bind_some]
  rfl

theorem readDateTime?_dateTime (hnanos : m.nanos = 0) (hyear : m.InFourDigits) :
    readDateTime? m.dateTime = some m := by
  have hdate := takes_momentDate (m := m) (takes_looseYear hyear)
    (fun n hn => takes_loosePart hn) (' ' :: m.clockText)
  have hclock := takes_clockText hnanos (fun n hn => takes_loosePart hn) []
  rw [List.append_nil] at hclock
  have hinCalendar : yearBounds.1 ≤ m.date.year ∧ m.date.year ≤ yearBounds.2 :=
    ⟨le_trans (by decide) hyear.1, le_trans hyear.2 (by decide)⟩
  unfold readDateTime? takeLooseDate Moment.dateTime
  simp only [hdate, hclock, trimStart_clockText hnanos, Option.bind_eq_bind,
    Option.bind_some, if_pos hinCalendar, ofParts_date hnanos]
  rfl

/-- **A written time reads back.** -/
theorem read?_dateTime (hnanos : m.nanos = 0) (hyear : m.InFourDigits) :
    Moment.read? m.dateTime = some m := by
  unfold Moment.read?
  rw [readWithOffset?_dateTime hnanos hyear, readDateTime?_dateTime hnanos hyear]
  rfl

end

end Barscript.Market
