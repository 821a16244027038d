import Barscript.Market.Calendar
import Mathlib.Tactic.Common

/-!
# Days and their dates

The date of a day is a date in the calendar, and it belongs to that day (`toDay_ofDay`). An
era is divided by divisions that are off by a day here and there: each of its centuries but
the last has 36524 days, and within a century the divisor 1460 takes out as many leap days
as there were.
-/

namespace Barscript.Market

/-! ## Years of an era -/

/-- The year of an era that a day of the era lies in. -/
def yearOfEra (dayOfEra : Int) : Int :=
  (dayOfEra - dayOfEra / 1460 + dayOfEra / 36524 - dayOfEra / 146096) / 365

/-- The day of the year, from 1 March on. -/
def dayOfYear (dayOfEra : Int) : Int :=
  dayOfEra - (365 * yearOfEra dayOfEra + yearOfEra dayOfEra / 4 - yearOfEra dayOfEra / 100)

section

variable {century rest : Int}

/-- In a century the years are counted as if it were the first. -/
theorem yearOfEra_century (hcentury : 0 ≤ century ∧ century ≤ 3)
    (hrest : 0 ≤ rest ∧ rest < 36524) :
    yearOfEra (36524 * century + rest) =
      100 * century + (rest - (24 * century + rest) / 1460) / 365 := by
  unfold yearOfEra
  have hleap : (36524 * century + rest) / 1460 =
      25 * century + (24 * century + rest) / 1460 := by omega
  have hcenturies : (36524 * century + rest) / 36524 = century := by omega
  have hlast : (36524 * century + rest) / 146096 = 0 := by omega
  rw [hleap, hcenturies, hlast]
  omega

theorem year_bounds (hcentury : 0 ≤ century ∧ century ≤ 3) (hrest : 0 ≤ rest ∧ rest < 36524) :
    0 ≤ (rest - (24 * century + rest) / 1460) / 365 ∧
      (rest - (24 * century + rest) / 1460) / 365 < 100 := by
  omega

theorem dayOfYear_century (hcentury : 0 ≤ century ∧ century ≤ 3)
    (hrest : 0 ≤ rest ∧ rest < 36524) :
    0 ≤ dayOfYear (36524 * century + rest) ∧ dayOfYear (36524 * century + rest) ≤ 365 := by
  have hyear := yearOfEra_century hcentury hrest
  have hbounds := year_bounds hcentury hrest
  unfold dayOfYear
  rw [hyear]
  generalize hleap : (24 * century + rest) / 1460 = leap at hbounds
  generalize hn : (rest - leap) / 365 = n at hbounds
  have hquarter : (100 * century + n) / 4 = 25 * century + n / 4 := by omega
  have hhundred : (100 * century + n) / 100 = century := by omega
  rw [hquarter, hhundred]
  have hle : n / 4 ≤ leap := by omega
  have hge : leap ≤ n / 4 + 1 := by omega
  omega

end

/-- A day of an era lies in one of its four centuries, or it is the last. -/
theorem dayOfEra_cases {day : Int} (h : 0 ≤ day ∧ day < eraDays) :
    day = 146096 ∨ ∃ century rest, (0 ≤ century ∧ century ≤ 3) ∧ (0 ≤ rest ∧ rest < 36524) ∧
      day = 36524 * century + rest := by
  unfold eraDays at h
  by_cases hlast : day = 146096
  · exact .inl hlast
  · exact .inr ⟨day / 36524, day % 36524, by omega, by omega, by omega⟩

theorem yearOfEra_bounds {day : Int} (h : 0 ≤ day ∧ day < eraDays) :
    0 ≤ yearOfEra day ∧ yearOfEra day < 400 := by
  rcases dayOfEra_cases h with rfl | ⟨century, rest, hcentury, hrest, rfl⟩
  · decide
  · have hbounds := year_bounds hcentury hrest
    rw [yearOfEra_century hcentury hrest]
    omega

theorem dayOfYear_bounds {day : Int} (h : 0 ≤ day ∧ day < eraDays) :
    0 ≤ dayOfYear day ∧ dayOfYear day ≤ 365 := by
  rcases dayOfEra_cases h with rfl | ⟨century, rest, hcentury, hrest, rfl⟩
  · decide
  · exact dayOfYear_century hcentury hrest

/-! ## Dates -/

/-- The month, counted from March on, of a day of the year. -/
def monthFromMarch (dayOfYear : Int) : Int :=
  (5 * dayOfYear + 2) / 153

/-- The parts of a date, from those of its day. -/
theorem ofDay_parts (day : Int) :
    ∃ era year yearDay month : Int, (0 ≤ year ∧ year < 400) ∧ (0 ≤ month ∧ month ≤ 11) ∧
      (0 ≤ yearDay - (153 * month + 2) / 5 ∧ yearDay - (153 * month + 2) / 5 ≤ 30) ∧
      day = era * eraDays + (365 * year + year / 4 - year / 100 + yearDay) - epochShift ∧
      Date.ofDay day =
        { year := year + era * 400 + (if month < 10 then 0 else 1)
          month := (if month < 10 then month + 3 else month - 9).toNat
          day := (yearDay - (153 * month + 2) / 5 + 1).toNat } := by
  have hera : 0 ≤ (day + epochShift) % eraDays ∧ (day + epochShift) % eraDays < eraDays :=
    ⟨Int.emod_nonneg _ (by decide), Int.emod_lt_of_pos _ (by decide)⟩
  have hdivision := Int.mul_ediv_add_emod (day + epochShift) eraDays
  have hyear := yearOfEra_bounds hera
  have hyearDay := dayOfYear_bounds hera
  have hdayOfYear : dayOfYear ((day + epochShift) % eraDays) = (day + epochShift) % eraDays -
      (365 * yearOfEra ((day + epochShift) % eraDays) +
        yearOfEra ((day + epochShift) % eraDays) / 4 -
        yearOfEra ((day + epochShift) % eraDays) / 100) := rfl
  refine ⟨(day + epochShift) / eraDays, yearOfEra ((day + epochShift) % eraDays),
    dayOfYear ((day + epochShift) % eraDays),
    monthFromMarch (dayOfYear ((day + epochShift) % eraDays)), hyear, ?_, ?_, ?_, ?_⟩
  · unfold monthFromMarch
    omega
  · unfold monthFromMarch
    omega
  · rw [Int.mul_comm] at hdivision
    omega
  · have hmonth : (if (if monthFromMarch (dayOfYear ((day + epochShift) % eraDays)) < 10
          then monthFromMarch (dayOfYear ((day + epochShift) % eraDays)) + 3
          else monthFromMarch (dayOfYear ((day + epochShift) % eraDays)) - 9) ≤ 2
        then (1 : Int) else 0) =
          if monthFromMarch (dayOfYear ((day + epochShift) % eraDays)) < 10 then 0 else 1 := by
      unfold monthFromMarch
      split <;> split <;> omega
    rw [← hmonth]
    rfl

/-- **A day is the day of its date.** -/
theorem toDay_ofDay (day : Int) : (Date.ofDay day).toDay = day := by
  obtain ⟨era, year, yearDay, month, hyear, hmonth, hday, hvalue, hdate⟩ := ofDay_parts day
  have hcount : ((yearDay - (153 * month + 2) / 5 + 1).toNat : Int) =
      yearDay - (153 * month + 2) / 5 + 1 := Int.toNat_of_nonneg (by omega)
  rw [hdate]
  unfold Date.toDay
  dsimp only
  rw [hcount]
  unfold eraDays at hvalue ⊢
  by_cases hspring : month < 10
  · have hname : ((month + 3).toNat : Int) = month + 3 := Int.toNat_of_nonneg (by omega)
    have hyears : (year + era * 400 + 0) / 400 = era ∧ (year + era * 400 + 0) % 400 = year := by
      omega
    have hmonths : (month + 3 + 9) % 12 = month := by omega
    rw [if_pos hspring, if_pos hspring, if_neg (by omega), hname, hyears.1, hyears.2, hmonths]
    omega
  · have hname : ((month - 9).toNat : Int) = month - 9 := Int.toNat_of_nonneg (by omega)
    have hyears : (year + era * 400 + 1 - 1) / 400 = era ∧
        (year + era * 400 + 1 - 1) % 400 = year := by
      omega
    have hmonths : (month - 9 + 9) % 12 = month := by omega
    rw [if_neg hspring, if_neg hspring, if_pos (by omega), hname, hyears.1, hyears.2, hmonths]
    omega

/-- The months of a date are numbered up to twelve, and its days up to thirty-one. -/
theorem ofDay_bounds (day : Int) :
    (Date.ofDay day).month < 13 ∧ (Date.ofDay day).day < 32 := by
  obtain ⟨era, year, yearDay, month, -, hmonth, hday, -, hdate⟩ := ofDay_parts day
  rw [hdate]
  dsimp only
  constructor
  · split <;> omega
  · omega

theorem isValid_ofDay (day : Int) : (Date.ofDay day).isValid = true := by
  unfold Date.isValid
  rw [toDay_ofDay, beq_self_eq_true]

end Barscript.Market
