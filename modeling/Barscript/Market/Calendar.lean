/-!
# The calendar

Days are counted from 1 January 1970.  The calendar repeats every 400 years, an *era*; within an
era it is easiest to begin the year on 1 March, so that the leap day is the last day of its year.

`Date.ofDay` and `Date.toDay` go back and forth.  A date is valid when it is the date of its own day,
which rules out the thirtieth of February and a thirteenth month without a table of months.
-/

namespace Barscript.Market

/-- A year, a month from 1 and a day of the month from 1. -/
structure Date where
  year : Int
  month : Nat
  day : Nat
deriving DecidableEq, Repr

/-- The days of 400 years. -/
def eraDays : Int := 146097

/-- The days from 1 March of the year 0 to 1 January 1970. -/
def epochShift : Int := 719468

/-- The day of a date. -/
def Date.toDay (d : Date) : Int :=
  let year := if d.month ≤ 2 then d.year - 1 else d.year
  let era := year / 400
  let yearOfEra := year % 400
  let monthFromMarch : Int := (d.month + 9) % 12
  let dayOfYear := (153 * monthFromMarch + 2) / 5 + d.day - 1
  era * eraDays + (yearOfEra * 365 + yearOfEra / 4 - yearOfEra / 100 + dayOfYear) - epochShift

/-- The date of a day. -/
def Date.ofDay (day : Int) : Date :=
  let shifted := day + epochShift
  let era := shifted / eraDays
  let dayOfEra := shifted % eraDays
  let yearOfEra :=
    (dayOfEra - dayOfEra / 1460 + dayOfEra / 36524 - dayOfEra / 146096) / 365
  let dayOfYear := dayOfEra - (365 * yearOfEra + yearOfEra / 4 - yearOfEra / 100)
  let monthFromMarch := (5 * dayOfYear + 2) / 153
  let month := if monthFromMarch < 10 then monthFromMarch + 3 else monthFromMarch - 9
  { year := yearOfEra + era * 400 + (if month ≤ 2 then 1 else 0)
    month := month.toNat
    day := (dayOfYear - (153 * monthFromMarch + 2) / 5 + 1).toNat }

/-- Whether the date is in the calendar. -/
def Date.isValid (d : Date) : Bool :=
  Date.ofDay d.toDay == d

end Barscript.Market
