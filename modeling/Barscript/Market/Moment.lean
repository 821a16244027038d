import Barscript.Market.Calendar
import Barscript.Text.Blank
import Barscript.Decimal.Text
import Barscript.Decimal.Reader

/-!
# Moments

The time of a bar, without a time zone.  A moment is read from one of four formats, tried in turn:
date and time with an offset (`2024-03-01T12:30:00+02:00`), date and time (`2024-03-01 12:30:00`),
a date alone, and a count of seconds.  It is written in one format, with as many places of a second
as it needs.
-/

namespace Barscript.Market

open Barscript.Text Barscript.Decimal

/-- Seconds since 1 January 1970, and nanoseconds.  In a leap second the nanoseconds reach past one
second. -/
structure Moment where
  seconds : Int
  nanos : Nat
deriving DecidableEq, Repr

/-- The seconds of a day. -/
def daySeconds : Int := 86400

/-- The nanoseconds of a second. -/
def secondNanos : Nat := 1000000000

/-- The moment at a number of seconds. -/
def Moment.ofSeconds (seconds : Int) : Moment :=
  ⟨seconds, 0⟩

/-- Milliseconds since 1 January 1970, what scripts read as the time of a bar. -/
def Moment.milliseconds (m : Moment) : Int :=
  m.seconds * 1000 + (m.nanos / 1000000 : Nat)

/-- The moment of a time of day on a date. -/
def Moment.ofParts (date : Date) (hour minute second nanos : Nat) : Moment :=
  let leap := second = 60
  ⟨date.toDay * daySeconds + hour * 3600 + minute * 60 + (if leap then 59 else second : Nat),
    if leap then nanos + secondNanos else nanos⟩

/-- The first and the last year of the calendar in use. -/
def yearBounds : Int × Int := (-262143, 262142)

/-- Whether a moment lies in the years of the calendar in use. -/
def Moment.inCalendar (m : Moment) : Bool :=
  Date.toDay ⟨yearBounds.1, 1, 1⟩ * daySeconds ≤ m.seconds ∧
    m.seconds < Date.toDay ⟨yearBounds.2 + 1, 1, 1⟩ * daySeconds

/-! ## Writing -/

/-- A number in at least two digits. -/
def twoDigits (n : Nat) : List Char :=
  padStart 2 '0' (natDigits n)

/-- A year in at least four digits; outside the four-digit years with its sign. -/
def yearText (year : Int) : List Char :=
  let digits := padStart 4 '0' (natDigits year.natAbs)
  if year < 0 then '-' :: digits else if 9999 < year then '+' :: digits else digits

/-- A date as year, month and day. -/
def Date.text (d : Date) : List Char :=
  yearText d.year ++ '-' :: twoDigits d.month ++ '-' :: twoDigits d.day

/-- A part of a second in the fewest of three, six or nine places that are exact. -/
def fractionText (nanos : Nat) : List Char :=
  if nanos = 0 then []
  else if nanos % 1000000 = 0 then '.' :: padStart 3 '0' (natDigits (nanos / 1000000))
  else if nanos % 1000 = 0 then '.' :: padStart 6 '0' (natDigits (nanos / 1000))
  else '.' :: padStart 9 '0' (natDigits nanos)

/-- The date of a moment. -/
def Moment.date (m : Moment) : Date :=
  Date.ofDay (m.seconds / daySeconds)

/-- The second of the day of a moment. -/
def Moment.secondOfDay (m : Moment) : Nat :=
  (m.seconds % daySeconds).toNat

/-- The time of day as hours, minutes and seconds; a leap second is the sixtieth. -/
def Moment.clockText (m : Moment) : List Char :=
  let t := m.secondOfDay
  let second := t % 60 + m.nanos / secondNanos
  twoDigits (t / 3600) ++ ':' :: twoDigits (t / 60 % 60) ++ ':' :: twoDigits second

/-- A moment with the letter `T` between date and time. -/
def Moment.text (m : Moment) : List Char :=
  m.date.text ++ 'T' :: m.clockText ++ fractionText (m.nanos % secondNanos)

/-- `Moment.text` as a string. -/
def Moment.render (m : Moment) : String :=
  String.ofList m.text

/-! ## Reading

A reader yields a value and the text behind it. -/

/-- Between `least` and `most` digits, as many as there are. -/
def takeDigits (least most : Nat) (text : List Char) : Option (List Char × List Char) :=
  let digits := (text.take most).takeWhile Char.isDigit
  if digits.length < least then none else some (digits, text.drop digits.length)

/-- A number of between `least` and `most` digits. -/
def takeNumber (least most : Nat) (text : List Char) : Option (Nat × List Char) :=
  (takeDigits least most text).map fun (digits, rest) => (digitsValue digits, rest)

/-- The text behind a character. -/
def takeChar (c : Char) : List Char → Option (List Char)
  | d :: rest => if d = c then some rest else none
  | [] => none

/-- A date whose parts are read by `year` and `part`. -/
def takeDate (year : List Char → Option (Int × List Char))
    (part : List Char → Option (Nat × List Char)) (text : List Char) :
    Option (Date × List Char) := do
  let (year, rest) ← year text
  let rest ← takeChar '-' rest
  let (month, rest) ← part rest
  let rest ← takeChar '-' rest
  let (day, rest) ← part rest
  let date : Date := ⟨year, month, day⟩
  if date.isValid then some (date, rest) else none

/-- A time of day: hour, minute and second, where the second may be the sixtieth. -/
def takeClock (part : List Char → Option (Nat × List Char)) (text : List Char) :
    Option ((Nat × Nat × Nat) × List Char) := do
  let (hour, rest) ← part text
  let rest ← takeChar ':' rest
  let (minute, rest) ← part rest
  let rest ← takeChar ':' rest
  let (second, rest) ← part rest
  if hour ≤ 23 ∧ minute ≤ 59 ∧ second ≤ 60 then some ((hour, minute, second), rest) else none

/-- A part of a second: at least one digit behind a point, of which nine count. -/
def takeFraction : List Char → Option (Nat × List Char)
  | '.' :: rest => do
    let (digits, behind) ← takeDigits 1 9 rest
    some (digitsValue digits * Nat.pow 10 (9 - digits.length), behind.dropWhile Char.isDigit)
  | rest => some (0, rest)

/-- An offset from universal time in seconds: `Z`, or a sign, hours and minutes. -/
def takeOffset : List Char → Option (Int × List Char)
  | [] => none
  | c :: rest =>
    if c = 'Z' ∨ c = 'z' then some (0, rest)
    else if c = '+' ∨ c = '-' ∨ c = '−' then do
      let (hours, rest) ← takeNumber 2 2 rest
      let rest ← takeChar ':' rest
      let (minutes, rest) ← takeNumber 2 2 rest
      let offset : Int := hours * 3600 + minutes * 60
      if minutes ≤ 59 ∧ offset < daySeconds then some (if c = '+' then offset else -offset, rest)
      else none
    else none

/-- The value of a reader that used up the whole text. -/
def finished {α : Type} : Option (α × List Char) → Option α
  | some (value, []) => some value
  | _ => none

/-- A year without a sign. -/
def takeYear (least most : Nat) (text : List Char) : Option (Int × List Char) :=
  (takeNumber least most text).map fun (year, rest) => ((year : Int), rest)

/-- Date and time with an offset, every part in full width. -/
def readWithOffset? (text : List Char) : Option Moment := finished do
  let two := takeNumber 2 2
  let (date, rest) ← takeDate (takeYear 4 4) two text
  let rest ← (takeChar 'T' rest).or ((takeChar 't' rest).or (takeChar ' ' rest))
  let ((hour, minute, second), rest) ← takeClock two rest
  let (nanos, rest) ← takeFraction rest
  let (offset, rest) ← takeOffset rest
  let moment := Moment.ofParts date hour minute second nanos
  some (⟨moment.seconds - offset, moment.nanos⟩, rest)

/-- A year of up to four digits, or of any number of digits behind a sign.  Blanks may stand in
front. -/
def takeLooseYear (text : List Char) : Option (Int × List Char) :=
  match trimStart text with
  | '-' :: rest => (takeYear 1 rest.length rest).map fun (year, behind) => (-year, behind)
  | '+' :: rest => takeYear 1 rest.length rest
  | rest => takeYear 1 4 rest

/-- One or two digits; blanks may stand in front. -/
def takeLoosePart (text : List Char) : Option (Nat × List Char) :=
  takeNumber 1 2 (trimStart text)

/-- A date in the calendar in use, leading zeros not required. -/
def takeLooseDate (text : List Char) : Option (Date × List Char) := do
  let (date, rest) ← takeDate takeLooseYear takeLoosePart text
  if yearBounds.1 ≤ date.year ∧ date.year ≤ yearBounds.2 then some (date, rest) else none

/-- Date and time. -/
def readDateTime? (text : List Char) : Option Moment := finished do
  let (date, rest) ← takeLooseDate text
  let ((hour, minute, second), rest) ← takeClock takeLoosePart (trimStart rest)
  some (Moment.ofParts date hour minute second 0, rest)

/-- A date; the moment is its midnight. -/
def readDate? (text : List Char) : Option Moment :=
  (finished (takeLooseDate text)).map fun date => Moment.ofParts date 0 0 0 0

/-- A count of seconds within the calendar in use. -/
def readSeconds? (text : List Char) : Option Moment := do
  let moment := Moment.ofSeconds (← readInt? text)
  if moment.inCalendar then some moment else none

/-- The moment that a text states, by the first format that fits. -/
def Moment.read? (text : List Char) : Option Moment :=
  (readWithOffset? text).or ((readDateTime? text).or ((readDate? text).or (readSeconds? text)))

end Barscript.Market
