/-!
# Reading numbers

The grammar of a number in a script, a table cell or a settings file: an optional sign, then one
of the words `inf`, `infinity`, `nan` in any case, or digits with an optional point and an optional
exponent.  At least one digit has to stand before the exponent; nothing else may surround the
number.  The result is the double nearest to the number, an infinity when it is too large.
-/

namespace Barscript.Decimal

/-- The value of a list of digits. -/
def digitsValue (digits : List Char) : Nat :=
  digits.foldl (fun value c => value * 10 + (c.toNat - '0'.toNat)) 0

/-- A non-empty list of digits read as a number. -/
def readNat? (text : List Char) : Option Nat :=
  if text.isEmpty || !text.all Char.isDigit then none else some (digitsValue text)

/-- An optional sign, and the text after it. -/
def splitSign : List Char → Bool × List Char
  | '-' :: rest => (true, rest)
  | '+' :: rest => (false, rest)
  | text => (false, text)

/-- Digits after an optional sign, read as an integer. -/
def readInt? (text : List Char) : Option Int :=
  let (negative, digits) := splitSign text
  (readNat? digits).map fun n => if negative then -(n : Int) else n

/-- The exponent part: absent, or `e` and an integer. -/
def readExponent? : List Char → Option Int
  | [] => some 0
  | c :: rest => if c = 'e' ∨ c = 'E' then readInt? rest else none

/-- The double nearest to the number with some digits, times a power of ten.  The number has
`places` digits before its point, zeros in front not counted; where that is far beyond any double,
the number is certain to overflow or to vanish and the arithmetic is spared. -/
def nearest (digits : List Char) (exponent : Int) : Float :=
  let significant := digits.dropWhile (· == '0')
  let places := exponent + significant.length
  if significant.isEmpty then 0.0
  else if (400 : Int) < places then 1.0 / 0.0
  else if places < (-400 : Int) then 0.0
  else Float.ofScientific (digitsValue significant) (exponent < 0) exponent.natAbs

/-- Digits with an optional point and an optional exponent, read as a number. -/
def readUnsigned? (text : List Char) : Option Float :=
  let whole := text.takeWhile Char.isDigit
  let afterWhole := text.dropWhile Char.isDigit
  let (fraction, rest) := match afterWhole with
    | '.' :: more => (more.takeWhile Char.isDigit, more.dropWhile Char.isDigit)
    | _ => ([], afterWhole)
  let digits := whole ++ fraction
  if digits.isEmpty then none
  else (readExponent? rest).map fun exponent =>
    nearest digits (exponent - fraction.length)

/-- The words that stand for a number. -/
def readWord? (text : List Char) : Option Float :=
  let word := text.map Char.toLower
  if word = ['i', 'n', 'f'] ∨ word = ['i', 'n', 'f', 'i', 'n', 'i', 't', 'y'] then some (1.0 / 0.0)
  else if word = ['n', 'a', 'n'] then some (0.0 / 0.0)
  else none

/-- The number that a text spells. -/
def read? (text : List Char) : Option Float :=
  let (negative, rest) := splitSign text
  let value := (readWord? rest).or (readUnsigned? rest)
  value.map fun x => if negative then -x else x

/-- `read?` on strings. -/
def readText? (text : String) : Option Float :=
  read? text.toList

end Barscript.Decimal
