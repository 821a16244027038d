import Barscript.Decimal.Shortest

/-!
# Numbers as text

Three layouts are in use.  `plain` writes the shortest digits without an exponent, however long the
number gets; it is how scripts, settings and messages show a number.  `fixed` writes a given number
of places and rounds the exact value, a half going to the even neighbour.  `compact` writes the
shortest digits and switches to an exponent for very small and very large numbers; it is how the
report file stores a number.
-/

namespace Barscript.Decimal

/-- The digits of a natural number. -/
def natDigits (n : Nat) : List Char :=
  Nat.toDigits 10 n

/-- The layout of `digits * 10 ^ exponent` without an exponent: a point only where digits
follow it. -/
def positional (digits : List Char) (exponent : Int) : List Char :=
  if 0 ≤ exponent then digits ++ List.replicate exponent.toNat '0'
  else
    let places := (-exponent).toNat
    if places < digits.length then
      digits.take (digits.length - places) ++ '.' :: digits.drop (digits.length - places)
    else '0' :: '.' :: List.replicate (places - digits.length) '0' ++ digits

/-- The words for the doubles that are no numbers, and `finite` for the others. -/
def spelled (x : Float) (finite : Unit → List Char) : List Char :=
  if x.isNaN then ['N', 'a', 'N']
  else signText x ++ (if x.isInf then ['i', 'n', 'f'] else finite ())

/-- The shortest digits that read back, without an exponent.  Zero keeps its sign. -/
def plain (x : Float) : List Char :=
  spelled x fun _ =>
    let m := magnitude x
    if m.mantissa = 0 then ['0']
    else
      let d := shortest .up m
      positional (natDigits d.digits) d.exponent

/-- The quotient of two natural numbers to the nearest integer, a half to the even one. -/
def roundedQuotient (num den : Nat) : Nat :=
  let below := num / den
  let rest := 2 * (num % den)
  if rest < den then below else if den < rest then below + 1 else Tie.even.choose below

/-- The magnitude in units of the last of `places` decimal places. -/
def Magnitude.inPlaces (x : Magnitude) (places : Nat) : Nat :=
  roundedQuotient (x.mantissa * Nat.pow 2 x.exponent.toNat * Nat.pow 10 places)
    (Nat.pow 2 (-x.exponent).toNat)

/-- Text filled up on the left to a width. -/
def padStart (width : Nat) (fill : Char) (text : List Char) : List Char :=
  List.replicate (width - text.length) fill ++ text

/-- Text filled up on the right to a width. -/
def padEnd (width : Nat) (fill : Char) (text : List Char) : List Char :=
  text ++ List.replicate (width - text.length) fill

/-- The number with exactly `places` decimal places. -/
def fixed (places : Nat) (x : Float) : List Char :=
  spelled x fun _ =>
    let digits := padStart (places + 1) '0' (natDigits ((magnitude x).inPlaces places))
    let whole := digits.length - places
    if places = 0 then digits else digits.take whole ++ '.' :: digits.drop whole

/-- The exponents that `compact` writes out in full: those of the first digit from `10 ^ -5` to
`10 ^ 15`. -/
def compactLeast : Int := -5

/-- The greatest exponent of the first digit that `compact` writes in full. -/
def compactGreatest : Int := 15

/-- The shortest digits that read back, with an exponent when the number is very small or very
large; `none` for what is not a finite number.  A whole number written in full ends in `.0`. -/
def compact? (x : Float) : Option (List Char) :=
  if x.isNaN || x.isInf then none
  else
    let m := magnitude x
    let body :=
      if m.mantissa = 0 then ['0', '.', '0']
      else
        let d := shortest .even m
        let digits := natDigits d.digits
        let lead := d.exponent + digits.length - 1
        if compactLeast ≤ lead ∧ lead ≤ compactGreatest then
          positional digits d.exponent ++ (if 0 ≤ d.exponent then ['.', '0'] else [])
        else
          let fraction := digits.drop 1
          digits.take 1 ++ (if fraction.isEmpty then [] else '.' :: fraction) ++
            'e' :: (if lead < 0 then '-' else '+') :: natDigits lead.natAbs
    some (signText x ++ body)

/-- `plain` as a string. -/
def plainText (x : Float) : String :=
  String.ofList (plain x)

/-- `fixed` as a string. -/
def fixedText (places : Nat) (x : Float) : String :=
  String.ofList (fixed places x)

end Barscript.Decimal
