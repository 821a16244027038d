/-!
# The exact value of a double

Printing a double exactly starts from the number it stands for.  A finite double is a sign and a
magnitude `mantissa * 2 ^ exponent` with a natural mantissa, so every later question about its
decimal digits is a question about natural numbers.
-/

namespace Barscript.Decimal

/-- The number `mantissa * 2 ^ exponent`. -/
structure Magnitude where
  mantissa : Nat
  exponent : Int
deriving DecidableEq, Repr

/-- The least exponent of a double: below it there are no more bits. -/
def leastExponent : Int := -1074

/-- The first mantissa that uses all 53 bits. -/
def fullMantissa : Nat := Nat.pow 2 52

/-- Whether the sign bit is set; true of `-0` as well. -/
def isNegative (x : Float) : Bool :=
  x.toBits.toNat / Nat.pow 2 63 == 1

/-- The magnitude of a finite double.  Numbers with exponent field zero have no hidden bit. -/
def magnitude (x : Float) : Magnitude :=
  let bits : Nat := x.toBits.toNat
  let field : Nat := bits / Nat.pow 2 52 % Nat.pow 2 11
  let fraction : Nat := bits % Nat.pow 2 52
  if field = 0 then ⟨fraction, leastExponent⟩
  else ⟨fullMantissa + fraction, (field : Int) - 1 + leastExponent⟩

/-- The sign in front of a printed number. -/
def signText (x : Float) : List Char :=
  if isNegative x then ['-'] else []

end Barscript.Decimal
