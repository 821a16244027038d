/-!
# Numbers of a series

A series holds one double per bar.  The double NaN stands for "undefined": a value that cannot be
computed at its bar, because a window is not filled yet or an input is itself undefined.  Truth
values inside a series are one and zero.
-/

namespace Barscript.Series

/-- The undefined number. -/
def undefined : Float := 0.0 / 0.0

/-- Positive infinity. -/
def infinity : Float := 1.0 / 0.0

/-- A number is true when it is defined and not zero. -/
def isTrue (x : Float) : Bool :=
  !x.isNaN && x != 0.0

/-- A truth value as a number. -/
def flag (b : Bool) : Float :=
  if b then 1.0 else 0.0

/-- Neither undefined nor infinite. -/
def isFinite (x : Float) : Bool :=
  !x.isNaN && !x.isInf

/-- The larger of two numbers; an undefined one is ignored, and of two equal ones the first is
taken. -/
def larger (x y : Float) : Float :=
  if y.isNaN then x else if x.isNaN then y else if x < y then y else x

/-- The smaller of two numbers; an undefined one is ignored, and of two equal ones the first is
taken. -/
def smaller (x y : Float) : Float :=
  if y.isNaN then x else if x.isNaN then y else if y < x then y else x

/-- The sum from left to right.  It starts from negative zero, the neutral element, so a sum of
negative zeros is negative zero. -/
def sum (xs : List Float) : Float :=
  xs.foldl (· + ·) (-0.0)

/-- The mean of some numbers. -/
def mean (xs : List Float) : Float :=
  sum xs / Float.ofNat xs.length

/-- A non-negative number to the nearest count, a half upwards; counts end at `2 ^ 64 - 1`. -/
def toCount (x : Float) : Nat :=
  let whole := x.toUInt64
  -- The fraction is exact: from `2 ^ 52` on there is none.
  if 0.5 ≤ x - whole.toFloat then min (whole.toNat + 1) (UInt64.size - 1) else whole.toNat

end Barscript.Series
