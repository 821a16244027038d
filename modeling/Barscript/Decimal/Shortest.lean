import Barscript.Decimal.Magnitude

/-!
# The fewest digits that read back

Many decimal numbers are read as the same double: all those in the interval that reaches half way
to its two neighbours, ends included when the mantissa is even.  `shortest` picks, among the
decimals of that interval, one on the coarsest grid `10 ^ k` that meets it, and there the one
nearest to the double's own value.  A double can lie exactly between two candidates; which of the
two is then printed is the caller's `Tie`.

Everything is decided in natural numbers: quarters of the last bit on one side and grid points on
the other are brought to a common unit.
-/

namespace Barscript.Decimal

/-- Which of two equally near candidates is taken. -/
inductive Tie where
  | up
  | even
deriving DecidableEq, Repr

/-- The choice between `below` and its successor. -/
def Tie.choose (tie : Tie) (below : Nat) : Nat :=
  match tie with
  | .up => below + 1
  | .even => if below % 2 = 0 then below else below + 1

/-- The reals that are read as one double, between `low * 2 ^ scale` and `high * 2 ^ scale`. -/
structure Interval where
  low : Nat
  value : Nat
  high : Nat
  closed : Bool
  scale : Int

/-- The interval of a magnitude, in quarters of its last bit.  Below a power of two the
neighbouring doubles are twice as dense, so the lower half is half as wide. -/
def Magnitude.interval (x : Magnitude) : Interval :=
  let narrow := x.mantissa = fullMantissa ∧ leastExponent < x.exponent
  { low := 4 * x.mantissa - (if narrow then 1 else 2)
    value := 4 * x.mantissa
    high := 4 * x.mantissa + 2
    closed := x.mantissa % 2 = 0
    scale := x.exponent - 2 }

/-- A decimal number `digits * 10 ^ exponent`. -/
structure Numeral where
  digits : Nat
  exponent : Int
deriving DecidableEq, Repr

/-- The size of `2 ^ scale` in the common unit of an interval and the grid `10 ^ k`. -/
def Interval.weight (i : Interval) (k : Int) : Nat :=
  Nat.pow 2 i.scale.toNat * Nat.pow 10 (-k).toNat

/-- The size of `10 ^ k` in that unit. -/
def Interval.step (i : Interval) (k : Int) : Nat :=
  Nat.pow 10 k.toNat * Nat.pow 2 (-i.scale).toNat

/-- Whether the point `d` of the grid `10 ^ k` lies in the interval. -/
def Interval.holds (i : Interval) (k : Int) (d : Nat) : Bool :=
  let point := d * i.step k
  if i.closed then i.low * i.weight k ≤ point ∧ point ≤ i.high * i.weight k
  else i.low * i.weight k < point ∧ point < i.high * i.weight k

/-- The nearest point of the grid `10 ^ k` that lies in the interval.  If any point of the grid
does, one of the two neighbours of the value does. -/
def Interval.onGrid? (tie : Tie) (i : Interval) (k : Int) : Option Nat :=
  let value := i.value * i.weight k
  let below := value / i.step k
  let above := below + 1
  match i.holds k below, i.holds k above with
  | false, false => none
  | true, false => some below
  | false, true => some above
  | true, true =>
    let down := value - below * i.step k
    let up := above * i.step k - value
    some (if down < up then below else if up < down then above else tie.choose below)

/-- An exponent whose power of ten is at least the interval's value, by `30103 / 100000` as the
logarithm of two. -/
def Interval.topExponent (i : Interval) : Int :=
  (((Nat.log2 i.value : Int) + 1 + i.scale) * 30103) / 100000 + 1

/-- The decimal without the zeros at its end. -/
def Numeral.stripZeros (fuel : Nat) (d : Numeral) : Numeral :=
  match fuel with
  | 0 => d
  | fuel + 1 =>
    if d.digits % 10 = 0 ∧ d.digits ≠ 0 then stripZeros fuel ⟨d.digits / 10, d.exponent + 1⟩ else d

/-- The shortest decimal of a positive magnitude.  Eighteen grids below the top one are always
fine enough, as a double has less than eighteen decimal digits. -/
def shortest (tie : Tie) (x : Magnitude) : Numeral :=
  let i := x.interval
  -- From coarse to fine: the first grid with a point in the interval has the fewest digits.
  let hit := (List.range 21).findSome? fun (n : Nat) =>
    let k := i.topExponent - n
    (i.onGrid? tie k).map fun d => Numeral.mk d k
  (hit.getD ⟨0, 0⟩).stripZeros 20

end Barscript.Decimal
