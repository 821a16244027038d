import Barscript.Series.Column

/-!
# Moving averages

The averages of a column over its last bars: plain, exponential, running, linearly weighted and
weighted by volume.
-/

namespace Barscript.Indicator

open Barscript.Series

/-- A column without a defined value. -/
def undefinedLike {α : Type} (source : List α) : Column :=
  source.map fun _ => undefined

/-- The simple moving average. -/
def sma (source : Column) (length : Nat) : Column :=
  rollingMean source length

/-- The exponential moving average: the newest value weighs `2 / (length + 1)`. -/
def ema (source : Column) (length : Nat) : Column :=
  if length = 0 then undefinedLike source else smooth source (2.0 / (Float.ofNat length + 1.0))

/-- The running moving average: the newest value weighs `1 / length`. -/
def rma (source : Column) (length : Nat) : Column :=
  if length = 0 then undefinedLike source else smooth source (1.0 / Float.ofNat length)

/-- Numbers multiplied by one, two, three and so on. -/
def ramped (xs : Column) : Column :=
  List.zipWith (fun x (i : Nat) => x * Float.ofNat (i + 1)) xs (List.range xs.length)

/-- The weighted moving average: the weights grow linearly towards the newest bar. -/
def wma (source : Column) (length : Nat) : Column :=
  let n := Float.ofNat length
  rolling (fun w => sum (ramped w) / (n * (n + 1.0) / 2.0)) length source

/-- The volume-weighted moving average. -/
def vwma (source volume : Column) (length : Nat) : Column :=
  zipColumns (· / ·) (rollingSum (zipColumns (· * ·) source volume) length)
    (rollingSum volume length)

end Barscript.Indicator
