import Barscript.Indicator.Range

/-!
# Price levels

The pivot of a bar and the resistance and support levels around it, all computed from the bar
before.
-/

namespace Barscript.Indicator

open Barscript.Series

/-- The pivot levels of one bar. -/
structure Levels where
  pivot : Float
  r1 : Float
  r2 : Float
  r3 : Float
  s1 : Float
  s2 : Float
  s3 : Float

/-- The levels that a bar sets for the next. -/
def levelsAfter (bar : Candle) : Levels :=
  let pivot := (bar.high + bar.low + bar.close) / 3.0
  { pivot := pivot
    r1 := 2.0 * pivot - bar.low
    r2 := pivot + (bar.high - bar.low)
    r3 := bar.high + 2.0 * (pivot - bar.low)
    s1 := 2.0 * pivot - bar.high
    s2 := pivot - (bar.high - bar.low)
    s3 := bar.low - 2.0 * (bar.high - pivot) }

/-- The first bar has no levels. -/
def Levels.unset : Levels :=
  ⟨undefined, undefined, undefined, undefined, undefined, undefined, undefined⟩

/-- The levels at every bar. -/
def pivotLevels (high low close : Column) : List Levels :=
  (.unset :: (candles high low close).map levelsAfter).take close.length

end Barscript.Indicator
