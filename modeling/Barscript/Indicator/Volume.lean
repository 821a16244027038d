import Barscript.Indicator.Range

/-!
# Volume

Sums over all bars so far that weigh the price by the traded volume.
-/

namespace Barscript.Indicator

open Barscript.Series

/-- The direction of a price change as a number. -/
def signOf (change : Float) : Float :=
  if 0.0 < change then 1.0 else if change < 0.0 then -1.0 else 0.0

/-- One step of a running total. -/
def totalStep (total x : Float) : Float × Float :=
  (total + x, total + x)

/-- The on-balance volume: volume added on rising and subtracted on falling closes.  The first bar
has no change and is undefined. -/
def obv : Column → Column → Column
  | [], _ => []
  | first :: rest, volume =>
    undefined :: scan totalStep 0.0
      (List.zipWith (fun (change : Float × Float) v => signOf (change.2 - change.1) * v)
        (List.zip (first :: rest) rest) volume.tail)

/-- One step of a running quotient of two totals. -/
def quotientStep (totals : Float × Float) (x : Float × Float) : (Float × Float) × Float :=
  let money := totals.1 + x.1
  let volume := totals.2 + x.2
  ((money, volume), money / volume)

/-- The volume-weighted average price of all bars so far. -/
def vwap (high low close volume : Column) : Column :=
  scan quotientStep (0.0, 0.0)
    (List.zipWith (fun (bar : Candle) v => ((bar.high + bar.low + bar.close) / 3.0 * v, v))
      (candles high low close) volume)

end Barscript.Indicator
