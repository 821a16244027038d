import Barscript.Indicator.Range

/-!
# Oscillators

Indicators that swing between bounds or around zero: changes of the price, relative strength,
stochastics, the commodity channel index and the money flow index.
-/

namespace Barscript.Indicator

open Barscript.Series

/-- The change against the value `length` bars back, in percent of that value. -/
def roc (source : Column) (length : Nat) : Column :=
  zipColumns (fun x p => 100.0 * (x - p) / p) source (shift source length)

/-- The share of gains in the sum of gains and losses, in percent, written through their
quotient. -/
def strength (gain loss : Float) : Float :=
  100.0 - 100.0 / (1.0 + gain / loss)

/-- The relative strength index over plain means of the gains and the losses from bar to bar. -/
def rsi (source : Column) (length : Nat) : Column :=
  let moves := Series.change source 1
  let gains := moves.map fun d => if 0.0 < d then d else 0.0
  let losses := moves.map fun d => if d < 0.0 then -d else 0.0
  zipColumns strength (rollingMean gains length) (rollingMean losses length)

/-- The two lines of a stochastic oscillator. -/
structure Stochastic where
  k : Column
  d : Column

/-- The place of the close in the range of a window, in percent, and two smoothings of it. -/
def stochastic (high low close : Column) (length smoothK smoothD : Nat) : Stochastic :=
  let raw := (candles (highest high length) (lowest low length) close).map fun r =>
    100.0 * (r.close - r.low) / (r.high - r.low)
  let k := sma raw smoothK
  { k := k, d := sma k smoothD }

/-- The distance of a price from its mean, in units of 0.015 mean distances. -/
def cci (source : Column) (length : Nat) : Column :=
  let scale := rollingMeanDistance source length
  zipColumns (fun above distance => above / (0.015 * distance))
    (zipColumns (· - ·) source (sma source length)) scale

/-- The money that flows on the bars where `moves` says so, in the direction of the price change:
price times volume, and zero on the first bar. -/
def moneyFlow (moves : Float → Float → Bool) : Column → Column → Column
  | [], _ => []
  | first :: rest, volume =>
    0.0 :: List.zipWith (fun (change : Float × Float) v =>
      if moves change.1 change.2 then change.2 * v else 0.0)
      (List.zip (first :: rest) rest) volume.tail

/-- The money flow index: the share of money that flows on rising prices, in percent. -/
def mfi (source volume : Column) (length : Nat) : Column :=
  zipColumns strength
    (rollingSum (moneyFlow (fun before now => before < now) source volume) length)
    (rollingSum (moneyFlow (fun before now => now < before) source volume) length)

end Barscript.Indicator
