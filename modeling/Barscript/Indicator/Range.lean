import Barscript.Indicator.Average

/-!
# Ranges

How far a price moves within a bar and over several: the true range and its average, the extremes
of a window and the place of the close between them.
-/

namespace Barscript.Indicator

open Barscript.Series

/-- High, low and close of one bar. -/
structure Candle where
  high : Float
  low : Float
  close : Float

/-- Three columns read bar by bar. -/
def candles (high low close : Column) : List Candle :=
  List.zipWith (fun (hl : Float × Float) c => ⟨hl.1, hl.2, c⟩) (List.zip high low) close

/-- The greatest of the bar's range and the distances of its ends from the previous close; on the
first bar its range. -/
def trueRange (high low close : Column) : Column :=
  overHistory (fun
    | bar :: previous :: _ =>
      larger (larger (bar.high - bar.low) (bar.high - previous.close).abs)
        (bar.low - previous.close).abs
    | [bar] => bar.high - bar.low
    | [] => undefined) (candles high low close)

/-- The average true range. -/
def atr (high low close : Column) (length : Nat) : Column :=
  if length = 0 then undefinedLike close
  else smooth (trueRange high low close) (1.0 / Float.ofNat length)

/-- The highest value of a window. -/
def highest (source : Column) (length : Nat) : Column :=
  rollingMax source length

/-- The lowest value of a window. -/
def lowest (source : Column) (length : Nat) : Column :=
  rollingMin source length

/-- The distance of the close from the top of the range, in percent of the range and negative. -/
def williamsR (high low close : Column) (length : Nat) : Column :=
  (candles (highest high length) (lowest low length) close).map fun r =>
    -100.0 * (r.high - r.close) / (r.high - r.low)

end Barscript.Indicator
