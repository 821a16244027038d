import Barscript.Series.Column
import Barscript.Market.Moment

/-!
# Bars

A bar sums up the trades of one interval: when it was, the first, highest, lowest and last price,
and the traded volume.  Scripts read a list of bars through named price columns.
-/

namespace Barscript.Market

open Barscript.Series

/-- One interval of trading. -/
structure Bar where
  time : Moment
  openPrice : Float
  high : Float
  low : Float
  close : Float
  volume : Float
deriving Repr

/-- The middle of the range. -/
def Bar.hl2 (b : Bar) : Float :=
  (b.high + b.low) / 2.0

/-- The typical price. -/
def Bar.hlc3 (b : Bar) : Float :=
  (b.high + b.low + b.close) / 3.0

/-- The mean of all four prices. -/
def Bar.ohlc4 (b : Bar) : Float :=
  (b.openPrice + b.high + b.low + b.close) / 4.0

/-- The mean of the range with the close counted twice. -/
def Bar.hlcc4 (b : Bar) : Float :=
  (b.high + b.low + 2.0 * b.close) / 4.0

/-- The names of the price columns. -/
def priceColumns : List String :=
  ["open", "high", "low", "close", "volume", "hl2", "hlc3", "ohlc4", "hlcc4"]

/-- The price that a column name stands for. -/
def priceOf? (name : String) : Option (Bar → Float) :=
  match name with
  | "open" => some Bar.openPrice
  | "high" => some Bar.high
  | "low" => some Bar.low
  | "close" => some Bar.close
  | "volume" => some Bar.volume
  | "hl2" => some Bar.hl2
  | "hlc3" => some Bar.hlc3
  | "ohlc4" => some Bar.ohlc4
  | "hlcc4" => some Bar.hlcc4
  | _ => none

/-- A price column of some bars. -/
def column? (bars : List Bar) (name : String) : Option Column :=
  (priceOf? name).map fun price => bars.map price

end Barscript.Market
