import Barscript.Trading.Trade
import Barscript.Series.Number

/-!
# Performance figures

Statistics of a finished run, computed from its trade log and its equity curve, the capital after
each bar.
-/

namespace Barscript.Trading

open Barscript.Series

/-- The figures of a run. -/
structure Metrics where
  /-- How often the market was left. -/
  totalTrades : Nat
  winningTrades : Nat
  losingTrades : Nat
  /-- The share of winning trades in percent. -/
  winRate : Float
  /-- The largest decline from a running peak in percent. -/
  maxDrawdown : Float
  sharpeRatio : Float
  /-- Gross profit over gross loss; infinite without a loss. -/
  profitFactor : Float
  grossProfit : Float
  grossLoss : Float
  /-- The gain over the whole run in percent. -/
  totalReturn : Float
deriving Repr

/-- The bars of a year, when a bar is a trading day. -/
def tradingDays : Float := 252.0

/-! ## Drawdown -/

/-- The highest capital so far and the largest decline from a peak so far. -/
structure Drawdown where
  peak : Float
  largest : Float
deriving Repr

/-- The decline after one more bar.  A new peak is no decline, and a peak that is not positive
measures none. -/
def Drawdown.step (d : Drawdown) (equity : Float) : Drawdown :=
  if d.peak < equity then { d with peak := equity }
  else if 0.0 < d.peak then
    let decline := (d.peak - equity) / d.peak * 100.0
    if d.largest < decline then { d with largest := decline } else d
  else d

/-- The largest decline of a curve. -/
def largestDecline : List Float → Float
  | [] => 0.0
  | first :: rest => ((first :: rest).foldl Drawdown.step ⟨first, 0.0⟩).largest

/-! ## Sharpe ratio -/

/-- The relative changes from bar to bar, where the earlier capital is not zero. -/
def returns (curve : List Float) : List Float :=
  ((curve.zip curve.tail).filter fun pair => pair.1 != 0.0).map fun pair =>
    (pair.2 - pair.1) / pair.1

/-- The mean return over its sample standard deviation, per year. -/
def sharpe (curve : List Float) : Float :=
  let rs := returns curve
  if rs.length < 2 then 0.0
  else
    let center := mean rs
    let squares := rs.map fun r => (r - center) * (r - center)
    let spread := (sum squares / (Float.ofNat rs.length - 1.0)).sqrt
    if 0.0 < spread then center / spread * tradingDays.sqrt else 0.0

/-! ## Gains and losses -/

/-- Counts and sums of the gains so far. -/
structure Tally where
  total : Nat
  winning : Nat
  losing : Nat
  profit : Float
  loss : Float
deriving Repr

/-- The tally of no trades. -/
def Tally.empty : Tally :=
  ⟨0, 0, 0, 0.0, 0.0⟩

/-- The tally after one more closed trade. -/
def Tally.add (t : Tally) (gain : Float) : Tally :=
  let t := { t with total := t.total + 1 }
  if 0.0 < gain then { t with winning := t.winning + 1, profit := t.profit + gain }
  else if gain < 0.0 then { t with losing := t.losing + 1, loss := t.loss + gain.abs }
  else t

/-- The tally of a trade log. -/
def Tally.ofTrades (trades : List Trade) : Tally :=
  (trades.filter Trade.isExit).foldl (fun t trade => t.add (trade.gain.getD 0.0)) .empty

/-- The capital at the end of a curve. -/
def finalCapital (capital : Float) (curve : List Float) : Float :=
  curve.getLast?.getD capital

/-- The figures of a run that started with `capital`. -/
def Metrics.compute (capital : Float) (trades : List Trade) (curve : List Float) : Metrics :=
  let tally := Tally.ofTrades trades
  { totalTrades := tally.total
    winningTrades := tally.winning
    losingTrades := tally.losing
    winRate :=
      if 0 < tally.total then Float.ofNat tally.winning / Float.ofNat tally.total * 100.0 else 0.0
    maxDrawdown := largestDecline curve
    sharpeRatio := sharpe curve
    profitFactor := if 0.0 < tally.loss then tally.profit / tally.loss else infinity
    grossProfit := tally.profit
    grossLoss := tally.loss
    totalReturn :=
      if 0.0 < capital then (finalCapital capital curve - capital) / capital * 100.0 else 0.0 }

end Barscript.Trading
