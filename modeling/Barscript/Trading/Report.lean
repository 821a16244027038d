import Barscript.Trading.Metrics

/-!
# Reports

The result of a backtest: the settings it was run with, the trade log, the equity curve and the
performance figures.
-/

namespace Barscript.Trading

/-- The settings of a backtest. -/
structure Config where
  capital : Float
  symbol : String
deriving Repr

/-- The capital of a run that states none. -/
def defaultCapital : Float := 100000.0

/-- The symbol of a run that states none. -/
def defaultSymbol : String := "UNKNOWN"

/-- The settings of a run that states none. -/
def Config.default : Config :=
  ⟨defaultCapital, defaultSymbol⟩

/-- The result of a backtest. -/
structure Report where
  symbol : String
  initialCapital : Float
  finalCapital : Float
  trades : List Trade
  /-- The capital after each bar, starting with the initial capital. -/
  curve : List Float
  stats : Metrics
deriving Repr

/-- The report on a log and a curve. -/
def Report.of (config : Config) (trades : List Trade) (curve : List Float) : Report :=
  { symbol := config.symbol
    initialCapital := config.capital
    finalCapital := Trading.finalCapital config.capital curve
    trades := trades
    curve := curve
    stats := Metrics.compute config.capital trades curve }

/-- The gain over the whole run in percent. -/
def Report.totalReturn (r : Report) : Float :=
  r.stats.totalReturn

end Barscript.Trading
