import Barscript.Report.Document
import Barscript.Script.Strategy
import Barscript.Trading.Report

/-!
# The report file

The document that a backtest leaves behind: a summary of the strategy, and the report itself.
-/

namespace Barscript.Report

open Barscript.Script Barscript.Trading

/-- An optional part, `null` when it is missing. -/
def optional {α : Type} (write : α → Document) : Option α → Document
  | some x => write x
  | none => .null

/-- A constant under the name of its type. -/
def ofLiteral : Literal → Document
  | .number x => .record [("Number", .number x)]
  | .text s => .record [("Text", .text s)]
  | .bool b => .record [("Bool", .bool b)]

/-- An input. -/
def ofInput (input : Input) : Document :=
  .record [
    ("kind", .text input.kind),
    ("default", optional ofLiteral input.default),
    ("title", optional .text input.title),
    ("params", .list (input.params.map fun param => .list [.text param.1, ofLiteral param.2]))]

/-- The summary of a strategy. -/
def ofStrategy (s : Strategy) : Document :=
  .record [
    ("name", .text s.name),
    ("description", .text s.description),
    ("version", .count s.version),
    ("inputs", .record (s.inputs.toList.map fun input => (input.1, ofInput input.2))),
    ("entry_conditions", .count s.entries.length),
    ("exit_conditions", .count s.exits.length),
    ("indicators", .count s.indicators.length)]

/-- An event of the trade log. -/
def ofTrade (t : Trade) : Document :=
  .record [
    ("kind", .text t.kind.label),
    ("direction", .text t.direction.label),
    ("price", .number t.price),
    ("bar_index", .count t.bar),
    ("timestamp", .text t.time.render),
    ("pnl", optional .number t.gain)]

/-- The performance figures. -/
def ofMetrics (m : Metrics) : Document :=
  .record [
    ("total_trades", .count m.totalTrades),
    ("winning_trades", .count m.winningTrades),
    ("losing_trades", .count m.losingTrades),
    ("win_rate", .number m.winRate),
    ("max_drawdown", .number m.maxDrawdown),
    ("sharpe_ratio", .number m.sharpeRatio),
    ("profit_factor", .number m.profitFactor),
    ("gross_profit", .number m.grossProfit),
    ("gross_loss", .number m.grossLoss),
    ("total_return", .number m.totalReturn)]

/-- The result of a backtest. -/
def ofReport (r : Trading.Report) : Document :=
  .record [
    ("symbol", .text r.symbol),
    ("initial_capital", .number r.initialCapital),
    ("final_capital", .number r.finalCapital),
    ("total_return", .number r.totalReturn),
    ("trades", .list (r.trades.map ofTrade)),
    ("equity_curve", .list (r.curve.map .number)),
    ("stats", ofMetrics r.stats)]

/-- The text of the report file. -/
def fileText (pretty : Bool) (report : Trading.Report) (strategy : Strategy) : String :=
  (Document.record [("strategy", ofStrategy strategy), ("backtest", ofReport report)]).render pretty

end Barscript.Report
