import Barscript.Script.Strategy
import Barscript.Trading.Report
import Barscript.Trading.Signal

/-!
# What the console shows

The lines in which tokens, strategies, results and signals are shown.
-/

namespace Barscript.Report

open Barscript.Script Barscript.Trading Barscript.Decimal

/-- A text on its own line. -/
def line (text : String) : String :=
  text ++ "\n"

/-- Text filled up with blanks on the left. -/
def alignRight (width : Nat) (text : String) : String :=
  String.ofList (padStart width ' ' text.toList)

/-- Text filled up with blanks on the right. -/
def alignLeft (width : Nat) (text : String) : String :=
  String.ofList (padEnd width ' ' text.toList)

/-- A token: its place, its class, its value. -/
def tokenLine (t : Token) : String :=
  line (alignRight 4 (toString t.place.line) ++ ":" ++ alignLeft 3 (toString t.place.column) ++ " " ++
    alignLeft 16 t.kind.label ++ " " ++ t.value)

/-! ## Strategies -/

/-- A heading of the outline, with its content in the same column as that of the others. -/
def outlineLine (title content : String) : String :=
  line (alignLeft 12 title ++ " " ++ content)

/-- The condition of a rule. -/
def guardText (guard : Option Expr) : String :=
  (guard.map Expr.render).getD "always"

/-- An input of the outline. -/
def inputLine (name : String) (input : Input) : String :=
  line ("  " ++ name ++ " = " ++ (input.default.map Literal.render).getD "na" ++
    " (" ++ input.kind ++ ")")

/-- A rule for entering of the outline. -/
def entryLine (e : Entry) : String :=
  line ("  " ++ e.id.getD "-" ++ " " ++ e.direction.label ++ " when " ++ guardText e.guard)

/-- A rule for leaving of the outline. -/
def exitLine (e : Exit) : String :=
  line ("  " ++ e.function ++ " when " ++ guardText e.guard)

/-- The outline of a strategy. -/
def outline (s : Strategy) : String :=
  let count {α : Type} (title : String) (items : List α) := outlineLine title (toString items.length)
  String.join [
    outlineLine "Strategy:" s.name,
    if s.description.isEmpty then "" else outlineLine "Description:" s.description,
    outlineLine "Version:" (toString s.version),
    count "Inputs:" s.inputs.toList,
    String.join (s.inputs.toList.map fun input => inputLine input.1 input.2),
    count "Variables:" s.definitions.toList,
    count "Indicators:" s.indicators,
    count "Entries:" s.entries,
    String.join (s.entries.map entryLine),
    count "Exits:" s.exits,
    String.join (s.exits.map exitLine)]

/-! ## Results -/

/-- A figure of the results. -/
def figureLine (title figure : String) : String :=
  line (alignLeft 17 title ++ " " ++ figure)

/-- The figures of a report. -/
def results (r : Trading.Report) : String :=
  String.join [
    line "",
    line ("=== Results: " ++ r.symbol ++ " ==="),
    figureLine "Initial Capital:" (fixedText 2 r.initialCapital),
    figureLine "Final Capital:" (fixedText 2 r.finalCapital),
    figureLine "Total Return:" (fixedText 2 r.totalReturn ++ "%"),
    figureLine "Sharpe Ratio:" (fixedText 2 r.stats.sharpeRatio),
    figureLine "Max Drawdown:" ("-" ++ fixedText 2 r.stats.maxDrawdown ++ "%"),
    figureLine "Total Trades:" (toString r.stats.totalTrades),
    figureLine "Win Rate:" (fixedText 1 r.stats.winRate ++ "%"),
    figureLine "Profit Factor:" (fixedText 2 r.stats.profitFactor)]

/-- A signal with the number of its bar. -/
def signalLine (index : Nat) (signal : Signal) : String :=
  line (alignRight 6 (toString index) ++ "  " ++ signal.render)

end Barscript.Report
