import Barscript.Builtin.Arguments
import Barscript.Indicator.Trend
import Barscript.Indicator.Volume
import Barscript.Indicator.Crossing
import Barscript.Indicator.Level
import Barscript.Market.Bar

/-!
# Indicators by name

The indicators that scripts call, with the arguments each of them reads.  Indicators are computed
over all bars.  Where a source column is left out the close takes its place (for some indicators
another price); a source that is given but has no numeric reading makes the result absent instead
of falling back.
-/

namespace Barscript.Builtin

open Barscript.Series Barscript.Indicator Barscript.Market

/-- The names of the indicators. -/
def indicatorNames : List String :=
  ["ta.sma", "ta.ema", "ta.rma", "ta.wma", "ta.vwma", "ta.rsi", "ta.macd", "ta.bb", "ta.tr",
   "ta.atr", "ta.stoch", "ta.cci", "ta.adx", "ta.supertrend", "ta.vwap", "ta.highest",
   "ta.lowest", "ta.crossover", "ta.crossunder", "ta.change", "ta.mom", "ta.roc", "ta.wpr",
   "ta.obv", "ta.mfi", "ta.pivot", "ta.ichimoku"]

/-! ## Several lines -/

/-- The lines of the moving average convergence by name. -/
def macdOutputs (m : Macd) : Outputs :=
  [("macd", m.line), ("signal", m.signal), ("histogram", m.histogram)]

/-- The lines of the bands by name. -/
def bandOutputs (b : Bands) : Outputs :=
  [("basis", b.basis), ("upper", b.upper), ("lower", b.lower)]

/-- The lines of the stochastic oscillator by name. -/
def stochasticOutputs (s : Stochastic) : Outputs :=
  [("k", s.k), ("d", s.d)]

/-- The lines of the supertrend by name. -/
def supertrendOutputs (s : Supertrend) : Outputs :=
  [("line", s.line), ("direction", s.direction)]

/-- The lines of the cloud by name. -/
def ichimokuOutputs (i : Ichimoku) : Outputs :=
  [("tenkan", i.tenkan), ("kijun", i.kijun), ("senkou_a", i.senkouA), ("senkou_b", i.senkouB)]

/-- The pivot levels by name. -/
def levelOutputs (levels : List Levels) : Outputs :=
  [("pivot", levels.map Levels.pivot), ("r1", levels.map Levels.r1), ("r2", levels.map Levels.r2),
   ("r3", levels.map Levels.r3), ("s1", levels.map Levels.s1), ("s2", levels.map Levels.s2),
   ("s3", levels.map Levels.s3)]

/-! ## Reading the arguments -/

/-- A price of all bars. -/
def prices (bars : List Bar) (price : Bar → Float) : Column :=
  bars.map price

/-- The source at a position, the close when it is left out, nothing when it has no numeric
reading. -/
def source? (args : Arguments) (bars : List Bar) (index : Nat) : Option Column :=
  match args.get? index sourceNames with
  | none => some (prices bars Bar.close)
  | some v => v.column? bars.length

/-- An optional source in front of the length; another price when it is left out. -/
def sourceOr? (args : Arguments) (bars : List Bar) (price : Bar → Float) : Option Column :=
  if args.hasSource then source? args bars 0 else some (prices bars price)

/-- An indicator of a source and a length in the second place. -/
def ofSource (args : Arguments) (bars : List Bar) (default : Nat)
    (compute : Column → Nat → Column) : Option Value :=
  (source? args bars 0).map fun source =>
    .series (compute source (args.length 1 ["length"] default))

/-- An indicator of an optional source and a length behind it. -/
def ofOptionalSource (args : Arguments) (bars : List Bar) (price : Bar → Float) (default : Nat)
    (compute : Column → Nat → Column) : Option Value :=
  (sourceOr? args bars price).map fun source =>
    .series (compute source (args.length args.lengthSlot ["length"] default))

/-- An indicator of high, low, close and a length. -/
def ofRange (args : Arguments) (bars : List Bar)
    (compute : Column → Column → Column → Nat → Column) : Option Value :=
  some (.series (compute (prices bars Bar.high) (prices bars Bar.low) (prices bars Bar.close)
    (args.length 0 ["length"] 14)))

/-- The columns of a stochastic oscillator: close, high and low when three are given, the close
alone when at least one is. -/
def stochasticSources? (args : Arguments) (bars : List Bar) : Option (Column × Column × Column) :=
  let high := prices bars Bar.high
  let low := prices bars Bar.low
  if 3 ≤ args.leadingSources then do
    let close ← source? args bars 0
    let high ← source? args bars 1
    let low ← source? args bars 2
    some (high, low, close)
  else if 1 ≤ args.leadingSources then
    (source? args bars 0).map fun close => (high, low, close)
  else some (high, low, prices bars Bar.close)

/-- A crossing of two given columns. -/
def ofPair (args : Arguments) (bars : List Bar) (compute : Column → Column → Column) :
    Option Value := do
  let a ← args.column? 0 ["source1"] bars.length
  let b ← args.column? 1 ["source2"] bars.length
  some (.series (compute a b))

/-! ## The indicators -/

/-- The value of an indicator over all bars; nothing for an unknown name or when a source has no
numeric reading. -/
def compute? (name : String) (args : Arguments) (bars : List Bar) : Option Value :=
  let high := prices bars Bar.high
  let low := prices bars Bar.low
  let close := prices bars Bar.close
  let volume := prices bars Bar.volume
  match name with
  | "ta.sma" => ofSource args bars 14 sma
  | "ta.ema" => ofSource args bars 14 ema
  | "ta.rma" => ofSource args bars 14 rma
  | "ta.wma" => ofSource args bars 14 wma
  | "ta.vwma" => ofSource args bars 14 fun source => vwma source volume
  | "ta.rsi" => ofSource args bars 14 rsi
  | "ta.macd" => (source? args bars 0).map fun source =>
      .tuple (macdOutputs (macd source (args.length 1 ["fast", "fastlen"] 12)
        (args.length 2 ["slow", "slowlen"] 26) (args.length 3 ["signal", "siglen"] 9)))
  | "ta.bb" => (source? args bars 0).map fun source =>
      .tuple (bandOutputs (bollinger source (args.length 1 ["length"] 20)
        (args.number 2 ["mult"] 2.0)))
  | "ta.tr" => some (.series (trueRange high low close))
  | "ta.atr" => ofRange args bars atr
  | "ta.stoch" => (stochasticSources? args bars).map fun (high, low, close) =>
      let slot := min args.leadingSources 3
      .tuple (stochasticOutputs (stochastic high low close (args.length slot ["length", "k"] 14)
        (args.length (slot + 1) ["smooth_k"] 1) (args.length (slot + 2) ["smooth_d", "d"] 3)))
  | "ta.cci" => ofOptionalSource args bars Bar.hlc3 20 cci
  | "ta.adx" => ofRange args bars adx
  | "ta.supertrend" =>
    some (.tuple (supertrendOutputs (supertrend high low close
      (args.length 0 ["length", "atrPeriod"] 10) (args.number 1 ["mult", "factor"] 3.0))))
  | "ta.vwap" => some (.series (vwap high low close volume))
  | "ta.highest" => ofOptionalSource args bars Bar.high 14 highest
  | "ta.lowest" => ofOptionalSource args bars Bar.low 14 lowest
  | "ta.crossover" => ofPair args bars crossover
  | "ta.crossunder" => ofPair args bars crossunder
  | "ta.change" => ofSource args bars 1 Series.change
  | "ta.mom" => ofSource args bars 10 Series.change
  | "ta.roc" => ofSource args bars 10 roc
  | "ta.wpr" => ofRange args bars williamsR
  | "ta.obv" => some (.series (obv close volume))
  | "ta.mfi" => ofOptionalSource args bars Bar.hlc3 14 fun source => mfi source volume
  | "ta.pivot" => some (.tuple (levelOutputs (pivotLevels high low close)))
  | "ta.ichimoku" =>
    some (.tuple (ichimokuOutputs (ichimoku high low (args.length 0 ["tenkan"] 9)
      (args.length 1 ["kijun"] 26) (args.length 2 ["senkou"] 52))))
  | _ => none

/-- The value of an indicator; nothing for an unknown name, absent when a source has no numeric
reading. -/
def indicator? (name : String) (args : Arguments) (bars : List Bar) : Option Value :=
  if indicatorNames.contains name then some ((compute? name args bars).getD .na) else none

end Barscript.Builtin
