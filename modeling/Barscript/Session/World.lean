import Barscript.Script.Strategy
import Barscript.Builtin.Indicators
import Barscript.Builtin.Functions
import Barscript.Trading.Position

/-!
# What an evaluation looks at

A `World` holds everything that the value of an expression depends on and that does not change
while it is evaluated: the strategy, the bars, the values that replace inputs, the position.

Expressions are read over the oldest `shown` bars.  `World.fixed?` reads the names that a script
does not define itself.  In order of precedence: a replaced value, a price column, the builtin
names.
-/

namespace Barscript.Session

open Barscript.Script Barscript.Series Barscript.Builtin Barscript.Market Barscript.Trading

/-- What an evaluation looks at. -/
structure World where
  strategy : Strategy
  symbol : String
  bars : List Bar
  /-- The values set for inputs and variables. -/
  overrides : Bindings Value
  position : Position

/-- A price column on the oldest `shown` bars. -/
def World.price? (w : World) (name : String) (shown : Nat) : Option Value :=
  (column? w.bars name).map fun xs => .series (xs.take shown)

/-- The value set for a name.  A text that names a price column stands for that column. -/
def World.override? (w : World) (name : String) (shown : Nat) : Option Value :=
  match w.overrides[name]? with
  | some (.text s) => some ((w.price? s shown).getD (.text s))
  | other => other

/-- The indicators that may be read like variables. -/
def indicatorVariables : List String :=
  ["ta.tr", "ta.obv", "ta.vwap"]

/-- The names that every script may read. -/
def World.builtin? (w : World) (name : String) (shown : Nat) : Option Value :=
  match name with
  | "time" => some (.series ((w.bars.take shown).map fun b => Float.ofInt b.time.milliseconds))
  | "bar_index" => some (.series ((List.range shown).map Float.ofNat))
  | "na" => some (.number undefined)
  | "strategy.position_size" => some (.number w.position.sign)
  | "strategy.long" => some (.text "long")
  | "strategy.short" => some (.text "short")
  | "barstate.isfirst" => some (.series ((List.range shown).map fun i => flag (i == 0)))
  | "barstate.islast" => some (.series ((List.range shown).map fun i => flag (i + 1 == shown)))
  | "syminfo.ticker" | "syminfo.tickerid" => some (.text w.symbol)
  | _ =>
    if indicatorVariables.contains name then
      some (((indicator? name .empty w.bars).map (Value.truncate shown)).getD .na)
    else none

/-- The value of a name that the script does not define. -/
def World.fixed? (w : World) (name : String) (shown : Nat) : Option Value :=
  (w.override? name shown).or ((w.price? name shown).or (w.builtin? name shown))

/-- A dotted name split at its last dot. -/
def splitLast (name : String) : Option (String × String) :=
  let backwards := name.toList.reverse
  match backwards.dropWhile (· != '.') with
  | [] => none
  | _ :: base =>
    some (String.ofList base.reverse, String.ofList (backwards.takeWhile (· != '.')).reverse)

end Barscript.Session
