import Barscript.Trading.Direction
import Barscript.Market.Moment

/-!
# Trade events

The log of a backtest: each time the market is entered or left, at what price and when.  Leaving
realizes a gain or a loss.
-/

namespace Barscript.Trading

open Barscript.Market

/-- Whether an event opens or closes a trade. -/
inductive TradeKind where
  | entry
  | exit
deriving DecidableEq, Repr

/-- The name of a kind of event. -/
def TradeKind.label : TradeKind → String
  | .entry => "entry"
  | .exit => "exit"

/-- One event of the log. -/
structure Trade where
  kind : TradeKind
  direction : Direction
  price : Float
  /-- The number of the bar, from zero. -/
  bar : Nat
  time : Moment
  /-- The realized gain, on leaving the market. -/
  gain : Option Float
deriving Repr

/-- The market is entered. -/
def Trade.entering (direction : Direction) (price : Float) (bar : Nat) (time : Moment) : Trade :=
  ⟨.entry, direction, price, bar, time, none⟩

/-- The market is left with a gain. -/
def Trade.leaving (direction : Direction) (price : Float) (bar : Nat) (time : Moment)
    (gain : Float) : Trade :=
  ⟨.exit, direction, price, bar, time, some gain⟩

/-- Whether the event closes a trade. -/
def Trade.isExit (t : Trade) : Bool :=
  t.kind == .exit

end Barscript.Trading
