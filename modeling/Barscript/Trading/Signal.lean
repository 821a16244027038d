import Barscript.Trading.Position
import Barscript.Decimal.Text

/-!
# Signals

When bars arrive one at a time, each is answered by a signal: to open a trade, to close it, or to
do nothing.
-/

namespace Barscript.Trading

open Barscript.Decimal

/-- What a signal asks for. -/
inductive SignalKind where
  | buy
  | sell
  | exitLong
  | exitShort
  | none
deriving DecidableEq, Repr

/-- The signal that opens a trade. -/
def SignalKind.entering : Direction → SignalKind
  | .long => .buy
  | .short => .sell

/-- The signal that closes a trade. -/
def SignalKind.leaving : Direction → SignalKind
  | .long => .exitLong
  | .short => .exitShort

/-- Whether a signal opens a trade. -/
def SignalKind.isEntry : SignalKind → Bool
  | .buy | .sell => true
  | _ => false

/-- The name of a signal. -/
def SignalKind.label : SignalKind → String
  | .buy => "BUY"
  | .sell => "SELL"
  | .exitLong => "EXIT_LONG"
  | .exitShort => "EXIT_SHORT"
  | .none => "NONE"

/-- A signal with what it is about. -/
structure Signal where
  kind : SignalKind
  symbol : String
  price : Float
  quantity : Float
  stop : Option Float
  target : Option Float
deriving Repr

/-- The signal to do nothing. -/
def Signal.idle (symbol : String) : Signal :=
  { kind := .none, symbol := symbol, price := 0.0, quantity := 0.0, stop := .none, target := .none }

/-- Whether the signal is to do nothing. -/
def Signal.isIdle (s : Signal) : Bool :=
  s.kind == .none

/-- The signal in one line; prices have four places. -/
def Signal.render (s : Signal) : String :=
  let optional (name : String) : Option Float → String
    | some x => name ++ fixedText 4 x
    | .none => ""
  s.kind.label ++ " " ++ s.symbol ++ " qty=" ++ plainText s.quantity ++ " @ " ++
    fixedText 4 s.price ++ optional " stop=" s.stop ++ optional " target=" s.target

end Barscript.Trading
