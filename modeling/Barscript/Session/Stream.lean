import Barscript.Session.Evaluation
import Barscript.Trading.Signal

/-!
# Sessions

A session runs a strategy over bars that arrive in bulk or one at a time.  It remembers what it
holds, the quantity it was entered with, and the indicator values computed since the bars or the
inputs last changed.

A bar that arrives alone is answered by a signal.  The rules for entering come first, in the order
of the script: the first one whose direction is not held already and whose guard holds opens a
trade, whatever was held before.  Otherwise, while a trade is open, the first rule for leaving
whose guard holds closes it.
-/

namespace Barscript

/-- A strategy at work. -/
structure Session extends Session.World where
  /-- The quantity of the latest entry. -/
  entryQuantity : Float
  cache : Session.Cache

end Barscript

namespace Barscript.Session

open Barscript.Script Barscript.Series Barscript.Market Barscript.Trading

/-- A session without bars. -/
def start (strategy : Strategy) (symbol : String) : Session :=
  { strategy := strategy, symbol := symbol, bars := [], overrides := ∅, position := .flat
    entryQuantity := 0.0, cache := [] }

/-- The session with a value set for an input or a variable. -/
def setInput (s : Session) (name : String) (value : Value) : Session :=
  { s with overrides := s.overrides.insert name value, cache := [] }

/-- The session with other bars. -/
def loadBars (s : Session) (bars : List Bar) : Session :=
  { s with bars := bars, cache := [] }

/-- Evaluation inside a session, which keeps the cache. -/
def run {α : Type} (s : Session) (action : World → Evaluating α) : α × Session :=
  let (value, cache) := (action s.toWorld).run s.cache
  (value, { s with cache := cache })

/-- The value of an expression on all bars. -/
def resolve (s : Session) (e : Expr) : Value × Session :=
  s.run fun w => w.value e

/-- The value of a name on all bars. -/
def resolveName (s : Session) (name : String) : Value × Session :=
  s.run fun w => w.nameValue name

/-! ## Guards and numbers of rules -/

/-- Whether a guard holds at the newest bar; without one a rule always applies. -/
def World.guardHolds (w : World) : Option Expr → Evaluating Bool
  | none => pure true
  | some guard => do
    let value ← w.value guard
    pure value.isTruthy

/-- A finite number that a rule states, if it does. -/
def World.finiteNumber (w : World) : Option Expr → Evaluating (Option Float)
  | none => pure none
  | some e => do
    let value ← w.value e
    pure (value.number?.filter isFinite)

/-- The first item that passes a test, with its number. -/
def firstPassing {m : Type → Type} [Monad m] {α : Type} (test : Nat → α → m Bool) (index : Nat) :
    List α → m (Option α)
  | [] => pure none
  | x :: rest => do
    if (← test index x) then pure (some x) else firstPassing test (index + 1) rest

/-! ## One bar -/

/-- What a rule for entering asks for. -/
structure EntryOrder where
  direction : Direction
  quantity : Float
  stop : Option Float
  target : Option Float

/-- The order of the first rule for entering that applies. -/
def World.entryOrder? (w : World) : Evaluating (Option EntryOrder) := do
  let entry ← firstPassing (fun _ (entry : Entry) => do
    if Position.ofDirection entry.direction = w.position then pure false
    else w.guardHolds entry.guard) 0 w.strategy.entries
  match entry with
  | none => pure none
  | some entry =>
    let quantity ← w.finiteNumber entry.quantity
    let stop ← w.finiteNumber entry.stop
    let target ← w.finiteNumber entry.target
    pure (some ⟨entry.direction, quantity.getD 1.0, stop, target⟩)

/-- Whether a rule for leaving applies. -/
def World.leaves (w : World) : Evaluating Bool := do
  let exit ← firstPassing (fun _ (exit : Exit) => w.guardHolds exit.guard) 0 w.strategy.exits
  pure exit.isSome

/-- The values of all indicator calls, which fills the cache. -/
def World.computeIndicators (w : World) : Evaluating Unit :=
  w.strategy.indicators.forM fun call => do
    let _ ← w.value call

/-- The close of the newest bar. -/
def World.lastClose (w : World) : Float :=
  (w.bars.getLast?.map Bar.close).getD undefined

/-- The decision at the newest bar: the signal, the position afterwards and the quantity of the
latest entry. -/
def World.decide (w : World) (entryQuantity : Float) :
    Evaluating (Signal × Position × Float) := do
  w.computeIndicators
  match (← w.entryOrder?) with
  | some order =>
    pure (⟨.entering order.direction, w.symbol, w.lastClose, order.quantity, order.stop,
      order.target⟩, Position.ofDirection order.direction, order.quantity)
  | none =>
    match w.position.direction? with
    | none => pure (.idle w.symbol, w.position, entryQuantity)
    | some direction =>
      if (← w.leaves) then
        pure (⟨.leaving direction, w.symbol, w.lastClose, entryQuantity, none, none⟩, .flat,
          entryQuantity)
      else pure (.idle w.symbol, w.position, entryQuantity)

/-- One more bar and the signal that answers it. -/
def processBar (s : Session) (bar : Bar) : Signal × Session :=
  let s := s.loadBars (s.bars ++ [bar])
  let ((signal, position, quantity), s) := s.run fun w => w.decide s.entryQuantity
  (signal, { s with position := position, entryQuantity := quantity })

/-- The signals that answer bars one after another, numbered from `index`, but not the idle ones. -/
def signals (s : Session) (index : Nat) : List Bar → List (Nat × Signal)
  | [] => []
  | bar :: rest =>
    let (signal, next) := s.processBar bar
    if signal.isIdle then next.signals (index + 1) rest
    else (index, signal) :: next.signals (index + 1) rest

/-- The signals of a strategy on some bars, of which the first `warmup` arrive in bulk. -/
def streamSignals (strategy : Strategy) (symbol : String) (warmup : Nat) (bars : List Bar) :
    List (Nat × Signal) :=
  ((start strategy symbol).loadBars (bars.take warmup)).signals
    (min warmup bars.length) (bars.drop warmup)

end Barscript.Session
