import Barscript.Session.Stream
import Barscript.Session.ViewDependence
import Barscript.Trading.Report

/-!
# Backtests

A backtest walks over the loaded bars from the second on.  While nothing is held, the first rule for
entering whose guard holds opens a trade at the close; while a trade is open, and not on the bar
that opened it, the first rule for leaving whose guard holds closes it at the close.  The capital
changes by the realized gains only.

A guard that does not depend on the view is evaluated over all bars once for each position and then
read bar by bar (`Memory.guards`); any other is evaluated over the bars up to the current one.
-/

namespace Barscript.Session

open Barscript.Script Barscript.Series Barscript.Market Barscript.Trading

/-- A guard of a strategy: of a rule for entering or for leaving, by its number. -/
inductive GuardKey where
  | entry (index : Nat)
  | exit (index : Nat)
deriving DecidableEq, Repr

/-- What a backtest remembers between bars besides its progress. -/
structure Memory where
  cache : Cache
  /-- Guards evaluated over all bars, by guard and position. -/
  guards : List ((GuardKey × Position) × Value)

/-- Steps of a backtest that use the memory. -/
abbrev Remembering := StateM Memory

/-- An evaluation inside a backtest. -/
def remember {α : Type} (action : Evaluating α) : Remembering α := fun memory =>
  let (value, cache) := action.run memory.cache
  (value, { memory with cache := cache })

/-- Whether a guard holds at a bar; without one a rule always applies. -/
def World.guardHoldsAt (w : World) (key : GuardKey) (guard : Option Expr) (index : Nat) :
    Remembering Bool :=
  match guard with
  | none => pure true
  | some guard =>
    if dependsOnView w.strategy guard then do
      let value ← remember (w.valueOn (index + 1) guard)
      pure value.isTruthy
    else do
      match (← get).guards.lookup (key, w.position) with
      | some value => pure (value.truthyAt index)
      | none =>
        let value ← remember (w.value guard)
        modify fun memory =>
          { memory with guards := ((key, w.position), value) :: memory.guards }
        pure (value.truthyAt index)

/-- How far a backtest has come. -/
structure Progress where
  position : Position
  /-- The price of the latest entry. -/
  entryPrice : Float
  equity : Float
  trades : List Trade
  curve : List Float

/-- The progress before the first bar. -/
def Progress.start (capital : Float) : Progress :=
  { position := .flat, entryPrice := 0.0, equity := capital, trades := [], curve := [capital] }

/-- The market is entered. -/
def Progress.enter (p : Progress) (direction : Direction) (bar : Bar) (index : Nat) : Progress :=
  { p with
    position := Position.ofDirection direction
    entryPrice := bar.close
    trades := p.trades ++ [Trade.entering direction bar.close index bar.time] }

/-- The market is left. -/
def Progress.leave (p : Progress) (direction : Direction) (bar : Bar) (index : Nat) : Progress :=
  let gain := (bar.close - p.entryPrice) * direction.sign
  { p with
    position := .flat
    equity := p.equity + gain
    trades := p.trades ++ [Trade.leaving direction bar.close index bar.time gain] }

/-- The capital is noted at the end of a bar. -/
def Progress.note (p : Progress) : Progress :=
  { p with curve := p.curve ++ [p.equity] }

/-- What happens at one bar. -/
def Progress.trade (w : World) (p : Progress) (bar : Bar) (index : Nat) : Remembering Progress := do
  let w := { w with position := p.position }
  match p.position.direction? with
  -- One rule applies at most: a bar that enters does not leave.
  | none =>
    let entry ← firstPassing (fun k (entry : Entry) =>
      w.guardHoldsAt (.entry k) entry.guard index) 0 w.strategy.entries
    pure (match entry with
      | some entry => p.enter entry.direction bar index
      | none => p)
  | some direction =>
    let exit ← firstPassing (fun k (exit : Exit) =>
      w.guardHoldsAt (.exit k) exit.guard index) 0 w.strategy.exits
    pure (match exit with
      | some _ => p.leave direction bar index
      | none => p)

/-- The progress over some bars, numbered from `index`. -/
def Progress.over (w : World) (p : Progress) (index : Nat) : List Bar → Remembering Progress
  | [] => pure p
  | bar :: rest => do
    let next ← p.trade w bar index
    next.note.over w (index + 1) rest

/-- The backtest of a world: its progress over all bars but the first. -/
def World.backtest (w : World) (capital : Float) : Remembering Progress :=
  (Progress.start capital).over w 1 w.bars.tail

/-- The report on the loaded bars.  Afterwards nothing is held. -/
def runBacktest (s : Session) (config : Config) : Report × Session :=
  let (progress, memory) := (s.toWorld.backtest config.capital).run ⟨[], []⟩
  (.of config progress.trades progress.curve, { s with position := .flat, cache := memory.cache })

/-- The report of a strategy on some bars, with values set for inputs. -/
def backtest (strategy : Strategy) (config : Config) (overrides : List (String × Value))
    (bars : List Bar) : Report :=
  let session := overrides.foldl (fun s (entry : String × Value) => s.setInput entry.1 entry.2)
    (start strategy config.symbol)
  ((session.loadBars bars).runBacktest config).1

end Barscript.Session
