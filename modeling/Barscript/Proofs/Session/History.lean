import Barscript.Session.Backtest
import Barscript.Proofs.Session.Transparency

/-!
# The past of a session

Of all that was done to a session a backtest sees two things: the values that
were set and the bars that are there. What is held, the quantity of the latest
entry and the values that were kept do not matter to it, so its report is the
one of a new session with these values and bars (`runBacktest_history`).
-/

namespace Barscript.Session

open Barscript.Script Barscript.Series Barscript.Market Barscript.Trading

/-! ## What operations leave behind -/

/-- The values that operations set, in their order. -/
def settings (operations : List Operation) : List (String × Value) :=
  operations.filterMap fun
    | .setInput name value => some (name, value)
    | _ => none

/-- The bars behind an operation. -/
def barsBehind (bars : List Bar) : Operation → List Bar
  | .loadBars loaded => loaded
  | .processBar bar => bars ++ [bar]
  | _ => bars

/-- The session with all of some values set. -/
def setInputs (s : Session) (values : List (String × Value)) : Session :=
  values.foldl (fun s entry => s.setInput entry.1 entry.2) s

/-- A new session with the values that the operations set and with the bars
that they leave. -/
def renewed (strategy : Strategy) (symbol : String)
    (operations : List Operation) : Session :=
  ((start strategy symbol).setInputs (settings operations)).loadBars
    (operations.foldl barsBehind [])

/-- Both sessions run one strategy over the same bars with the same values
set. -/
structure SameGround (s t : Session) : Prop where
  strategy : s.strategy = t.strategy
  symbol : s.symbol = t.symbol
  bars : s.bars = t.bars
  overrides : s.overrides = t.overrides

section

variable {s t u : Session}

theorem SameGround.trans (h : SameGround s t) (h' : SameGround t u) :
    SameGround s u where
  strategy := h.strategy.trans h'.strategy
  symbol := h.symbol.trans h'.symbol
  bars := h.bars.trans h'.bars
  overrides := h.overrides.trans h'.overrides

/-- Loading bars makes up for other bars before. -/
theorem sameGround_loadBars (hstrategy : s.strategy = t.strategy)
    (hsymbol : s.symbol = t.symbol) (hoverrides : s.overrides = t.overrides)
    (values : List (String × Value)) (bars : List Bar) :
    SameGround ((s.setInputs values).loadBars bars)
      ((t.setInputs values).loadBars bars) := by
  induction values generalizing s t with
  | nil => exact ⟨hstrategy, hsymbol, rfl, hoverrides⟩
  | cons entry rest ih =>
      exact ih (s := s.setInput entry.1 entry.2)
        (t := t.setInput entry.1 entry.2) hstrategy hsymbol
        (congrArg (·.insert entry.1 entry.2) hoverrides)

end

/-- **Operations leave the values that they set and the bars that they
load.** -/
theorem sameGround_performAll (s : Session) (operations : List Operation) :
    SameGround (s.performAll operations)
      ((s.setInputs (settings operations)).loadBars
        (operations.foldl barsBehind s.bars)) := by
  induction operations generalizing s with
  | nil => exact ⟨rfl, rfl, rfl, rfl⟩
  | cons operation rest ih =>
      have hrest := ih (s.perform operation)
      have hsymbol : (s.perform operation).symbol = s.symbol := by
        cases operation <;> rfl
      -- An operation that sets no value is made up for by its bars.
      have hunset : (s.perform operation).overrides = s.overrides →
          SameGround ((s.perform operation).performAll rest)
            ((s.setInputs (settings rest)).loadBars
              (rest.foldl barsBehind (s.perform operation).bars)) :=
        fun hoverrides => hrest.trans (sameGround_loadBars
          (strategy_perform s operation) hsymbol hoverrides _ _)
      cases operation with
      | setInput name value => exact hrest
      | loadBars bars => exact hunset rfl
      | processBar bar => exact hunset rfl
      | runBacktest config => exact hunset rfl
      | resolve e => exact hunset rfl
      | resolveName name => exact hunset rfl

/-! ## Backtests on the same ground -/

/-- A bar is answered from what the progress holds, not from what the world
does. -/
theorem over_holding (w : World) (p : Position) (q : Progress) (index : Nat)
    (bars : List Bar) :
    q.over (w.holding p) index bars = q.over w index bars := by
  induction bars generalizing q index with
  | nil => rfl
  | cons bar rest ih =>
      have htrade : q.trade (w.holding p) bar index = q.trade w bar index := rfl
      rw [Progress.over, Progress.over, htrade]
      exact bind_congr fun next => ih next.note (index + 1)

theorem backtest_holding (w : World) (p : Position) (capital : Float) :
    (w.holding p).backtest capital = w.backtest capital :=
  over_holding w p _ 1 w.bars.tail

theorem runBacktest_sameGround {s t : Session} (h : SameGround s t)
    (config : Config) : (s.runBacktest config).1 = (t.runBacktest config).1 := by
  have hworld : s.toWorld = t.toWorld.holding s.position := by
    obtain ⟨hstrategy, hsymbol, hbars, hoverrides⟩ := h
    unfold World.holding
    rw [← hstrategy, ← hsymbol, ← hbars, ← hoverrides]
  unfold runBacktest
  rw [hworld, backtest_holding]
  rfl

/-- **A backtest does not see the past.** After any operations its report is
the one of a new session with the values and the bars that these leave. It ends
with nothing held and changes neither the bars nor the values nor the
symbol. -/
theorem runBacktest_history (strategy : Strategy) (symbol : String)
    (operations : List Operation) (config : Config) :
    let s := (start strategy symbol).performAll operations
    (s.runBacktest config).1 =
        ((renewed strategy symbol operations).runBacktest config).1 ∧
      (s.runBacktest config).2.position = .flat ∧
      SameGround (s.runBacktest config).2 s ∧
      SameGround s (renewed strategy symbol operations) := by
  have hground : SameGround ((start strategy symbol).performAll operations)
      (renewed strategy symbol operations) :=
    sameGround_performAll (start strategy symbol) operations
  exact ⟨runBacktest_sameGround hground config, rfl, ⟨rfl, rfl, rfl, rfl⟩,
    hground⟩

end Barscript.Session
