import Barscript.Proofs.Session.Transparency

/-!
# The protocol of signals

A signal that opens a trade comes only when its direction is not held, and a
signal that closes one only when it is; afterwards the session holds what the
signal says. The quantity of an exit is the one of the latest entry, however
many bulk loads, inputs, evaluations and backtests came in between
(`processBar_protocol`).
-/

namespace Barscript.Session

open Barscript.Script Barscript.Series Barscript.Market Barscript.Trading

/-! ## One decision -/

/-- All numbers of an order are finite. -/
structure EntryOrder.Finite (order : EntryOrder) : Prop where
  quantity : isFinite order.quantity = true
  stop : ∀ x, order.stop = some x → isFinite x = true
  target : ∀ x, order.target = some x → isFinite x = true

/-- What may be decided at the newest bar, when the latest entry was of the
quantity `latest`. -/
inductive Decision (w : World) (latest : Float) :
    Signal × Position × Float → Prop where
  | enter {order : EntryOrder}
      (hnew : w.position ≠ .ofDirection order.direction)
      (hfinite : order.Finite) :
      Decision w latest (⟨.entering order.direction, w.symbol, w.lastClose,
        order.quantity, order.stop, order.target⟩,
        .ofDirection order.direction, order.quantity)
  | leave {d : Direction} (hheld : w.position = .ofDirection d) :
      Decision w latest (⟨.leaving d, w.symbol, w.lastClose, latest, none,
        none⟩, .flat, latest)
  | idle : Decision w latest (.idle w.symbol, w.position, latest)

section

variable {w : World} {c : Cache}

/-- The item that a search finds passed its test. -/
theorem passed_of_firstPassing {σ α : Type} {test : Nat → α → StateM σ Bool}
    {index : Nat} {xs : List α} {s : σ} {x : α}
    (h : (firstPassing test index xs s).1 = some x) :
    ∃ k t, (test k x t).1 = true := by
  induction xs generalizing index s with
  | nil => cases h
  | cons y rest ih =>
      rw [firstPassing, run_bind] at h
      by_cases hpassed : (test index y s).1 = true
      · rw [if_pos hpassed] at h
        cases h
        exact ⟨index, s, hpassed⟩
      · rw [if_neg hpassed] at h
        exact ih h

/-- A number that a rule states is finite. -/
theorem isFinite_of_finiteNumber {e : Option Expr} {x : Float}
    (h : (w.finiteNumber e c).1 = some x) : isFinite x = true := by
  cases e with
  | none => cases h
  | some e =>
      have hfilter : ((w.value e c).1.number?.filter isFinite) = some x := h
      exact (Option.filter_eq_some_iff.mp hfilter).2

/-- A number that a rule leaves out is one, so it is finite too. -/
theorem isFinite_getD_finiteNumber (e : Option Expr) :
    isFinite ((w.finiteNumber e c).1.getD 1.0) = true := by
  cases hnumber : (w.finiteNumber e c).1 with
  | none =>
      have hone : isFinite 1.0 = true := by decide
      exact hone
  | some x => exact isFinite_of_finiteNumber hnumber

/-- **An order is in a direction that is not held**, and its numbers are
finite. -/
theorem entryOrder?_spec {order : EntryOrder}
    (h : (w.entryOrder? c).1 = some order) :
    w.position ≠ .ofDirection order.direction ∧ order.Finite := by
  cases hrule : (w.enteringRule? c).1 with
  | none =>
      rw [entryOrder?_none hrule] at h
      cases h
  | some entry =>
      obtain ⟨k, t, hpassed⟩ := passed_of_firstPassing hrule
      have hnew : Position.ofDirection entry.direction ≠ w.position := by
        intro hheld
        rw [if_pos hheld] at hpassed
        cases hpassed
      unfold World.enteringRule? at hrule
      unfold World.entryOrder? at h
      rw [run_bind, hrule] at h
      cases h
      refine ⟨hnew.symm, ?_, ?_, ?_⟩
      · exact isFinite_getD_finiteNumber entry.quantity
      · exact fun x hx => isFinite_of_finiteNumber hx
      · exact fun x hx => isFinite_of_finiteNumber hx

/-- **There are three decisions.** -/
theorem decision_decide (w : World) (latest : Float) (c : Cache) :
    Decision w latest (w.decide latest c).1 := by
  unfold World.decide
  rw [run_bind, run_bind]
  cases horder : (w.entryOrder? (w.computeIndicators c).2).1 with
  | some order =>
      obtain ⟨hnew, hfinite⟩ := entryOrder?_spec horder
      exact .enter hnew hfinite
  | none =>
      dsimp only
      cases hheld : w.position.direction? with
      | none => exact .idle
      | some d =>
          dsimp only
          rw [run_bind]
          split
          · exact .leave (Position.direction?_eq_some_iff.mp hheld)
          · exact .idle

end

/-! ## Signals -/

/-- What is held before and after a signal of some kind. -/
def Holding (before after : Position) : SignalKind → Prop
  | .buy => before ≠ .long ∧ after = .long
  | .sell => before ≠ .short ∧ after = .short
  | .exitLong => before = .long ∧ after = .flat
  | .exitShort => before = .short ∧ after = .flat
  | .none => after = before

/-- The signals that answer the bars among some operations. -/
def answers (s : Session) : List Operation → List Signal
  | [] => []
  | .processBar bar :: rest =>
    (s.processBar bar).1 :: answers (s.processBar bar).2 rest
  | operation :: rest => answers (s.perform operation) rest

/-- The latest of some signals that opens a trade. -/
def latestEntry? (signals : List Signal) : Option Signal :=
  (signals.filter fun signal => signal.kind.isEntry).getLast?

/-- The signal that answers a bar keeps the protocol. `past` are the signals
before it. -/
structure Protocol (symbol : String) (past : List Signal)
    (before after : Position) (bar : Bar) (signal : Signal) : Prop where
  holding : Holding before after signal.kind
  price : signal.kind ≠ .none → signal.price = bar.close
  symbol : signal.kind ≠ .none → signal.symbol = symbol
  quantity : isFinite signal.quantity = true
  stop : ∀ x, signal.stop = some x → isFinite x = true
  target : ∀ x, signal.target = some x → isFinite x = true
  exit : signal.kind = .exitLong ∨ signal.kind = .exitShort →
    ∃ entry, latestEntry? past = some entry ∧
      signal.quantity = entry.quantity

/-- What a session remembers of the signals so far: while a trade is open, the
quantity of the latest entry. -/
structure Remembers (symbol : String) (past : List Signal) (s : Session) :
    Prop where
  symbol : s.symbol = symbol
  finite : isFinite s.entryQuantity = true
  latest : s.position ≠ .flat → ∃ entry, latestEntry? past = some entry ∧
    s.entryQuantity = entry.quantity

section

variable {symbol : String} {past : List Signal} {s : Session}

theorem latestEntry?_concat (past : List Signal) (signal : Signal) :
    latestEntry? (past ++ [signal]) =
      if signal.kind.isEntry then some signal else latestEntry? past := by
  unfold latestEntry?
  rw [List.filter_append]
  cases h : signal.kind.isEntry <;> simp [h]

theorem isEntry_entering (d : Direction) :
    (SignalKind.entering d).isEntry = true := by
  cases d <;> rfl

theorem ofDirection_ne_flat (d : Direction) :
    Position.ofDirection d ≠ .flat := by
  cases d <;> decide

/-- **A bar is answered by the protocol**, and its signal is remembered. -/
theorem Remembers.processBar (h : Remembers symbol past s) (bar : Bar) :
    Protocol symbol past s.position (s.processBar bar).2.position bar
        (s.processBar bar).1 ∧
      Remembers symbol (past ++ [(s.processBar bar).1])
        (s.processBar bar).2 := by
  let w := (s.loadBars (s.bars ++ [bar])).toWorld
  have hsymbol : w.symbol = symbol := h.symbol
  have hclose : w.lastClose = bar.close := by
    show ((s.bars ++ [bar]).getLast?.map Bar.close).getD undefined = _
    rw [List.getLast?_concat]
    rfl
  have hzero : isFinite 0.0 = true := by decide
  have hdecision := decision_decide w s.entryQuantity []
  -- The signal and the session afterwards are what was decided.
  have hsignal : (s.processBar bar).1 = (w.decide s.entryQuantity []).1.1 := rfl
  have hposition : (s.processBar bar).2.position =
      (w.decide s.entryQuantity []).1.2.1 := rfl
  have hquantity : (s.processBar bar).2.entryQuantity =
      (w.decide s.entryQuantity []).1.2.2 := rfl
  have hsame : (s.processBar bar).2.symbol = symbol := h.symbol
  rw [hsignal, hposition]
  generalize (w.decide s.entryQuantity []).1 = r at *
  cases hdecision with
  | @enter order hnew hfinite =>
      refine ⟨⟨?_, fun _ => hclose, fun _ => hsymbol, hfinite.quantity,
        hfinite.stop, hfinite.target, ?_⟩, ⟨hsame, ?_, ?_⟩⟩
      · cases hd : order.direction <;> rw [hd] at hnew <;> exact ⟨hnew, rfl⟩
      · cases hd : order.direction <;> simp [SignalKind.entering]
      · rw [hquantity]
        exact hfinite.quantity
      · intro _
        rw [latestEntry?_concat, if_pos (isEntry_entering _), hquantity]
        exact ⟨_, rfl, rfl⟩
  | @leave d hheld =>
      have hheld : s.position = .ofDirection d := hheld
      refine ⟨⟨?_, fun _ => hclose, fun _ => hsymbol, h.finite, nofun, nofun,
        ?_⟩, ⟨hsame, ?_, fun hopen => absurd hposition hopen⟩⟩
      · rw [hheld]
        cases d <;> exact ⟨rfl, rfl⟩
      · intro _
        exact h.latest (by rw [hheld]; exact ofDirection_ne_flat d)
      · rw [hquantity]
        exact h.finite
  | idle =>
      refine ⟨⟨rfl, fun hne => absurd rfl hne, fun hne => absurd rfl hne,
        hzero, nofun, nofun, ?_⟩, ⟨hsame, ?_, ?_⟩⟩
      · rintro (hkind | hkind) <;> cases hkind
      · rw [hquantity]
        exact h.finite
      · intro hopen
        rw [latestEntry?_concat, hquantity]
        exact h.latest (by rw [hposition] at hopen; exact hopen)

/-- **Every operation keeps what is remembered.** -/
theorem Remembers.performAll (h : Remembers symbol past s)
    (operations : List Operation) :
    Remembers symbol (past ++ s.answers operations)
      (s.performAll operations) := by
  induction operations generalizing s past with
  | nil =>
      rw [answers, List.append_nil]
      exact h
  | cons operation rest ih =>
      cases operation with
      | processBar bar =>
          have hrest := ih (h.processBar bar).2
          rw [List.append_assoc] at hrest
          exact hrest
      | setInput name value => exact ih ⟨h.symbol, h.finite, h.latest⟩
      | loadBars bars => exact ih ⟨h.symbol, h.finite, h.latest⟩
      | resolve e => exact ih ⟨h.symbol, h.finite, h.latest⟩
      | resolveName name => exact ih ⟨h.symbol, h.finite, h.latest⟩
      | runBacktest config =>
          -- A backtest ends with nothing held.
          exact ih ⟨h.symbol, h.finite, fun hopen => absurd rfl hopen⟩

theorem remembers_start (strategy : Strategy) (symbol : String) :
    Remembers symbol [] (start strategy symbol) where
  symbol := rfl
  finite := by
    show isFinite 0.0 = true
    decide
  latest hopen := absurd rfl hopen

end

/-- **The protocol of signals.** After any operations on a session, the signal
that answers a bar opens only what is not held and closes only what is, carries
the close of the bar and finite numbers, and the quantity of the latest entry
where it closes a trade. -/
theorem processBar_protocol (strategy : Strategy) (symbol : String)
    (operations : List Operation) (bar : Bar) :
    let s := (start strategy symbol).performAll operations
    Protocol symbol ((start strategy symbol).answers operations) s.position
      (s.processBar bar).2.position bar (s.processBar bar).1 :=
  (((remembers_start strategy symbol).performAll operations).processBar bar).1

end Barscript.Session
