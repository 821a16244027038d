import Barscript.Proofs.Session.Recognition

/-!
# Both modes make the same events

When bars arrive one at a time each is answered from an empty cache, over the
bars so far; a backtest goes over all of them with one cache. For a steady
script whose entries have one direction both make its moves
(`signals_eq_events`, `trades_over`), so the signals are the trades
(`streamSignals_eq_backtest`). Each mode is told the symbol on its own, and a
guard that reads it may say different things in the two (`symbols_show`).
-/

namespace Barscript.Session

open Barscript.Script Barscript.Series Barscript.Builtin Barscript.Market
open Barscript.Trading

/-- A signal as an event. -/
def signalEvent (answer : Nat × Signal) : Event :=
  (answer.1, answer.2.price, answer.2.kind)

/-- The signal of a move. -/
def Move.kind : Move → SignalKind
  | .stay => .none
  | .enter direction => .entering direction
  | .leave direction => .leaving direction

section

variable {w : World} {i : Nat} {p : Position} {c : Cache}

/-! ## One bar -/

/-- Over fewer bars an identity still belongs to one call. -/
theorem Regular.upTo {S : Expr → Prop} (h : Regular w S) (n : Nat) :
    Regular (w.upTo n) S :=
  ⟨h.acyclic, h.closed, h.identified⟩

/-- Over the bars up to the newest one a guard is answered as if nothing was
evaluated before. -/
theorem yields_guardHolds (hr : Regular w w.InScript)
    (hi : i < w.bars.length) {guard : Option Expr}
    (hguard : ∀ g, guard = some g → w.IsGuard g) :
    Yields (Faithful ((w.upTo (i + 1)).holding p) w.InScript)
      (((w.upTo (i + 1)).holding p).guardHolds guard)
      (w.guardTruth p i guard) := by
  cases guard with
  | none => exact .pure true
  | some g =>
      have hmem : w.InScript g := ⟨g, Or.inl (hguard g rfl), .refl⟩
      have hvalue : Yields (Faithful ((w.upTo (i + 1)).holding p) w.InScript)
          (((w.upTo (i + 1)).holding p).value g)
          (((w.upTo (i + 1)).holding p).fresh (i + 1) g) := by
        intro c hc
        unfold World.value
        rw [show ((w.upTo (i + 1)).holding p).bars.length = i + 1 from
          length_upTo hi]
        exact evaluate_eq_fresh (hr.upTo (i + 1)) hmem (.all _ g) p (i + 1) hc
      exact hvalue.bind (.pure _)

/-- Computing the indicators first changes no value. -/
theorem keeps_computeIndicators (hr : Regular w w.InScript) (n : Nat) :
    Keeps (Faithful ((w.upTo n).holding p) w.InScript)
      ((w.upTo n).holding p).computeIndicators := by
  refine Keeps.forM _ ?_
  intro call hcall
  have hmem : w.InScript call := ⟨call, Or.inr hcall, .refl⟩
  refine Keeps.bind ?_ fun _ => .pure _
  intro c hc
  exact (evaluate_eq_fresh (hr.upTo n) hmem (.all _ call) p _ hc).2

/-- Whether a rule for entering applies, which is not in the direction that is
held. -/
def World.enters (w : World) (p : Position) (i : Nat) (entry : Entry) :
    Bool :=
  if Position.ofDirection entry.direction = p then false
  else w.guardTruth p i entry.guard

/-- The first rule for entering that applies at the newest bar. -/
def World.enteringRule? (w : World) : Evaluating (Option Entry) :=
  firstPassing (fun _ (entry : Entry) => do
    if Position.ofDirection entry.direction = w.position then pure false
    else w.guardHolds entry.guard) 0 w.strategy.entries

theorem yields_enteringRule? (hr : Regular w w.InScript)
    (hi : i < w.bars.length) :
    Yields (Faithful ((w.upTo (i + 1)).holding p) w.InScript)
      ((w.upTo (i + 1)).holding p).enteringRule?
      (w.strategy.entries.find? (w.enters p i)) := by
  refine .firstPassing 0 w.strategy.entries ?_
  intro k entry hentry
  unfold World.enters
  show Yields _ (if Position.ofDirection entry.direction = p then _ else _) _
  split
  · exact .pure false
  · refine yields_guardHolds hr hi ?_
    exact fun g hg => Or.inl ⟨entry, List.mem_of_getElem? hentry, hg⟩

theorem entryOrder?_none {v : World} (h : (v.enteringRule? c).1 = none) :
    v.entryOrder? c = (none, (v.enteringRule? c).2) := by
  unfold World.enteringRule? at h ⊢
  unfold World.entryOrder?
  rw [run_bind, h]
  rfl

/-- An order has the direction of its rule. -/
theorem entryOrder?_some {v : World} {entry : Entry}
    (h : (v.enteringRule? c).1 = some entry) :
    ∃ order, (v.entryOrder? c).1 = some order ∧
      order.direction = entry.direction := by
  unfold World.enteringRule? at h
  unfold World.entryOrder?
  rw [run_bind, h]
  exact ⟨_, rfl, rfl⟩

theorem yields_leaves (hr : Regular w w.InScript) (hi : i < w.bars.length) :
    Yields (Faithful ((w.upTo (i + 1)).holding p) w.InScript)
      ((w.upTo (i + 1)).holding p).leaves
      (w.strategy.exits.find? fun e => w.guardTruth p i e.guard).isSome := by
  have hfirst : Yields (Faithful ((w.upTo (i + 1)).holding p) w.InScript)
      (firstPassing (fun _ (exit : Exit) =>
        ((w.upTo (i + 1)).holding p).guardHolds exit.guard) 0
        w.strategy.exits)
      (w.strategy.exits.find? fun e => w.guardTruth p i e.guard) := by
    refine .firstPassing 0 w.strategy.exits ?_
    intro k exit hexit
    refine yields_guardHolds hr hi ?_
    exact fun g hg => Or.inr ⟨exit, List.mem_of_getElem? hexit, hg⟩
  exact hfirst.bind (.pure _)

/-- The decision at the newest bar carries out a move. -/
structure Decides (v : World) (move : Move)
    (r : Signal × Position × Float) : Prop where
  kind : r.1.kind = move.kind
  price : move.kind ≠ .none → r.1.price = v.lastClose
  position : r.2.1 = move.position v.position

section

variable {v : World} (quantity : Float)

/-- An order is carried out. -/
theorem decides_enter {order : EntryOrder}
    (h : (v.entryOrder? (v.computeIndicators c).2).1 = some order) :
    Decides v (.enter order.direction) (v.decide quantity c).1 := by
  unfold World.decide
  rw [run_bind, run_bind, h]
  exact ⟨rfl, fun _ => rfl, rfl⟩

theorem decides_stay :
    Decides v .stay (.idle v.symbol, v.position, quantity) :=
  ⟨rfl, fun hne => absurd rfl hne, rfl⟩

/-- Without an order and with nothing held nothing is done. -/
theorem decides_idle
    (h : (v.entryOrder? (v.computeIndicators c).2).1 = none)
    (hheld : v.position.direction? = none) :
    Decides v .stay (v.decide quantity c).1 := by
  unfold World.decide
  rw [run_bind, run_bind, h, hheld]
  exact decides_stay quantity

/-- Without an order an open trade is left or kept. -/
theorem decides_leave
    (h : (v.entryOrder? (v.computeIndicators c).2).1 = none)
    {d : Direction} (hheld : v.position.direction? = some d) :
    Decides v
      (if (v.leaves (v.entryOrder? (v.computeIndicators c).2).2).1
        then .leave d else .stay) (v.decide quantity c).1 := by
  unfold World.decide
  rw [run_bind, run_bind, h, hheld]
  dsimp only
  rw [run_bind]
  split
  · exact ⟨rfl, fun _ => rfl, rfl⟩
  · exact decides_stay quantity

end

/-- Where nothing is held every direction may be entered. -/
theorem enters_flat (entry : Entry) :
    w.enters .flat i entry = w.guardTruth .flat i entry.guard := by
  unfold World.enters
  rw [if_neg]
  cases entry.direction <;> decide

/-- What is held is not entered again. -/
theorem find?_enters_held {d : Direction}
    (hd : ∀ entry ∈ w.strategy.entries, entry.direction = d) :
    w.strategy.entries.find? (w.enters (.ofDirection d) i) = none := by
  rw [List.find?_eq_none]
  intro entry hentry
  unfold World.enters
  rw [if_pos (congrArg Position.ofDirection (hd entry hentry))]
  exact Bool.false_ne_true

/-- **The decision is the move of the script**, where what is held has the
direction of all entries. -/
theorem decides_move (hr : Regular w w.InScript) (hi : i < w.bars.length)
    {d : Direction} (hd : ∀ entry ∈ w.strategy.entries, entry.direction = d)
    (hp : p = .flat ∨ p = .ofDirection d)
    (hc : Faithful ((w.upTo (i + 1)).holding p) w.InScript c)
    (quantity : Float) :
    Decides ((w.upTo (i + 1)).holding p) (w.move p i)
      (((w.upTo (i + 1)).holding p).decide quantity c).1 := by
  have hfilled := keeps_computeIndicators hr (i + 1) c hc
  obtain ⟨hentry, hafter⟩ := yields_enteringRule? hr hi _ hfilled
  rcases hp with rfl | rfl
  · -- Nothing is held: the order is that of the first rule that applies.
    have hfind : w.strategy.entries.find? (w.enters .flat i) =
        w.strategy.entries.find? fun e => w.guardTruth .flat i e.guard := by
      congr 1
      funext entry
      exact enters_flat entry
    rw [hfind] at hentry
    cases hrule : w.strategy.entries.find? fun e =>
        w.guardTruth .flat i e.guard with
    | none =>
        rw [hrule] at hentry
        rw [move_idle rfl hrule]
        exact decides_idle quantity (congrArg Prod.fst (entryOrder?_none hentry)) rfl
    | some entry =>
        rw [hrule] at hentry
        obtain ⟨order, horder, hsame⟩ := entryOrder?_some hentry
        rw [move_enter rfl hrule, ← hsame]
        exact decides_enter quantity horder
  · -- A trade is open: no rule for entering applies.
    rw [find?_enters_held hd] at hentry
    have horder := entryOrder?_none hentry
    obtain ⟨hleaves, _⟩ := yields_leaves hr hi _ hafter
    have hleave := decides_leave quantity (congrArg Prod.fst horder)
      (Position.direction?_ofDirection d)
    rw [horder, hleaves] at hleave
    rw [move_leave (Position.direction?_ofDirection d)]
    exact hleave

/-! ## Bars one at a time -/

/-- A session that holds the oldest `i` bars of a world. -/
def AtBar (w : World) (i : Nat) (p : Position) (s : Session) : Prop :=
  s.toWorld = (w.upTo i).holding p

theorem take_succ_of_drop {bar : Bar} {rest : List Bar}
    (h : w.bars.drop i = bar :: rest) :
    i < w.bars.length ∧ w.bars.take (i + 1) = w.bars.take i ++ [bar] ∧
      w.bars.drop (i + 1) = rest := by
  have hbar : w.bars[i]? = some bar := by
    rw [← Nat.add_zero i, ← List.getElem?_drop, h]
    rfl
  refine ⟨(List.getElem?_eq_some_iff.mp hbar).1, ?_, ?_⟩
  · rw [List.take_add_one, hbar]
    rfl
  · rw [← List.drop_drop, h]
    rfl

/-- A bar that arrives is answered by the move of the script. -/
theorem processBar_move (hr : Regular w w.InScript) {bar : Bar}
    {rest : List Bar} (hbar : w.bars.drop i = bar :: rest) {d : Direction}
    (hd : ∀ entry ∈ w.strategy.entries, entry.direction = d)
    (hp : p = .flat ∨ p = .ofDirection d) {s : Session}
    (hs : AtBar w i p s) :
    (s.processBar bar).1.kind = (w.move p i).kind ∧
      ((w.move p i).kind ≠ .none →
        (s.processBar bar).1.price = bar.close) ∧
      AtBar w (i + 1) ((w.move p i).position p) (s.processBar bar).2 := by
  obtain ⟨hi, htake, _⟩ := take_succ_of_drop hbar
  -- The bar joins the loaded ones, and the cache starts empty.
  have hworld : (s.loadBars (s.bars ++ [bar])).toWorld =
      (w.upTo (i + 1)).holding p := by
    show { s.toWorld with bars := s.toWorld.bars ++ [bar] } = _
    rw [hs]
    unfold World.upTo
    rw [htake]
    rfl
  have hclose : ((w.upTo (i + 1)).holding p).lastClose = bar.close := by
    show ((w.bars.take (i + 1)).getLast?.map Bar.close).getD undefined = _
    rw [htake, List.getLast?_concat]
    rfl
  have hdecides := decides_move hr hi hd hp (.empty _ _) s.entryQuantity
  rw [← hworld] at hdecides
  obtain ⟨hkind, hprice, hposition⟩ := hdecides
  refine ⟨hkind, ?_, ?_⟩
  · intro hne
    rw [← hclose, ← hworld]
    exact hprice hne
  · show ((s.loadBars (s.bars ++ [bar])).toWorld).holding
      (((s.loadBars (s.bars ++ [bar])).toWorld).decide s.entryQuantity
        []).1.2.1 = _
    rw [hposition, hworld]
    rfl

/-- A move leaves the market or holds the direction of all entries. -/
theorem position_move {d : Direction}
    (hd : ∀ entry ∈ w.strategy.entries, entry.direction = d)
    (hp : p = .flat ∨ p = .ofDirection d) :
    (w.move p i).position p = .flat ∨
      (w.move p i).position p = .ofDirection d := by
  unfold World.move
  split
  · split
    · rename_i entry hentry
      exact Or.inr
        (congrArg Position.ofDirection (hd entry (List.mem_of_find?_eq_some hentry)))
    · exact hp
  · split
    · exact Or.inl rfl
    · exact hp

/-- A move is an event where its signal asks for something. -/
theorem events_eq_kind (move : Move) (index : Nat) (price : Float) :
    move.events index price =
      if move.kind = .none then [] else [(index, price, move.kind)] := by
  cases move with
  | stay => rfl
  | enter direction => cases direction <;> rfl
  | leave direction => cases direction <;> rfl

/-- **The signals are the events of the script.** -/
theorem signals_eq_events (hr : Regular w w.InScript) {d : Direction}
    (hd : ∀ entry ∈ w.strategy.entries, entry.direction = d)
    (bars : List Bar) (hbars : w.bars.drop i = bars)
    (hp : p = .flat ∨ p = .ofDirection d) {s : Session}
    (hs : AtBar w i p s) :
    (s.signals i bars).map signalEvent = w.events p i bars := by
  induction bars generalizing i p s with
  | nil => rfl
  | cons bar rest ih =>
      obtain ⟨hkind, hprice, hnext⟩ := processBar_move hr hbars hd hp hs
      have hrest := ih (take_succ_of_drop hbars).2.2 (position_move hd hp) hnext
      -- An idle signal is left out, as a bar without a move has no event.
      rw [signals_cons, World.events, ← hrest, events_eq_kind, Signal.isIdle,
        hkind]
      by_cases hidle : (w.move p i).kind = .none
      · rw [if_pos (beq_iff_eq.mpr hidle), if_pos hidle]
        rfl
      · rw [if_neg (by rwa [beq_iff_eq]), if_neg hidle, List.map_cons,
          signalEvent, hprice hidle, hkind]
        rfl

end

/-! ## Both modes -/

/-- **Both modes make the same events.** For a script that parses, whose
entries have one direction and which is steady, the signals that answer the
bars behind the first one after another are the trades of a backtest over all
bars: at the same bars, at the same prices, of the same kinds. The bars are
answered under one symbol and the backtest runs under that of its
configuration; where these differ no guard may read the symbol. -/
theorem streamSignals_eq_backtest {source : String} {strategy : Strategy}
    (hparse : Strategy.parse source = .ok strategy) {d : Direction}
    (hd : ∀ entry ∈ strategy.entries, entry.direction = d) (config : Config)
    (symbol : String) (bars : List Bar)
    (h : SteadyScript ((start strategy config.symbol).loadBars bars).toWorld)
    (hsymbol : symbol = config.symbol ∨
      ((start strategy
        config.symbol).loadBars bars).toWorld.SymbolFreeGuards) :
    (streamSignals strategy symbol 1 bars).map signalEvent =
      (backtest strategy config [] bars).trades.map tradeEvent := by
  have ho : ((start strategy
      config.symbol).loadBars bars).toWorld.PlainOverrides :=
    (sound_of_reached (.loadBars .start bars)).overrides
  generalize hw : ((start strategy config.symbol).loadBars bars).toWorld = w
    at h ho hsymbol
  have hstrategy : w.strategy = strategy := by
    rw [← hw]
    rfl
  have hbars : w.bars = bars := by
    rw [← hw]
    rfl
  have hr : Regular w w.InScript :=
    regular_of_parse h.acyclic (by rw [hstrategy]; exact hparse)
  have hbacktest : (backtest strategy config [] bars).trades =
      (w.backtest config.capital ⟨[], []⟩).1.trades := by
    rw [← hw]
    rfl
  rw [hbacktest, World.backtest, hbars]
  cases bars with
  | nil => rfl
  | cons first rest =>
      have htrades := trades_over ho h hr (.start config.capital) rest 1
        (by rw [hbars, List.length_cons]; omega) (.empty w)
      -- An identity belongs to one call whatever the symbol is.
      have hr' : Regular (w.called symbol) (w.called symbol).InScript :=
        ⟨hr.acyclic, hr.closed, hr.identified⟩
      have hsignals := signals_eq_events hr' (i := 1) (p := .flat) (d := d)
        (by rw [← hstrategy] at hd; exact hd) rest
        (show w.bars.drop 1 = rest by rw [hbars]; rfl) (Or.inl rfl)
        (s := (start strategy symbol).loadBars [first])
        (by subst hw; rfl)
      have hevents : (w.called symbol).events .flat 1 rest =
          w.events .flat 1 rest := by
        rcases hsymbol with rfl | hfree
        · subst hw
          rfl
        · exact events_called hfree .flat 1 rest
      have hstart : (first :: rest).tail = rest := rfl
      rw [hstart, htrades]
      exact hsignals.trans hevents

/-- A script with a moving average of the close, filled in where there is none
yet. The length is an input, and the first guard has to be read in the view of
each bar. -/
def smoothedScript : String :=
  "len = input.int(2, \"Length\")\nbase = nz(ta.ema(close, len), 0)\nstrategy.entry(\"L\", strategy.long, when=close > close[1] ? close > base : barstate.isfirst)\nstrategy.close(\"L\", when=ta.crossunder(close, base))"

/-- Bars whose close rises above its average twice and falls below it. -/
def smoothedBars : List Bar :=
  [stillBar 3.0, stillBar 4.0, stillBar 5.0, stillBar 2.0, stillBar 3.0,
    stillBar 6.0, stillBar 1.0]

/-- Both modes take two long trades, under different symbols. -/
theorem streamSignals_eq_backtest_smoothed :
    ∃ strategy, Strategy.parse smoothedScript = .ok strategy ∧
      (∃ g ∈ guardsOf strategy, dependsOnView strategy g = true) ∧
      (streamSignals strategy "WAVE" 1 smoothedBars).map signalEvent =
        (backtest strategy .default [] smoothedBars).trades.map tradeEvent ∧
      (backtest strategy .default [] smoothedBars).trades.length = 4 := by
  have hshape : (Strategy.parse smoothedScript).toOption.map (fun s =>
      (isSteady s 8 && isSymbolFree s 8,
        s.entries.all fun e => e.direction == .long,
        (guardsOf s).any (dependsOnView s),
        (backtest s .default [] smoothedBars).trades.length)) =
      some (true, true, true, 4) := by
    decide +kernel
  obtain ⟨s, hparse, hvalues⟩ := exists_ok_of_map hshape
  obtain ⟨htests, hlong, hview, hlength⟩ :
      (isSteady s 8 && isSymbolFree s 8) = true ∧
      (s.entries.all fun e => e.direction == .long) = true ∧
      (guardsOf s).any (dependsOnView s) = true ∧
      (backtest s .default [] smoothedBars).trades.length = 4 := by
    simpa only [Prod.mk.injEq] using hvalues
  rw [Bool.and_eq_true] at htests
  simp only [List.all_eq_true, beq_iff_eq] at hlong
  refine ⟨s, hparse, List.any_eq_true.mp hview, ?_, hlength⟩
  exact streamSignals_eq_backtest hparse (d := .long) hlong .default
    "WAVE" smoothedBars (steadyScript_of_isSteady rfl htests.1)
    (Or.inr (symbolFreeGuards_of_isSymbolFree rfl htests.2))

/-- A script that trades in one symbol only. -/
def tickerScript : String :=
  "strategy.entry(\"L\", strategy.long, when=syminfo.ticker == \"WAVE\")\nstrategy.close(\"L\", when=close > 5)"

/-- Under two symbols the modes may differ: the guard for entering holds in one
of them and not in the other. -/
theorem symbols_show :
    ¬∀ (source : String) (strategy : Strategy) (d : Direction)
      (config : Config) (symbol : String) (bars : List Bar),
      Strategy.parse source = .ok strategy →
      (∀ entry ∈ strategy.entries, entry.direction = d) →
      SteadyScript ((start strategy config.symbol).loadBars bars).toWorld →
      SteadyScript ((start strategy symbol).loadBars bars).toWorld →
      (streamSignals strategy symbol 1 bars).map signalEvent =
        (backtest strategy config [] bars).trades.map tradeEvent := by
  intro hclaim
  have hshape : (Strategy.parse tickerScript).toOption.map (fun s =>
      (isSteady s 4, s.entries.all fun e => e.direction == .long,
        (streamSignals s "WAVE" 1
          [stillBar 3.0, stillBar 5.0, stillBar 6.0]).length,
        (backtest s .default []
          [stillBar 3.0, stillBar 5.0, stillBar 6.0]).trades.length)) =
      some (true, true, 2, 0) := by
    decide +kernel
  obtain ⟨s, hparse, hvalues⟩ := exists_ok_of_map hshape
  obtain ⟨hsteady, hlong, htwo, hnone⟩ :
      isSteady s 4 = true ∧
      (s.entries.all fun e => e.direction == .long) = true ∧
      (streamSignals s "WAVE" 1
        [stillBar 3.0, stillBar 5.0, stillBar 6.0]).length = 2 ∧
      (backtest s .default []
        [stillBar 3.0, stillBar 5.0, stillBar 6.0]).trades.length = 0 := by
    simpa only [Prod.mk.injEq] using hvalues
  simp only [List.all_eq_true, beq_iff_eq] at hlong
  have hsame := hclaim tickerScript s .long .default "WAVE"
    [stillBar 3.0, stillBar 5.0, stillBar 6.0] hparse hlong
    (steadyScript_of_isSteady rfl hsteady)
    (steadyScript_of_isSteady rfl hsteady)
  have hlengths := congrArg List.length hsame
  rw [List.length_map, List.length_map, htwo, hnone] at hlengths
  cases hlengths

/-- A script that enters when the close changed over two bars and leaves when
it changed over one. -/
def changingScript : String :=
  "strategy.entry(\"L\", strategy.long, when=ta.change(close, 2))\nstrategy.close(\"L\", when=ta.change(close, 1))"

/-- Bars on which the close changes twice. -/
def changingBars : List Bar :=
  [stillBar 3.0, stillBar 3.0, stillBar 5.0, stillBar 5.0, stillBar 6.0]

/-- The script parses, and it is steady in every world where nothing is
set. -/
theorem steadyScript_changing :
    ∃ strategy, Strategy.parse changingScript = .ok strategy ∧
      (∃ g, g ∈ strategy.indicators) ∧
      ∀ w : World, w.overrides = ∅ → w.strategy = strategy →
        SteadyScript w := by
  have hshape : (Strategy.parse changingScript).toOption.map (fun s =>
      (isSteady s 4, s.indicators.length)) = some (true, 2) := by
    decide +kernel
  obtain ⟨s, hparse, hvalues⟩ := exists_ok_of_map hshape
  obtain ⟨hsteady, hlength⟩ :
      isSteady s 4 = true ∧ s.indicators.length = 2 := by
    simpa only [Prod.mk.injEq] using hvalues
  refine ⟨s, hparse, List.exists_mem_of_length_pos (by omega), ?_⟩
  rintro w hset rfl
  exact steadyScript_of_isSteady hset hsteady

end Barscript.Session
