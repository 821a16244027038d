import Barscript.Proofs.Session.Protocol
import Barscript.Proofs.Session.Rules

/-!
# Warm-up

A stream loads its first bars in bulk and answers the others one after another.
A bar that is answered by nothing leaves a session as a bulk load would: what
is held and the quantity of the latest entry stay, and what is kept of indicator
values goes with the next bar. So the bars that are answered by nothing in front
may as well be loaded (`signals_append`), and the warm-up may be made longer as
long as no signal is lost (`streamSignals_warmup`).
-/

namespace Barscript.Session

open Barscript.Script Barscript.Market Barscript.Trading

section

variable {s : Session} {bar : Bar}

/-! ## Bars that are answered by nothing -/

theorem kind_ne_none (d : Direction) :
    SignalKind.entering d ≠ .none ∧ SignalKind.leaving d ≠ .none := by
  cases d <;> decide

/-- **A bar that is answered by nothing changes nothing** but the bars and what
is kept of them. -/
theorem processBar_idle (h : (s.processBar bar).1.isIdle = true) :
    (s.processBar bar).2 =
      { s with bars := s.bars ++ [bar], cache := (s.decision bar).2 } := by
  have hdecision : Decision (s.toWorld.showing (s.bars ++ [bar]) s.position)
      s.entryQuantity (s.decision bar).1 := decision_decide _ _ _
  rw [processBar_eq] at h ⊢
  generalize (s.decision bar).1 = r at *
  cases hdecision with
  | enter => exact absurd (eq_of_beq h) (kind_ne_none _).1
  | leave => exact absurd (eq_of_beq h) (kind_ne_none _).2
  | idle => rfl

/-- What is kept of the bars so far does not show in the signals. -/
theorem signals_loadBars (s : Session) (index : Nat) (bars : List Bar) :
    (s.loadBars s.bars).signals index bars = s.signals index bars := by
  refine signals_of_decide (s := s.loadBars s.bars) (t := s) ?_ rfl rfl rfl
    index bars
  exact fun _ _ _ => rfl

/-- **Bars in front that are answered by nothing may be loaded.** -/
theorem signals_append (s : Session) (index : Nat) (early late : List Bar)
    (h : ∀ answer ∈ s.signals index (early ++ late),
      index + early.length ≤ answer.1) :
    s.signals index (early ++ late) =
      (s.loadBars (s.bars ++ early)).signals (index + early.length) late := by
  induction early generalizing s index with
  | nil =>
      rw [List.append_nil]
      exact (signals_loadBars s index late).symm
  | cons bar rest ih =>
      rw [List.cons_append, signals_cons] at h ⊢
      rw [List.length_cons] at h ⊢
      by_cases hidle : (s.processBar bar).1.isIdle = true
      · rw [if_pos hidle] at h ⊢
        rw [processBar_idle hidle] at h ⊢
        have hindex : index + (rest.length + 1) = index + 1 + rest.length := by
          omega
        rw [hindex] at h ⊢
        rw [ih _ _ h]
        show (s.loadBars ((s.bars ++ [bar]) ++ rest)).signals _ late = _
        rw [List.append_assoc]
        rfl
      · -- The bar is answered, which no bar in front is.
        rw [if_neg hidle] at h
        have hfirst := h _ List.mem_cons_self
        have hless : index + (rest.length + 1) ≤ index := hfirst
        omega

/-! ## The numbers of the answers -/

/-- Answers have the numbers of their bars, and none is idle. -/
theorem signals_bounds (s : Session) (index : Nat) (bars : List Bar) :
    ∀ answer ∈ s.signals index bars,
      index ≤ answer.1 ∧ answer.1 < index + bars.length ∧
        answer.2.isIdle = false := by
  induction bars generalizing s index with
  | nil => exact fun _ h => absurd h List.not_mem_nil
  | cons bar rest ih =>
      rw [signals_cons, List.length_cons]
      intro answer hanswer
      have hlater : answer ∈ (s.processBar bar).2.signals (index + 1) rest →
          index ≤ answer.1 ∧ answer.1 < index + (rest.length + 1) ∧
            answer.2.isIdle = false := by
        intro hmem
        obtain ⟨hlower, hupper, hbusy⟩ := ih _ _ answer hmem
        exact ⟨by omega, by omega, hbusy⟩
      split at hanswer
      · exact hlater hanswer
      · rename_i hbusy
        rcases List.mem_cons.mp hanswer with rfl | hmem
        · exact ⟨Nat.le_refl _, by omega, Bool.eq_false_iff.mpr hbusy⟩
        · exact hlater hmem

/-- Answers come in the order of their bars. -/
theorem signals_increasing (s : Session) (index : Nat) (bars : List Bar) :
    (s.signals index bars).Pairwise fun a b => a.1 < b.1 := by
  induction bars generalizing s index with
  | nil => exact .nil
  | cons bar rest ih =>
      rw [signals_cons]
      split
      · exact ih _ _
      · refine .cons (fun answer hanswer => ?_) (ih _ _)
        have hlower := (signals_bounds _ _ rest answer hanswer).1
        show index < answer.1
        omega

end

/-! ## Streams -/

/-- A bar that a longer warm-up takes in is loaded behind the others. -/
theorem streamSignals_longer {strategy : Strategy} {symbol : String}
    {bars : List Bar} {w w' : Nat} (hle : w ≤ w') (hlength : w' ≤ bars.length)
    (h : ∀ answer ∈ streamSignals strategy symbol w bars, w' ≤ answer.1) :
    streamSignals strategy symbol w' bars =
      streamSignals strategy symbol w bars := by
  -- The bars between the two warm-ups come in bulk or one after another.
  have hbetween : bars.drop w = (bars.take w').drop w ++ bars.drop w' := by
    rw [← List.drop_append_of_le_length (by rw [List.length_take]; omega),
      List.take_append_drop]
  have htake : bars.take w ++ (bars.take w').drop w = bars.take w' := by
    have hfront : bars.take w = (bars.take w').take w := by
      rw [List.take_take, Nat.min_eq_left hle]
    rw [hfront, List.take_append_drop]
  have hcount : ((bars.take w').drop w).length = w' - w := by
    rw [List.length_drop, List.length_take]
    omega
  unfold streamSignals at h ⊢
  rw [Nat.min_eq_left hlength]
  rw [Nat.min_eq_left (hle.trans hlength), hbetween] at h ⊢
  have hindex : w + ((bars.take w').drop w).length = w' := by omega
  rw [signals_append _ _ _ _ (by rw [hindex]; exact h), hindex]
  show _ = (((start strategy symbol).loadBars
    (bars.take w ++ (bars.take w').drop w)).signals w' (bars.drop w'))
  rw [htake]

/-- **Warm-up does not matter while nothing trades.** A longer warm-up gives the
same signals if it takes in no bar that was answered by one. With every warm-up
the signals are numbered by their bars, in their order and behind the warm-up,
and each of them says to do something. -/
theorem streamSignals_warmup (strategy : Strategy) (symbol : String)
    (bars : List Bar) :
    (∀ w w', w ≤ w' → w' ≤ bars.length →
      (∀ answer ∈ streamSignals strategy symbol w bars, w' ≤ answer.1) →
      streamSignals strategy symbol w' bars =
        streamSignals strategy symbol w bars) ∧
    ∀ w,
      ((streamSignals strategy symbol w bars).Pairwise
        fun a b => a.1 < b.1) ∧
      ∀ answer ∈ streamSignals strategy symbol w bars,
        min w bars.length ≤ answer.1 ∧ answer.1 < bars.length ∧
          answer.2.kind ≠ .none := by
  refine ⟨fun w w' => streamSignals_longer, fun w =>
    ⟨signals_increasing _ _ _, fun answer hanswer => ?_⟩⟩
  obtain ⟨hlower, hupper, hbusy⟩ := signals_bounds _ _ _ answer hanswer
  rw [List.length_drop] at hupper
  exact ⟨hlower, by omega, fun hkind => by
    rw [Signal.isIdle, hkind] at hbusy
    cases hbusy⟩

/-- A script that enters above a price. -/
def risingScript : String :=
  "strategy.entry(\"L\", strategy.long, when=close > 4)"

/-- The first bar above the price is the fourth. -/
def risingBars : List Bar :=
  [stillBar 3.0, stillBar 3.0, stillBar 4.0, stillBar 5.0, stillBar 6.0]

/-- The second and the third bar may come in bulk as well as alone. -/
theorem streamSignals_warmup_rising :
    ∃ strategy, Strategy.parse risingScript = .ok strategy ∧
      (streamSignals strategy "" 1 risingBars).map Prod.fst = [3] ∧
      streamSignals strategy "" 3 risingBars =
        streamSignals strategy "" 1 risingBars := by
  have hnumbers : (Strategy.parse risingScript).toOption.map (fun strategy =>
      (streamSignals strategy "" 1 risingBars).map Prod.fst) = some [3] := by
    decide +kernel
  obtain ⟨strategy, hparse, hone⟩ := exists_ok_of_map hnumbers
  refine ⟨strategy, hparse, hone, ?_⟩
  refine (streamSignals_warmup strategy "" risingBars).1 1 3 (by decide)
    (by decide) fun answer hanswer => ?_
  have hmem := List.mem_map_of_mem (f := Prod.fst) hanswer
  rw [hone, List.mem_singleton] at hmem
  omega

end Barscript.Session
