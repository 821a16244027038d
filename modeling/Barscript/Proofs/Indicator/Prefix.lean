import Barscript.Proofs.Series.Prefix

/-!
# Indicators over a prefix of the bars

Each indicator is a composition of the combinators of `Series/Column`, so each
respects `Begins`. The lengths and multipliers are the same on both sides: an
indicator that reads them off a column is a matter of its arguments, not of
the computation itself.
-/

namespace Barscript.Indicator

open Barscript.Series

variable {n m : Nat}

section Columns

variable {xs ys us vs hs hs' ls ls' cs cs' : Column}

/-! ## Moving averages -/

theorem begins_undefinedLike {α : Type} {xs ys : List α}
    (h : Begins n m xs ys) :
    Begins n m (undefinedLike xs) (undefinedLike ys) :=
  h.map _

theorem begins_sma (length : Nat) (h : Begins n m xs ys) :
    Begins n m (sma xs length) (sma ys length) :=
  h.rolling _ _

theorem begins_ema (length : Nat) (h : Begins n m xs ys) :
    Begins n m (ema xs length) (ema ys length) := by
  unfold ema
  split
  · exact begins_undefinedLike h
  · exact h.smooth _

theorem begins_rma (length : Nat) (h : Begins n m xs ys) :
    Begins n m (rma xs length) (rma ys length) := by
  unfold rma
  split
  · exact begins_undefinedLike h
  · exact h.smooth _

theorem begins_wma (length : Nat) (h : Begins n m xs ys) :
    Begins n m (wma xs length) (wma ys length) :=
  h.rolling _ _

theorem begins_vwma (length : Nat) (h : Begins n m xs ys)
    (hv : Begins n m us vs) :
    Begins n m (vwma xs us length) (vwma ys vs length) :=
  ((h.zipColumns _ hv).rolling _ _).zipColumns _ (hv.rolling _ _)

/-! ## Ranges -/

theorem begins_candles (hh : Begins n m hs hs') (hl : Begins n m ls ls')
    (hc : Begins n m cs cs') :
    Begins n m (candles hs ls cs) (candles hs' ls' cs') :=
  (hh.zip hl).zipWith _ hc

theorem begins_trueRange (hh : Begins n m hs hs') (hl : Begins n m ls ls')
    (hc : Begins n m cs cs') :
    Begins n m (trueRange hs ls cs) (trueRange hs' ls' cs') :=
  (begins_candles hh hl hc).overHistory _

theorem begins_atr (length : Nat) (hh : Begins n m hs hs')
    (hl : Begins n m ls ls') (hc : Begins n m cs cs') :
    Begins n m (atr hs ls cs length) (atr hs' ls' cs' length) := by
  unfold atr
  split
  · exact begins_undefinedLike hc
  · exact (begins_trueRange hh hl hc).smooth _

theorem begins_highest (length : Nat) (h : Begins n m xs ys) :
    Begins n m (highest xs length) (highest ys length) :=
  h.rolling _ _

theorem begins_lowest (length : Nat) (h : Begins n m xs ys) :
    Begins n m (lowest xs length) (lowest ys length) :=
  h.rolling _ _

theorem begins_williamsR (length : Nat) (hh : Begins n m hs hs')
    (hl : Begins n m ls ls') (hc : Begins n m cs cs') :
    Begins n m (williamsR hs ls cs length) (williamsR hs' ls' cs' length) :=
  (begins_candles (begins_highest _ hh) (begins_lowest _ hl) hc).map _

/-! ## Oscillators -/

theorem begins_roc (length : Nat) (h : Begins n m xs ys) :
    Begins n m (roc xs length) (roc ys length) :=
  h.zipColumns _ (h.shift _)

theorem begins_rsi (length : Nat) (h : Begins n m xs ys) :
    Begins n m (rsi xs length) (rsi ys length) :=
  (((h.change 1).map _).rolling _ _).zipColumns _
    (((h.change 1).map _).rolling _ _)

theorem begins_stochasticK (length smoothK smoothD : Nat)
    (hh : Begins n m hs hs') (hl : Begins n m ls ls')
    (hc : Begins n m cs cs') :
    Begins n m (stochastic hs ls cs length smoothK smoothD).k
      (stochastic hs' ls' cs' length smoothK smoothD).k :=
  begins_sma _
    ((begins_candles (begins_highest _ hh) (begins_lowest _ hl) hc).map _)

theorem begins_stochasticD (length smoothK smoothD : Nat)
    (hh : Begins n m hs hs') (hl : Begins n m ls ls')
    (hc : Begins n m cs cs') :
    Begins n m (stochastic hs ls cs length smoothK smoothD).d
      (stochastic hs' ls' cs' length smoothK smoothD).d :=
  begins_sma _ (begins_stochasticK length smoothK smoothD hh hl hc)

theorem begins_cci (length : Nat) (h : Begins n m xs ys) :
    Begins n m (cci xs length) (cci ys length) :=
  (h.zipColumns _ (begins_sma _ h)).zipColumns _ (h.rolling _ _)

theorem length_moneyFlow (moves : Float → Float → Bool)
    (h : xs.length = us.length) :
    (moneyFlow moves xs us).length = xs.length := by
  cases xs with
  | nil => rfl
  | cons x xs => simp [moneyFlow, ← h]

theorem begins_moneyFlow (moves : Float → Float → Bool)
    (h : Begins n m xs ys) (hv : Begins n m us vs) :
    Begins n m (moneyFlow moves xs us) (moneyFlow moves ys vs) := by
  rcases h.head_cases with
    ⟨rfl, rfl⟩ | ⟨k, l, x, xs', ys', rfl, rfl, rfl, rfl, hrest⟩
  · refine .nil ?_
    rw [length_moneyFlow moves (h.length_eq.trans hv.length_eq.symm),
      h.length_eq]
  · exact (hrest.neighbours.zipWith _ hv.tail).cons _

theorem begins_mfi (length : Nat) (h : Begins n m xs ys)
    (hv : Begins n m us vs) :
    Begins n m (mfi xs us length) (mfi ys vs length) :=
  ((begins_moneyFlow _ h hv).rolling _ _).zipColumns _
    ((begins_moneyFlow _ h hv).rolling _ _)

/-! ## Trends -/

theorem begins_macdLine (fast slow signal : Nat) (h : Begins n m xs ys) :
    Begins n m (macd xs fast slow signal).line
      (macd ys fast slow signal).line :=
  (begins_ema _ h).zipColumns _ (begins_ema _ h)

theorem begins_macdSignal (fast slow signal : Nat) (h : Begins n m xs ys) :
    Begins n m (macd xs fast slow signal).signal
      (macd ys fast slow signal).signal :=
  begins_ema _ (begins_macdLine fast slow signal h)

theorem begins_macdHistogram (fast slow signal : Nat)
    (h : Begins n m xs ys) :
    Begins n m (macd xs fast slow signal).histogram
      (macd ys fast slow signal).histogram :=
  (begins_macdLine fast slow signal h).zipColumns _
    (begins_macdSignal fast slow signal h)

theorem begins_bands (length : Nat) (width : Float) (h : Begins n m xs ys) :
    Begins n m (bollinger xs length width).basis
        (bollinger ys length width).basis ∧
      Begins n m (bollinger xs length width).upper
        (bollinger ys length width).upper ∧
      Begins n m (bollinger xs length width).lower
        (bollinger ys length width).lower := by
  have hbasis : Begins n m (sma xs length) (sma ys length) := begins_sma _ h
  have hdistance : Begins n m
      ((rollingDeviation xs length).map (width * ·))
      ((rollingDeviation ys length).map (width * ·)) :=
    (h.rolling _ _).map _
  exact ⟨hbasis, hbasis.zipColumns _ hdistance, hbasis.zipColumns _ hdistance⟩

theorem begins_adx (length : Nat) (hh : Begins n m hs hs')
    (hl : Begins n m ls ls') (hc : Begins n m cs cs') :
    Begins n m (adx hs ls cs length) (adx hs' ls' cs' length) := by
  -- The two directions compete, and both are smoothed over the true range.
  have hup := hh.change 1
  have hdown := (hl.change 1).map fun d => -d
  have hplus := begins_rma length (hup.zipColumns dominant hdown)
  have hminus := begins_rma length (hdown.zipColumns dominant hup)
  exact begins_rma length
    ((begins_candles hplus hminus (begins_atr length hh hl hc)).map _)

theorem begins_supertrend (length : Nat) (width : Float)
    (hh : Begins n m hs hs') (hl : Begins n m ls ls')
    (hc : Begins n m cs cs') :
    Begins n m (supertrend hs ls cs length width).line
        (supertrend hs' ls' cs' length width).line ∧
      Begins n m (supertrend hs ls cs length width).direction
        (supertrend hs' ls' cs' length width).direction := by
  have hmiddle := hh.zipColumns (fun h l => (h + l) / 2.0) hl
  have hdistance := (begins_atr length hh hl hc).map (width * ·)
  have hbanded := begins_candles (hmiddle.zipColumns (· + ·) hdistance)
    (hmiddle.zipColumns (· - ·) hdistance) hc
  have hsteps := hbanded.scan trendStep ⟨1.0, none⟩
  exact ⟨hsteps.map Prod.fst, hsteps.map Prod.snd⟩

theorem begins_midpoint (length : Nat) (hh : Begins n m hs hs')
    (hl : Begins n m ls ls') :
    Begins n m (midpoint hs ls length) (midpoint hs' ls' length) :=
  (hh.rolling _ _).zipColumns _ (hl.rolling _ _)

theorem begins_ichimoku (tenkan kijun senkou : Nat)
    (hh : Begins n m hs hs') (hl : Begins n m ls ls') :
    Begins n m (ichimoku hs ls tenkan kijun senkou).tenkan
        (ichimoku hs' ls' tenkan kijun senkou).tenkan ∧
      Begins n m (ichimoku hs ls tenkan kijun senkou).kijun
        (ichimoku hs' ls' tenkan kijun senkou).kijun ∧
      Begins n m (ichimoku hs ls tenkan kijun senkou).senkouA
        (ichimoku hs' ls' tenkan kijun senkou).senkouA ∧
      Begins n m (ichimoku hs ls tenkan kijun senkou).senkouB
        (ichimoku hs' ls' tenkan kijun senkou).senkouB := by
  have hfast := begins_midpoint tenkan hh hl
  have hslow := begins_midpoint kijun hh hl
  exact ⟨hfast, hslow, (hfast.zipColumns _ hslow).shift kijun,
    (begins_midpoint senkou hh hl).shift kijun⟩

/-! ## Volume, crossings, levels -/

theorem length_obv (h : xs.length = us.length) :
    (obv xs us).length = xs.length := by
  cases xs with
  | nil => rfl
  | cons x xs => simp [obv, ← h]

theorem begins_obv (h : Begins n m xs ys) (hv : Begins n m us vs) :
    Begins n m (obv xs us) (obv ys vs) := by
  rcases h.head_cases with
    ⟨rfl, rfl⟩ | ⟨k, l, x, xs', ys', rfl, rfl, rfl, rfl, hrest⟩
  · refine .nil ?_
    rw [length_obv (h.length_eq.trans hv.length_eq.symm), h.length_eq]
  · exact ((hrest.neighbours.zipWith _ hv.tail).scan _ _).cons _

theorem begins_vwap (hh : Begins n m hs hs') (hl : Begins n m ls ls')
    (hc : Begins n m cs cs') (hv : Begins n m us vs) :
    Begins n m (vwap hs ls cs us) (vwap hs' ls' cs' vs) :=
  ((begins_candles hh hl hc).zipWith _ hv).scan _ _

theorem begins_crossing (crossed : Float × Float → Float × Float → Bool)
    (ha : Begins n m xs ys) (hb : Begins n m us vs) :
    Begins n m (crossing crossed xs us) (crossing crossed ys vs) :=
  (ha.zip hb).overHistory _

theorem begins_pivotLevels (hh : Begins n m hs hs') (hl : Begins n m ls ls')
    (hc : Begins n m cs cs') :
    Begins n m (pivotLevels hs ls cs) (pivotLevels hs' ls' cs') := by
  unfold pivotLevels
  rw [hc.length_prefix, hc.length_eq]
  exact (((begins_candles hh hl hc).map levelsAfter).cons .unset).take
    (Nat.le_succ n) (Nat.le_succ m) hc.le

end Columns

end Barscript.Indicator
