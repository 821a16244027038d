import Barscript.Indicator.Trend
import Barscript.Indicator.Volume
import Barscript.Indicator.Crossing
import Barscript.Indicator.Level
import Barscript.Proofs.Indicator.Prefix
import Barscript.Proofs.Bounds.Access

/-!
# Columns computed with checks

Every computation of a column that reaches for items by their numbers, written
with checked accesses: windows, shifts, and the indicators that read several
columns at one bar or the bar before. Those that only walk along a column have
nothing to check and appear as they are. Over columns of one length the checked
computation succeeds with the column of the unchecked one.
-/

namespace Barscript.Bounds

open Barscript.Series Barscript.Indicator

/-! ## Windows -/

/-- The value of `f` on the window that ends at each bar. -/
def rolling (f : Column → Float) (length : Nat) (source : Column) :
    Checked Column :=
  if length = 0 then .ok (undefinedLike source)
  else do
    let first ← minus length 1
    tabulate source.length fun last =>
      if last < first then .ok undefined
      else do
        let start ← minus (last + 1) length
        let w ← slice source start (last + 1)
        .ok (if w.any Float.isNaN then undefined else f w)

theorem overHistory_const {α β : Type} (y : β) (xs : List α) :
    overHistory (fun _ => y) xs = xs.map fun _ => y := by
  have hpast : ∀ past, historyFrom (fun _ => y) past xs =
      xs.map fun _ => y := by
    induction xs with
    | nil => exact fun _ => rfl
    | cons x rest ih =>
        intro past
        rw [historyFrom, ih, List.map_cons]
  exact hpast []

/-- A window that does not fit has no value. -/
theorem window?_short {length : Nat} {past : List Float}
    (h : past.length < length) : window? length past = none := by
  refine if_neg ?_
  rintro ⟨_, hlength, _⟩
  rw [List.length_take] at hlength
  omega

/-- A window that fits is a slice. -/
theorem window?_slice {length : Nat} {source : Column} {last : Nat}
    (hlast : last < source.length) (hpositive : length ≠ 0)
    (hfits : length ≤ last + 1) :
    window? length (source.take (last + 1)).reverse =
      let w := (source.take (last + 1)).drop (last + 1 - length)
      if w.any Float.isNaN then none else some w := by
  have hseen : (source.take (last + 1)).length = last + 1 := by
    rw [List.length_take]
    omega
  have hnewest : (source.take (last + 1)).reverse.take length =
      ((source.take (last + 1)).drop (last + 1 - length)).reverse := by
    rw [List.take_reverse, hseen]
  unfold window?
  rw [hnewest]
  generalize hw : (source.take (last + 1)).drop (last + 1 - length) = w
  have hlength : w.length = length := by
    rw [← hw, List.length_drop, hseen]
    omega
  have hall : w.reverse.all (fun x => !x.isNaN) = !w.any Float.isNaN := by
    rw [List.all_reverse, List.not_any_eq_all_not]
  dsimp only
  rw [hall, List.length_reverse, List.reverse_reverse]
  cases w.any Float.isNaN with
  | true => exact if_neg fun h => Bool.noConfusion h.2.2
  | false => exact if_pos ⟨hpositive, hlength, rfl⟩

@[simp] theorem rolling_ok (f : Column → Float) (length : Nat)
    (source : Column) :
    rolling f length source = .ok (Series.rolling f length source) := by
  unfold rolling
  by_cases hzero : length = 0
  · have hnone : ∀ past : List Float, window? length past = none :=
      fun past => if_neg fun h => h.1 hzero
    rw [if_pos hzero, Series.rolling]
    simp only [hnone, Option.map_none, Option.getD_none]
    rw [overHistory_const]
    rfl
  · rw [if_neg hzero, minus_ok (Nat.one_le_iff_ne_zero.mpr hzero), ok_bind]
    refine tabulate_ok (length_overHistory _ _) ?_
    intro last hi
    have hlast : last < source.length := by
      rw [Series.rolling, length_overHistory] at hi
      exact hi
    have hvalue : (Series.rolling f length source)[last] =
        ((window? length (source.take (last + 1)).reverse).map f).getD
          undefined :=
      getElem_overHistory _ source hi
    rw [hvalue]
    by_cases hshort : last < length - 1
    · rw [if_pos hshort, window?_short]
      · rfl
      · rw [List.length_reverse, List.length_take]
        omega
    · have hfits : length ≤ last + 1 := by omega
      rw [if_neg hshort, minus_ok hfits, ok_bind,
        slice_ok (Nat.sub_le _ _) hlast, ok_bind,
        window?_slice hlast hzero hfits]
      dsimp only
      split <;> rfl

/-- The simple moving average. -/
def sma (source : Column) (length : Nat) : Checked Column :=
  rolling mean length source

/-- The weighted moving average. -/
def wma (source : Column) (length : Nat) : Checked Column :=
  let n := Float.ofNat length
  rolling (fun w => sum (ramped w) / (n * (n + 1.0) / 2.0)) length source

/-- The volume-weighted moving average. -/
def vwma (source volume : Column) (length : Nat) : Checked Column := do
  let money ← rolling sum length (zipColumns (· * ·) source volume)
  let total ← rolling sum length volume
  .ok (zipColumns (· / ·) money total)

/-- The greatest number of a window. -/
def highest (source : Column) (length : Nat) : Checked Column :=
  rolling (fun w => w.foldl larger (-infinity)) length source

/-- The least number of a window. -/
def lowest (source : Column) (length : Nat) : Checked Column :=
  rolling (fun w => w.foldl smaller infinity) length source

@[simp] theorem sma_ok (source : Column) (length : Nat) :
    sma source length = .ok (Indicator.sma source length) :=
  rolling_ok mean length source

@[simp] theorem wma_ok (source : Column) (length : Nat) :
    wma source length = .ok (Indicator.wma source length) :=
  rolling_ok _ length source

@[simp] theorem vwma_ok (source volume : Column) (length : Nat) :
    vwma source volume length =
      .ok (Indicator.vwma source volume length) := by
  simp only [vwma, rolling_ok, ok_bind]
  rfl

@[simp] theorem highest_ok (source : Column) (length : Nat) :
    highest source length = .ok (Indicator.highest source length) :=
  rolling_ok _ length source

@[simp] theorem lowest_ok (source : Column) (length : Nat) :
    lowest source length = .ok (Indicator.lowest source length) :=
  rolling_ok _ length source

/-! ## Other bars -/

/-- The value `offset` bars back. -/
def shift (source : Column) (offset : Nat) : Checked Column :=
  tabulate source.length fun i =>
    if offset ≤ i then do
      let j ← minus i offset
      item source j
    else .ok undefined

/-- The change against the value `offset` bars back. -/
def change (source : Column) (offset : Nat) : Checked Column := do
  let before ← shift source offset
  .ok (List.zipWith (· - ·) source before)

/-- The change in percent. -/
def roc (source : Column) (length : Nat) : Checked Column := do
  let before ← shift source length
  .ok (zipColumns (fun x p => 100.0 * (x - p) / p) source before)

/-- The relative strength index. -/
def rsi (source : Column) (length : Nat) : Checked Column := do
  let moves ← change source 1
  let gains ← rolling mean length
    (moves.map fun d => if 0.0 < d then d else 0.0)
  let losses ← rolling mean length
    (moves.map fun d => if d < 0.0 then -d else 0.0)
  .ok (zipColumns strength gains losses)

@[simp] theorem shift_ok (source : Column) (offset : Nat) :
    shift source offset = .ok (Series.shift source offset) := by
  refine tabulate_ok (length_overHistory _ _) ?_
  intro i hi
  have hlast : i < source.length := by
    rw [Series.shift, length_overHistory] at hi
    exact hi
  have hseen : (source.take (i + 1)).length = i + 1 := by
    rw [List.length_take]
    omega
  have hvalue : (Series.shift source offset)[i] =
      (source.take (i + 1)).reverse[offset]?.getD undefined :=
    getElem_overHistory _ source hi
  rw [hvalue]
  by_cases hoffset : offset ≤ i
  · have hback : (source.take (i + 1)).reverse[offset]? =
        some source[i - offset] := by
      rw [List.getElem?_reverse (by omega), hseen,
        List.getElem?_take_of_lt (by omega),
        List.getElem?_eq_getElem (by omega)]
      congr 2
    rw [if_pos hoffset, minus_ok hoffset, ok_bind, item_ok (by omega), hback]
    rfl
  · have hnone : (source.take (i + 1)).reverse[offset]? = none := by
      rw [List.getElem?_eq_none_iff, List.length_reverse]
      omega
    rw [if_neg hoffset, hnone]
    rfl

@[simp] theorem change_ok (source : Column) (offset : Nat) :
    change source offset = .ok (Series.change source offset) := by
  simp only [change, shift_ok, ok_bind]
  rfl

@[simp] theorem roc_ok (source : Column) (length : Nat) :
    roc source length = .ok (Indicator.roc source length) := by
  simp only [roc, shift_ok, ok_bind]
  rfl

@[simp] theorem rsi_ok (source : Column) (length : Nat) :
    rsi source length = .ok (Indicator.rsi source length) := by
  simp only [rsi, change_ok, rolling_ok, ok_bind]
  rfl

/-! ## Several columns at one bar -/

/-- A function of three columns at each of some bars. -/
def atBars {β : Type} (bars : Nat) (f : Candle → β) (a b c : Column) :
    Checked (List β) :=
  tabulate bars fun i => do
    let x ← item a i
    let y ← item b i
    let z ← item c i
    .ok (f ⟨x, y, z⟩)

section

variable {high low close : Column} {bars : Nat}

theorem length_candles (hh : high.length = bars) (hl : low.length = bars)
    (hc : close.length = bars) : (candles high low close).length = bars := by
  simp [candles, hh, hl, hc]

theorem getElem_candles {i : Nat} (hi : i < (candles high low close).length)
    (hh : i < high.length) (hl : i < low.length) (hc : i < close.length) :
    (candles high low close)[i] = ⟨high[i], low[i], close[i]⟩ := by
  simp [candles]

theorem atBars_ok {β : Type} (f : Candle → β) (hh : high.length = bars)
    (hl : low.length = bars) (hc : close.length = bars) :
    atBars bars f high low close =
      .ok ((candles high low close).map f) := by
  have hcandles := length_candles hh hl hc
  refine tabulate_ok (by rw [List.length_map, hcandles]) ?_
  intro i hi
  rw [List.length_map, hcandles] at hi
  rw [item_ok (by omega), ok_bind, item_ok (by omega), ok_bind,
    item_ok (by omega), ok_bind, List.getElem_map, getElem_candles]

end

/-- The true range. -/
def trueRange (high low close : Column) : Checked Column :=
  tabulate close.length fun i => do
    let h ← item high i
    let l ← item low i
    if i = 0 then .ok (h - l)
    else do
      let j ← minus i 1
      let previous ← item close j
      .ok (larger (larger (h - l) (h - previous).abs) (l - previous).abs)

/-- The average true range. -/
def atr (high low close : Column) (length : Nat) : Checked Column :=
  if length = 0 then .ok (undefinedLike close)
  else do
    let ranges ← trueRange high low close
    .ok (smooth ranges (1.0 / Float.ofNat length))

/-- The distance of the close from the top of the range. -/
def williamsR (high low close : Column) (length : Nat) : Checked Column := do
  let top ← highest high length
  let bottom ← lowest low length
  atBars close.length
    (fun r => -100.0 * (r.high - r.close) / (r.high - r.low)) top bottom close

/-- The lines of a stochastic oscillator. -/
def stochastic (high low close : Column) (length smoothK smoothD : Nat) :
    Checked Stochastic := do
  let top ← highest high length
  let bottom ← lowest low length
  let raw ← atBars close.length
    (fun r => 100.0 * (r.close - r.low) / (r.high - r.low)) top bottom close
  let k ← sma raw smoothK
  let d ← sma k smoothD
  .ok ⟨k, d⟩

/-- The distance of a price from its mean. -/
def cci (source : Column) (length : Nat) : Checked Column := do
  let center ← sma source length
  let scale ← rolling meanDistance length source
  tabulate source.length fun i => do
    let x ← item source i
    let c ← item center i
    let distance ← item scale i
    .ok ((x - c) / (0.015 * distance))

/-- The average directional index. -/
def adx (high low close : Column) (length : Nat) : Checked Column := do
  let up ← change high 1
  let falls ← change low 1
  let down := falls.map fun d => -d
  let ranges ← atr high low close length
  let plus := rma (zipColumns dominant up down) length
  let minus := rma (zipColumns dominant down up) length
  let directional ← atBars close.length
    (fun c => imbalance c.high c.low c.close) plus minus ranges
  .ok (rma directional length)

/-- The bars at which one column moves to the other side of another. -/
def crossing (crossed : Float × Float → Float × Float → Bool)
    (a b : Column) : Checked Column :=
  tabulate (min a.length b.length) fun i =>
    if i = 0 then .ok 0.0
    else do
      let x ← item a i
      let y ← item b i
      let j ← minus i 1
      let u ← item a j
      let v ← item b j
      .ok (flag (crossed (x, y) (u, v)))

/-- The pivot levels. -/
def pivotLevels (high low close : Column) : Checked (List Levels) :=
  tabulate close.length fun i =>
    if i = 0 then .ok .unset
    else do
      let j ← minus i 1
      let h ← item high j
      let l ← item low j
      let c ← item close j
      .ok (levelsAfter ⟨h, l, c⟩)

section

variable {high low close : Column}

theorem trueRange_ok (hh : high.length = close.length)
    (hl : low.length = close.length) :
    trueRange high low close = .ok (Indicator.trueRange high low close) := by
  have hcandles := length_candles hh hl rfl
  refine tabulate_ok ?_ ?_
  · rw [Indicator.trueRange, length_overHistory, hcandles]
  · intro i hi
    rw [Indicator.trueRange, length_overHistory, hcandles] at hi
    simp only [Indicator.trueRange]
    rw [getElem_overHistory, item_ok (by omega), ok_bind,
      item_ok (by omega), ok_bind]
    cases i with
    | zero =>
        rw [history_first (by omega),
          getElem_candles _ (by omega) (by omega) (by omega), if_pos rfl]
    | succ i =>
        rw [history_later (by omega),
          getElem_candles _ (by omega) (by omega) (by omega),
          getElem_candles _ (by omega) (by omega) (by omega),
          if_neg (Nat.succ_ne_zero i), minus_ok (by omega), ok_bind,
          item_ok (by omega), ok_bind]
        rfl

theorem atr_ok (hh : high.length = close.length)
    (hl : low.length = close.length) (length : Nat) :
    atr high low close length = .ok (Indicator.atr high low close length) := by
  unfold atr Indicator.atr
  split
  · rfl
  · rw [trueRange_ok hh hl]
    rfl

theorem length_atr (hh : high.length = close.length)
    (hl : low.length = close.length) (length : Nat) :
    (Indicator.atr high low close length).length = close.length := by
  unfold Indicator.atr
  split
  · exact List.length_map _
  · rw [smooth, length_scan, Indicator.trueRange, length_overHistory]
    exact length_candles hh hl rfl

@[simp] theorem length_highest (source : Column) (length : Nat) :
    (Indicator.highest source length).length = source.length :=
  length_overHistory _ _

@[simp] theorem length_lowest (source : Column) (length : Nat) :
    (Indicator.lowest source length).length = source.length :=
  length_overHistory _ _

theorem williamsR_ok (hh : high.length = close.length)
    (hl : low.length = close.length) (length : Nat) :
    williamsR high low close length =
      .ok (Indicator.williamsR high low close length) := by
  simp only [williamsR, highest_ok, lowest_ok, ok_bind]
  exact atBars_ok _ ((length_highest high length).trans hh)
    ((length_lowest low length).trans hl) rfl

theorem stochastic_ok (hh : high.length = close.length)
    (hl : low.length = close.length) (length smoothK smoothD : Nat) :
    stochastic high low close length smoothK smoothD =
      .ok (Indicator.stochastic high low close length smoothK smoothD) := by
  simp only [stochastic, highest_ok, lowest_ok, ok_bind]
  rw [atBars_ok _ ((length_highest high length).trans hh)
    ((length_lowest low length).trans hl) rfl]
  simp only [ok_bind, sma_ok]
  rfl

theorem cci_ok (source : Column) (length : Nat) :
    cci source length = .ok (Indicator.cci source length) := by
  simp only [cci, sma_ok, rolling_ok, ok_bind]
  have hcenter : (Indicator.sma source length).length = source.length :=
    length_overHistory _ _
  have hscale : (Series.rolling meanDistance length source).length =
      source.length := length_overHistory _ _
  refine tabulate_ok ?_ ?_
  · simp [Indicator.cci, zipColumns, hcenter, rollingMeanDistance, hscale]
  · intro i hi
    have hi' : i < source.length := by
      simp [Indicator.cci, zipColumns, hcenter, rollingMeanDistance,
        hscale] at hi
      exact hi
    rw [item_ok hi', ok_bind, item_ok (by omega), ok_bind,
      item_ok (by omega), ok_bind]
    simp [Indicator.cci, zipColumns, rollingMeanDistance]

theorem adx_ok (hh : high.length = close.length)
    (hl : low.length = close.length) (length : Nat) :
    adx high low close length = .ok (Indicator.adx high low close length) := by
  have hshift : ∀ source : Column,
      (Series.change source 1).length = source.length := by
    intro source
    simp [Series.change, Series.shift]
  have hrma : ∀ source : Column,
      (rma source length).length = source.length := by
    intro source
    unfold rma
    split <;> simp [undefinedLike, smooth]
  simp only [adx, change_ok, ok_bind]
  rw [atr_ok hh hl, ok_bind, atBars_ok]
  · rfl
  · rw [hrma]
    simp [zipColumns, hshift, hh, hl]
  · rw [hrma]
    simp [zipColumns, hshift, hh, hl]
  · exact length_atr hh hl length

end

/-! ## Crossings and levels -/

theorem crossing_ok
    (crossed : Float × Float → Float × Float → Bool) (a b : Column) :
    crossing crossed a b = .ok (Indicator.crossing crossed a b) := by
  have hlength : (Indicator.crossing crossed a b).length =
      min a.length b.length := by
    rw [Indicator.crossing, length_overHistory, List.length_zip]
  refine tabulate_ok hlength ?_
  intro i hi
  rw [hlength] at hi
  simp only [Indicator.crossing]
  rw [getElem_overHistory]
  have hpairs : (List.zip a b).length = min a.length b.length :=
    List.length_zip
  cases i with
  | zero =>
      rw [history_first (by omega)]
      rfl
  | succ i =>
      rw [history_later (by omega), if_neg (Nat.succ_ne_zero i),
        item_ok (by omega), ok_bind, item_ok (by omega), ok_bind,
        minus_ok (by omega), ok_bind, item_ok (by omega), ok_bind,
        item_ok (by omega), ok_bind]
      simp

theorem pivotLevels_ok {high low close : Column}
    (hh : high.length = close.length) (hl : low.length = close.length) :
    pivotLevels high low close =
      .ok (Indicator.pivotLevels high low close) := by
  have hcandles := length_candles hh hl rfl
  have hlength : (Indicator.pivotLevels high low close).length =
      close.length := by
    rw [Indicator.pivotLevels, List.length_take, List.length_cons,
      List.length_map, hcandles]
    omega
  refine tabulate_ok hlength ?_
  intro i hi
  rw [hlength] at hi
  simp only [Indicator.pivotLevels, List.getElem_take]
  cases i with
  | zero => rfl
  | succ i =>
      rw [if_neg (Nat.succ_ne_zero i), minus_ok (by omega), ok_bind,
        item_ok (by omega), ok_bind, item_ok (by omega), ok_bind,
        item_ok (by omega), ok_bind, List.getElem_cons_succ,
        List.getElem_map,
        getElem_candles _ (by omega) (by omega) (by omega)]
      rfl

/-! ## Running totals -/

/-- The on-balance volume. -/
def obv (close volume : Column) : Checked Column :=
  trace (fun total i =>
    if i = 0 then .ok (total, undefined)
    else do
      let now ← item close i
      let j ← minus i 1
      let before ← item close j
      let v ← item volume i
      .ok (totalStep total (signOf (now - before) * v))) 0.0
    (List.range close.length)

/-- The volume-weighted average price. -/
def vwap (high low close volume : Column) : Checked Column :=
  trace (fun totals i => do
    let h ← item high i
    let l ← item low i
    let c ← item close i
    let v ← item volume i
    .ok (quotientStep totals ((h + l + c) / 3.0 * v, v))) (0.0, 0.0)
    (List.range close.length)

/-- The money that flows on the bars where `moves` says so. -/
def moneyFlow (moves : Float → Float → Bool) (source volume : Column) :
    Checked Column :=
  tabulate source.length fun i =>
    if i = 0 then .ok 0.0
    else do
      let now ← item source i
      let v ← item volume i
      let j ← minus i 1
      let before ← item source j
      .ok (if moves before now then now * v else 0.0)

/-- The money flow index. -/
def mfi (source volume : Column) (length : Nat) : Checked Column := do
  let gains ← moneyFlow (fun before now => before < now) source volume
  let losses ← moneyFlow (fun before now => now < before) source volume
  let up ← rolling sum length gains
  let down ← rolling sum length losses
  tabulate source.length fun i => do
    let u ← item up i
    let d ← item down i
    .ok (strength u d)

theorem range_succ_eq (n : Nat) :
    List.range (n + 1) = 0 :: List.range' 1 n := by
  rw [List.range_eq_range', List.range'_succ]

theorem obv_ok {close volume : Column} (hv : volume.length = close.length) :
    obv close volume = .ok (Indicator.obv close volume) := by
  cases close with
  | nil => rfl
  | cons first rest =>
      have hlength : (List.zipWith
          (fun (change : Float × Float) v =>
            signOf (change.2 - change.1) * v)
          (List.zip (first :: rest) rest) volume.tail).length =
            rest.length := by
        rw [List.length_cons] at hv
        simp [hv]
      have hsteps := trace_ok
        (fun total i =>
          if i = 0 then .ok (total, undefined)
          else do
            let now ← item (first :: rest) i
            let j ← minus i 1
            let before ← item (first :: rest) j
            let v ← item volume i
            .ok (totalStep total (signOf (now - before) * v)))
        totalStep
        (List.zipWith
          (fun (change : Float × Float) v =>
            signOf (change.2 - change.1) * v)
          (List.zip (first :: rest) rest) volume.tail) 1
        (by
          intro i hi total
          rw [hlength] at hi
          rw [List.length_cons] at hv
          rw [if_neg (by omega), item_ok (by simp; omega), ok_bind,
            minus_ok (by omega), ok_bind, item_ok (by simp; omega), ok_bind,
            item_ok (by omega), ok_bind]
          simp [Nat.add_comm 1 i]) 0.0
      rw [hlength] at hsteps
      rw [obv, List.length_cons, range_succ_eq, trace, if_pos rfl, ok_bind]
      dsimp only
      rw [hsteps]
      rfl

theorem vwap_ok {high low close volume : Column}
    (hh : high.length = close.length) (hl : low.length = close.length)
    (hv : volume.length = close.length) :
    vwap high low close volume =
      .ok (Indicator.vwap high low close volume) := by
  have hcandles := length_candles hh hl rfl
  have hlength : (List.zipWith
      (fun (bar : Candle) v => ((bar.high + bar.low + bar.close) / 3.0 * v, v))
      (candles high low close) volume).length = close.length := by
    simp [hcandles, hv]
  unfold vwap Indicator.vwap
  rw [List.range_eq_range', ← hlength]
  refine trace_ok _ _ _ _ ?_ _
  intro i hi totals
  rw [hlength] at hi
  rw [Nat.zero_add, item_ok (by omega), ok_bind, item_ok (by omega), ok_bind,
    item_ok (by omega), ok_bind, item_ok (by omega), ok_bind,
    List.getElem_zipWith, getElem_candles _ (by omega) (by omega) (by omega)]

theorem moneyFlow_ok (moves : Float → Float → Bool) {source volume : Column}
    (hv : volume.length = source.length) :
    moneyFlow moves source volume =
      .ok (Indicator.moneyFlow moves source volume) := by
  have hlength : (Indicator.moneyFlow moves source volume).length =
      source.length := length_moneyFlow moves hv.symm
  refine tabulate_ok hlength ?_
  intro i hi
  rw [hlength] at hi
  cases source with
  | nil => exact absurd hi (Nat.not_lt_zero i)
  | cons first rest =>
      cases i with
      | zero => rfl
      | succ i =>
          rw [if_neg (Nat.succ_ne_zero i), item_ok hi, ok_bind,
            item_ok (by omega), ok_bind, minus_ok (by omega), ok_bind,
            item_ok (by omega), ok_bind]
          simp [Indicator.moneyFlow]

theorem mfi_ok {source volume : Column}
    (hv : volume.length = source.length) (length : Nat) :
    mfi source volume length =
      .ok (Indicator.mfi source volume length) := by
  simp only [mfi]
  rw [moneyFlow_ok _ hv, ok_bind, moneyFlow_ok _ hv, ok_bind]
  simp only [rolling_ok, ok_bind]
  have hsum : ∀ moves : Float → Float → Bool,
      (Series.rolling sum length
        (Indicator.moneyFlow moves source volume)).length = source.length :=
    fun moves =>
      (length_overHistory _ _).trans (length_moneyFlow moves hv.symm)
  have hlength : (Indicator.mfi source volume length).length =
      source.length := by
    simp only [Indicator.mfi, zipColumns, rollingSum, List.length_zipWith]
    rw [hsum, hsum, Nat.min_self]
  refine tabulate_ok hlength ?_
  intro i hi
  rw [hlength] at hi
  rw [item_ok (Nat.lt_of_lt_of_eq hi (hsum _).symm), ok_bind,
    item_ok (Nat.lt_of_lt_of_eq hi (hsum _).symm), ok_bind]
  simp only [Indicator.mfi, zipColumns, List.getElem_zipWith]
  rfl

/-! ## Lines of several columns -/

/-- An average with bands around it. -/
def bollinger (source : Column) (length : Nat) (width : Float) :
    Checked Bands := do
  let basis ← sma source length
  let spread ← rolling deviation length source
  let distance := spread.map (width * ·)
  .ok ⟨basis, zipColumns (· + ·) basis distance,
    zipColumns (· - ·) basis distance⟩

/-- The supertrend. -/
def supertrend (high low close : Column) (length : Nat) (width : Float) :
    Checked Supertrend := do
  let ranges ← atr high low close length
  let steps ← trace (fun state i => do
    let h ← item high i
    let l ← item low i
    let range ← item ranges i
    let c ← item close i
    let middle := (h + l) / 2.0
    .ok (trendStep state ⟨middle + width * range, middle - width * range, c⟩))
    ⟨1.0, none⟩ (List.range close.length)
  .ok ⟨steps.map Prod.fst, steps.map Prod.snd⟩

/-- The middle of the range of a window. -/
def midpoint (high low : Column) (length : Nat) : Checked Column := do
  let top ← highest high length
  let bottom ← lowest low length
  .ok (zipColumns (fun h l => (h + l) / 2.0) top bottom)

/-- Two middles of the range and two spans. -/
def ichimoku (high low : Column) (tenkan kijun senkou : Nat) :
    Checked Ichimoku := do
  let fast ← midpoint high low tenkan
  let slow ← midpoint high low kijun
  let spanA ← shift (zipColumns (fun t k => (t + k) / 2.0) fast slow) kijun
  let wide ← midpoint high low senkou
  let spanB ← shift wide kijun
  .ok ⟨fast, slow, spanA, spanB⟩

@[simp] theorem bollinger_ok (source : Column) (length : Nat)
    (width : Float) :
    bollinger source length width =
      .ok (Indicator.bollinger source length width) := by
  simp only [bollinger, sma_ok, rolling_ok, ok_bind]
  rfl

@[simp] theorem midpoint_ok (high low : Column) (length : Nat) :
    midpoint high low length = .ok (Indicator.midpoint high low length) := by
  simp only [midpoint, highest_ok, lowest_ok, ok_bind]
  rfl

@[simp] theorem ichimoku_ok (high low : Column) (tenkan kijun senkou : Nat) :
    ichimoku high low tenkan kijun senkou =
      .ok (Indicator.ichimoku high low tenkan kijun senkou) := by
  simp only [ichimoku, midpoint_ok, shift_ok, ok_bind]
  rfl

theorem supertrend_ok {high low close : Column}
    (hh : high.length = close.length) (hl : low.length = close.length)
    (length : Nat) (width : Float) :
    supertrend high low close length width =
      .ok (Indicator.supertrend high low close length width) := by
  have hranges : (Indicator.atr high low close length).length =
      close.length := length_atr hh hl length
  rw [supertrend, atr_ok hh hl, ok_bind]
  unfold Indicator.supertrend
  generalize Indicator.atr high low close length = ranges at hranges
  have hmiddle : (zipColumns (fun h l => (h + l) / 2.0) high low).length =
      close.length := by
    simp [zipColumns, hh, hl]
  have hdistance : (ranges.map (width * ·)).length = close.length := by
    rw [List.length_map, hranges]
  have hupper : (zipColumns (· + ·)
      (zipColumns (fun h l => (h + l) / 2.0) high low)
      (ranges.map (width * ·))).length = close.length := by
    rw [zipColumns, List.length_zipWith, hmiddle, hdistance, Nat.min_self]
  have hlower : (zipColumns (· - ·)
      (zipColumns (fun h l => (h + l) / 2.0) high low)
      (ranges.map (width * ·))).length = close.length := by
    rw [zipColumns, List.length_zipWith, hmiddle, hdistance, Nat.min_self]
  have hbanded := length_candles hupper hlower rfl
  have hsteps := trace_ok
    (fun state i => do
      let h ← item high i
      let l ← item low i
      let range ← item ranges i
      let c ← item close i
      let middle := (h + l) / 2.0
      .ok (trendStep state
        ⟨middle + width * range, middle - width * range, c⟩))
    trendStep (candles _ _ close) 0
    (by
      intro i hi state
      rw [hbanded] at hi
      rw [Nat.zero_add, item_ok (by omega), ok_bind, item_ok (by omega),
        ok_bind, item_ok (by omega), ok_bind, item_ok (by omega), ok_bind,
        getElem_candles _ (by omega) (by omega) (by omega)]
      simp [zipColumns]) ⟨1.0, none⟩
  rw [hbanded] at hsteps
  rw [List.range_eq_range', hsteps]
  rfl

end Barscript.Bounds
