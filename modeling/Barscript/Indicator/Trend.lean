import Barscript.Indicator.Oscillator

/-!
# Trends

Indicators of the direction and strength of a trend, most of them with several lines.
-/

namespace Barscript.Indicator

open Barscript.Series

/-! ## Convergence of two averages -/

/-- The lines of the moving average convergence. -/
structure Macd where
  line : Column
  signal : Column
  histogram : Column

/-- The difference of a fast and a slow average, its average, and the difference of the two. -/
def macd (source : Column) (fast slow signal : Nat) : Macd :=
  let line := zipColumns (· - ·) (ema source fast) (ema source slow)
  let average := ema line signal
  { line := line, signal := average, histogram := zipColumns (· - ·) line average }

/-! ## Bands -/

/-- The lines of a band around an average. -/
structure Bands where
  basis : Column
  upper : Column
  lower : Column

/-- An average with bands some standard deviations above and below. -/
def bollinger (source : Column) (length : Nat) (width : Float) : Bands :=
  let basis := sma source length
  let distance := (rollingDeviation source length).map (width * ·)
  { basis := basis
    upper := zipColumns (· + ·) basis distance
    lower := zipColumns (· - ·) basis distance }

/-! ## Directional movement -/

/-- The part of the upward move `u` that is dominant: it counts only when it is positive and
greater than the opposite move `v`. -/
def dominant (u v : Float) : Float :=
  if v < u && 0.0 < u then u else 0.0

/-- The imbalance of two directional movements relative to the range, in percent. -/
def imbalance (up down range : Float) : Float :=
  let plus := 100.0 * up / range
  let minus := 100.0 * down / range
  100.0 * (plus - minus).abs / (plus + minus)

/-- The average directional index. -/
def adx (high low close : Column) (length : Nat) : Column :=
  let up := Series.change high 1
  let down := (Series.change low 1).map fun d => -d
  let plus := rma (zipColumns dominant up down) length
  let minus := rma (zipColumns dominant down up) length
  rma ((candles plus minus (atr high low close length)).map fun c =>
    imbalance c.high c.low c.close) length

/-! ## The supertrend -/

/-- The lines of the supertrend. -/
structure Supertrend where
  line : Column
  /-- One in an uptrend, minus one in a downtrend, undefined on the first bar. -/
  direction : Column

/-- What the supertrend carries from bar to bar: the direction and the bands of the last bar, if
there was one. -/
structure TrendState where
  direction : Float
  bands : Option (Float × Float)

/-- The trend at a bar with bands `upper` and `lower`: it turns up when the close breaks the upper
band of the bar before, down when it breaks the lower one, and follows the band it came from. -/
def trendStep (state : TrendState) (bar : Candle) : TrendState × (Float × Float) :=
  match state.bands with
  | none => (⟨state.direction, some (bar.high, bar.low)⟩, (undefined, undefined))
  | some (upper, lower) =>
    let direction :=
      if upper < bar.close then 1.0 else if bar.close < lower then -1.0 else state.direction
    (⟨direction, some (bar.high, bar.low)⟩,
      (if 0.0 < direction then bar.low else bar.high, direction))

/-- The supertrend: bands around the middle of each bar, some average true ranges wide. -/
def supertrend (high low close : Column) (length : Nat) (width : Float) : Supertrend :=
  let middle := zipColumns (fun h l => (h + l) / 2.0) high low
  let distance := (atr high low close length).map (width * ·)
  let banded := candles (zipColumns (· + ·) middle distance) (zipColumns (· - ·) middle distance)
    close
  let steps := scan trendStep ⟨1.0, none⟩ banded
  { line := steps.map Prod.fst, direction := steps.map Prod.snd }

/-! ## The cloud -/

/-- The lines of the cloud. -/
structure Ichimoku where
  tenkan : Column
  kijun : Column
  senkouA : Column
  senkouB : Column

/-- The middle of the range of a window. -/
def midpoint (high low : Column) (length : Nat) : Column :=
  zipColumns (fun h l => (h + l) / 2.0) (rollingMax high length) (rollingMin low length)

/-- Two middles of the range, and two spans shifted forward by the longer of their windows. -/
def ichimoku (high low : Column) (tenkan kijun senkou : Nat) : Ichimoku :=
  let fast := midpoint high low tenkan
  let slow := midpoint high low kijun
  { tenkan := fast
    kijun := slow
    senkouA := shift (zipColumns (fun t k => (t + k) / 2.0) fast slow) kijun
    senkouB := shift (midpoint high low senkou) kijun }

end Barscript.Indicator
