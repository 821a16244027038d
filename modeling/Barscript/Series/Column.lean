import Barscript.Series.Number

/-!
# Columns

A column is a list with one number per bar, the oldest bar first.  Everything an indicator does is
built from two combinators that read a column from the oldest bar on and answer bar by bar:
`overHistory` may look at all bars so far, newest first, and `scan` carries a state.  Neither can
look ahead, which is the content of `take_overHistory` and `take_scan`: computing on the first `k`
bars gives the first `k` answers.
-/

namespace Barscript.Series

/-- One number per bar, the oldest first. -/
abbrev Column := List Float

/-! ## Reading from the oldest bar on -/

/-- The answers of `f` to the items read so far, the newest first, when the items in `past` were
read before. -/
def historyFrom {α β : Type} (f : List α → β) (past : List α) : List α → List β
  | [] => []
  | x :: rest => f (x :: past) :: historyFrom f (x :: past) rest

/-- The answers of `f` to every beginning of a list, given newest first. -/
def overHistory {α β : Type} (f : List α → β) (xs : List α) : List β :=
  historyFrom f [] xs

/-- The answers of a machine that carries a state. -/
def scan {σ α β : Type} (step : σ → α → σ × β) (state : σ) : List α → List β
  | [] => []
  | x :: rest => (step state x).2 :: scan step (step state x).1 rest

@[simp] theorem length_historyFrom {α β : Type} (f : List α → β) (past xs : List α) :
    (historyFrom f past xs).length = xs.length := by
  induction xs generalizing past with
  | nil => rfl
  | cons x rest ih => simp [historyFrom, ih]

@[simp] theorem length_overHistory {α β : Type} (f : List α → β) (xs : List α) :
    (overHistory f xs).length = xs.length :=
  length_historyFrom f [] xs

@[simp] theorem length_scan {σ α β : Type} (step : σ → α → σ × β) (state : σ) (xs : List α) :
    (scan step state xs).length = xs.length := by
  induction xs generalizing state with
  | nil => rfl
  | cons x rest ih => simp [scan, ih]

theorem take_historyFrom {α β : Type} (f : List α → β) (past xs : List α) (k : Nat) :
    (historyFrom f past xs).take k = historyFrom f past (xs.take k) := by
  induction xs generalizing past k with
  | nil => simp [historyFrom]
  | cons x rest ih => cases k <;> simp [historyFrom, ih]

/-- **No look-ahead, with history.** -/
theorem take_overHistory {α β : Type} (f : List α → β) (xs : List α) (k : Nat) :
    (overHistory f xs).take k = overHistory f (xs.take k) :=
  take_historyFrom f [] xs k

/-- **No look-ahead, with a state.** -/
theorem take_scan {σ α β : Type} (step : σ → α → σ × β) (state : σ) (xs : List α) (k : Nat) :
    (scan step state xs).take k = scan step state (xs.take k) := by
  induction xs generalizing state k with
  | nil => simp [scan]
  | cons x rest ih => cases k <;> simp [scan, ih]

/-! More items only add answers. -/

theorem historyFrom_append {α β : Type} (f : List α → β) (past xs ys : List α) :
    historyFrom f past (xs ++ ys) =
      historyFrom f past xs ++ historyFrom f (xs.reverse ++ past) ys := by
  induction xs generalizing past with
  | nil => rfl
  | cons x rest ih => simp [historyFrom, ih]

theorem overHistory_concat {α β : Type} (f : List α → β) (xs : List α) (x : α) :
    overHistory f (xs ++ [x]) = overHistory f xs ++ [f (x :: xs.reverse)] := by
  simp [overHistory, historyFrom_append, historyFrom]

/-- The state of a machine behind some items. -/
def stateAfter {σ α β : Type} (step : σ → α → σ × β) (state : σ) (xs : List α) : σ :=
  xs.foldl (fun s x => (step s x).1) state

theorem scan_append {σ α β : Type} (step : σ → α → σ × β) (state : σ) (xs ys : List α) :
    scan step state (xs ++ ys) =
      scan step state xs ++ scan step (stateAfter step state xs) ys := by
  induction xs generalizing state with
  | nil => rfl
  | cons x rest ih => simp [scan, stateAfter, ih]

theorem stateAfter_concat {σ α β : Type} (step : σ → α → σ × β) (state : σ) (xs : List α) (x : α) :
    stateAfter step state (xs ++ [x]) = (step (stateAfter step state xs) x).1 := by
  simp [stateAfter]

theorem getElem?_scan {σ α β : Type} (step : σ → α → σ × β) (state : σ) (xs : List α) (t : Nat) :
    (scan step state xs)[t]? = xs[t]?.map fun x => (step (stateAfter step state (xs.take t)) x).2 := by
  induction xs generalizing state t with
  | nil => rfl
  | cons x rest ih => cases t <;> simp [scan, stateAfter, ih]

/-! ## Windows -/

/-- The newest `length` numbers of a history in the order of the bars, if there are that many and
all are defined. -/
def window? (length : Nat) (past : List Float) : Option Column :=
  let newest := past.take length
  if length ≠ 0 ∧ newest.length = length ∧ newest.all (fun x => !x.isNaN) then
    some newest.reverse
  else none

/-- The value of `f` on the window that ends at each bar, undefined where there is none. -/
def rolling (f : Column → Float) (length : Nat) (source : Column) : Column :=
  overHistory (fun past => ((window? length past).map f).getD undefined) source

/-- The sum over a window. -/
def rollingSum (source : Column) (length : Nat) : Column :=
  rolling sum length source

/-- The mean over a window. -/
def rollingMean (source : Column) (length : Nat) : Column :=
  rolling mean length source

/-- The greatest number of a window. -/
def rollingMax (source : Column) (length : Nat) : Column :=
  rolling (fun w => w.foldl larger (-infinity)) length source

/-- The least number of a window. -/
def rollingMin (source : Column) (length : Nat) : Column :=
  rolling (fun w => w.foldl smaller infinity) length source

/-- The sample standard deviation of some numbers; a single number has none. -/
def deviation (xs : Column) : Float :=
  if xs.length < 2 then undefined
  else
    let center := mean xs
    let squares := xs.map fun x => (x - center) * (x - center)
    (sum squares / (Float.ofNat xs.length - 1.0)).sqrt

/-- The mean distance of some numbers from their mean. -/
def meanDistance (xs : Column) : Float :=
  let center := mean xs
  mean (xs.map fun x => (x - center).abs)

/-- The sample standard deviation over a window. -/
def rollingDeviation (source : Column) (length : Nat) : Column :=
  rolling deviation length source

/-- The mean distance from the mean over a window. -/
def rollingMeanDistance (source : Column) (length : Nat) : Column :=
  rolling meanDistance length source

/-! ## Other bars, other columns -/

/-- The value `offset` bars back, undefined where there is no such bar. -/
def shift (source : Column) (offset : Nat) : Column :=
  overHistory (fun past => past[offset]?.getD undefined) source

/-- The change against the value `offset` bars back. -/
def change (source : Column) (offset : Nat) : Column :=
  List.zipWith (· - ·) source (shift source offset)

/-- Two columns combined bar by bar. -/
def zipColumns (f : Float → Float → Float) (xs ys : Column) : Column :=
  List.zipWith f xs ys

/-! ## Recursive smoothing -/

/-- One step of smoothing: the first defined input is taken as it is, a later one is mixed with
the last defined output, and an undefined one repeats that output. -/
def smoothStep (alpha : Float) (last : Option Float) (x : Float) : Option Float × Float :=
  let y := match last with
    | none => x
    | some p => if x.isNaN then p else alpha * x + (1.0 - alpha) * p
  (if y.isNaN then last else some y, y)

/-- Recursive smoothing with the weight `alpha` for the newest value. -/
def smooth (source : Column) (alpha : Float) : Column :=
  scan (smoothStep alpha) none source

end Barscript.Series
