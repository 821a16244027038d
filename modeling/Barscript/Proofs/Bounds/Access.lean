import Mathlib.Data.List.Forall2
import Barscript.Series.Column

/-!
# Accesses that are checked

A column holds one number for each bar, and a computation reaches for them by
their numbers. `Checked` computations do so step by step: they read an item,
cut a slice or take a difference of two counts, and each of these may breach
its bounds. The computations of the other modules of this folder are built from
such steps; that they come out as the ones without checks says that no access is
out of bounds.
-/

namespace Barscript.Bounds

open Barscript.Series

/-- What an access may do wrong. -/
inductive Breach where
  /-- No item has the number. -/
  | index
  /-- The ends of a slice are out of order or behind the last item. -/
  | slice
  /-- More is taken away than there is. -/
  | difference
  /-- A window has no bars. -/
  | window
deriving DecidableEq, Repr

/-- Computations that may breach their bounds. -/
abbrev Checked := Except Breach

variable {α β σ : Type}

/-- The item with a number. -/
def item (xs : List α) (i : Nat) : Checked α :=
  match xs[i]? with
  | some x => .ok x
  | none => .error .index

/-- The difference of two counts. -/
def minus (a b : Nat) : Checked Nat :=
  if b ≤ a then .ok (a - b) else .error .difference

/-- The items from a number on up to before another one. -/
def slice (xs : List α) (start stop : Nat) : Checked (List α) :=
  if start ≤ stop ∧ stop ≤ xs.length then .ok ((xs.take stop).drop start)
  else .error .slice

/-- The length of a window, which has bars. -/
def window (length : Nat) : Checked Nat :=
  if length = 0 then .error .window else .ok length

/-- Bar by bar, given by the numbers of the bars. -/
def tabulate (bars : Nat) (f : Nat → Checked β) : Checked (List β) :=
  (List.range bars).mapM f

/-- Bar by bar with a state, over bars given by their numbers. -/
def trace (step : σ → Nat → Checked (σ × β)) (state : σ) :
    List Nat → Checked (List β)
  | [] => .ok []
  | i :: rest => do
    let (next, y) ← step state i
    let ys ← trace step next rest
    .ok (y :: ys)

/-! ## Accesses within bounds -/

@[simp] theorem ok_bind {x : α} {f : α → Checked β} :
    ((.ok x : Checked α) >>= f) = f x :=
  rfl

theorem bind_of_ok {x : Checked α} {a : α} (h : x = .ok a)
    (f : α → Checked β) : (x >>= f) = f a := by
  rw [h]
  rfl

theorem item_ok {xs : List α} {i : Nat} (h : i < xs.length) :
    item xs i = .ok xs[i] := by
  rw [item, List.getElem?_eq_getElem h]

theorem minus_ok {a b : Nat} (h : b ≤ a) : minus a b = .ok (a - b) :=
  if_pos h

theorem slice_ok {xs : List α} {start stop : Nat} (h : start ≤ stop)
    (h' : stop ≤ xs.length) :
    slice xs start stop = .ok ((xs.take stop).drop start) :=
  if_pos ⟨h, h'⟩

theorem window_ok {length : Nat} (h : 1 ≤ length) :
    window length = .ok length :=
  if_neg (Nat.ne_of_gt h)

/-- A column is right when it is right at every bar. -/
theorem tabulate_ok {bars : Nat} {f : Nat → Checked β} {ys : List β}
    (hlength : ys.length = bars)
    (h : ∀ i (hi : i < ys.length), f i = .ok ys[i]) :
    tabulate bars f = .ok ys := by
  have hpairs : List.Forall₂ (fun i y => f i = .ok y) (List.range bars) ys := by
    refine List.forall₂_iff_get.mpr ⟨by rw [List.length_range, hlength], ?_⟩
    intro i hi hi'
    rw [List.get_eq_getElem, List.get_eq_getElem, List.getElem_range]
    exact h i hi'
  have hall : ∀ is, List.Forall₂ (fun i y => f i = .ok y) is ys →
      is.mapM f = .ok ys := by
    clear h hpairs hlength
    induction ys with
    | nil =>
        intro is his
        cases his
        rfl
    | cons y ys ih =>
        intro is his
        cases his with
        | cons hhead hrest =>
            rw [List.mapM_cons, hhead, ih _ hrest]
            rfl
  exact hall _ hpairs

/-- A run over bars is right when every step is right in every state. -/
theorem trace_ok (step : σ → Nat → Checked (σ × β))
    (next : σ → α → σ × β) (xs : List α) (first : Nat)
    (h : ∀ i (hi : i < xs.length) state,
      step state (first + i) = .ok (next state xs[i])) (state : σ) :
    trace step state (List.range' first xs.length) =
      .ok (scan next state xs) := by
  induction xs generalizing first state with
  | nil => rfl
  | cons x rest ih =>
      have hhead : step state first = .ok (next state x) :=
        h 0 (Nat.zero_lt_succ _) state
      have hrest := ih (first + 1) (fun i hi s => by
        have hstep := h (i + 1) (Nat.succ_lt_succ hi) s
        rw [show first + (i + 1) = first + 1 + i by omega] at hstep
        exact hstep) (next state x).1
      rw [List.length_cons, List.range'_succ, trace, hhead]
      show (do
        let ys ← trace step (next state x).1
          (List.range' (first + 1) rest.length)
        (.ok ((next state x).2 :: ys) : Checked (List β))) = _
      rw [hrest]
      rfl

/-! ## What a history holds -/

theorem getElem_historyFrom (f : List α → β) (past xs : List α) {i : Nat}
    (hi : i < (historyFrom f past xs).length) :
    (historyFrom f past xs)[i] = f ((xs.take (i + 1)).reverse ++ past) := by
  induction xs generalizing past i with
  | nil => exact absurd hi (Nat.not_lt_zero i)
  | cons x rest ih =>
      cases i with
      | zero => rfl
      | succ i =>
          have hi' : i < (historyFrom f (x :: past) rest).length :=
            Nat.lt_of_succ_lt_succ hi
          show (historyFrom f (x :: past) rest)[i] = _
          rw [ih (x :: past) hi', List.take_succ_cons, List.reverse_cons,
            List.append_assoc]
          rfl

/-- The answer at a bar is given to the items up to the bar, newest first. -/
theorem getElem_overHistory (f : List α → β) (xs : List α) {i : Nat}
    (hi : i < (overHistory f xs).length) :
    (overHistory f xs)[i] = f (xs.take (i + 1)).reverse := by
  rw [← List.append_nil (xs.take (i + 1)).reverse]
  exact getElem_historyFrom f [] xs hi

theorem history_first {xs : List α} (h : 0 < xs.length) :
    (xs.take 1).reverse = [xs[0]] := by
  cases xs with
  | nil => exact absurd h (Nat.not_lt_zero 0)
  | cons x rest => rfl

theorem history_later {xs : List α} {i : Nat} (h : i + 1 < xs.length) :
    (xs.take (i + 2)).reverse =
      xs[i + 1] :: xs[i] :: (xs.take i).reverse := by
  rw [List.take_succ_eq_append_getElem h,
    List.take_succ_eq_append_getElem (Nat.lt_of_succ_lt h)]
  simp

end Barscript.Bounds
