import Barscript.Indicator.Trend
import Barscript.Indicator.Volume
import Barscript.Indicator.Crossing
import Barscript.Indicator.Level

/-!
# Columns over a prefix of the bars

`Begins n m xs ys` relates one computation at two lengths: `ys` has one item
for each of `m` bars and `xs` is what it shows of the oldest `n`. Every
combinator that builds a column respects the relation, hence every indicator
does: computed over a prefix of the bars it answers with the prefix of its
answer. This is causality, stated so that it composes.
-/

namespace Barscript.Series

variable {α β γ σ : Type} {n m : Nat}

/-- `ys` has `m` items and `xs` is the oldest `n` of them. -/
structure Begins (n m : Nat) (xs ys : List α) : Prop where
  le : n ≤ m
  length_eq : ys.length = m
  eq_take : xs = ys.take n

/-! ## Combinators -/

theorem Begins.length_prefix {xs ys : List α} (h : Begins n m xs ys) :
    xs.length = n := by
  rw [h.eq_take, List.length_take, h.length_eq]
  exact Nat.min_eq_left h.le

theorem Begins.eq {xs ys : List α} (h : Begins n n xs ys) : xs = ys := by
  rw [h.eq_take, ← h.length_eq, List.take_length]

theorem Begins.take {xs ys : List α} (h : Begins n m xs ys) {k l : Nat}
    (hk : k ≤ n) (hl : l ≤ m) (hkl : k ≤ l) :
    Begins k l (xs.take k) (ys.take l) := by
  refine ⟨hkl, ?_, ?_⟩
  · rw [List.length_take, h.length_eq]
    exact Nat.min_eq_left hl
  · rw [h.eq_take, List.take_take, List.take_take, Nat.min_eq_left hk,
      Nat.min_eq_left hkl]

theorem Begins.map (f : α → β) {xs ys : List α} (h : Begins n m xs ys) :
    Begins n m (xs.map f) (ys.map f) :=
  ⟨h.le, by rw [List.length_map, h.length_eq],
    by rw [h.eq_take, List.map_take]⟩

theorem Begins.zipWith (f : α → β → γ) {xs ys : List α} {us vs : List β}
    (h : Begins n m xs ys) (h' : Begins n m us vs) :
    Begins n m (List.zipWith f xs us) (List.zipWith f ys vs) := by
  refine ⟨h.le, ?_, ?_⟩
  · rw [List.length_zipWith, h.length_eq, h'.length_eq, Nat.min_self]
  · rw [h.eq_take, h'.eq_take, List.take_zipWith]

theorem Begins.zip {xs ys : List α} {us vs : List β}
    (h : Begins n m xs ys) (h' : Begins n m us vs) :
    Begins n m (List.zip xs us) (List.zip ys vs) :=
  h.zipWith Prod.mk h'

theorem Begins.overHistory (f : List α → β) {xs ys : List α}
    (h : Begins n m xs ys) :
    Begins n m (overHistory f xs) (overHistory f ys) :=
  ⟨h.le, by rw [length_overHistory, h.length_eq],
    by rw [h.eq_take, take_overHistory]⟩

theorem Begins.scan (step : σ → α → σ × β) (state : σ) {xs ys : List α}
    (h : Begins n m xs ys) :
    Begins n m (scan step state xs) (scan step state ys) :=
  ⟨h.le, by rw [length_scan, h.length_eq], by rw [h.eq_take, take_scan]⟩

theorem Begins.replicate (h : n ≤ m) (x : α) :
    Begins n m (List.replicate n x) (List.replicate m x) :=
  ⟨h, List.length_replicate, by rw [List.take_replicate, Nat.min_eq_left h]⟩

theorem Begins.range (h : n ≤ m) :
    Begins n m (List.range n) (List.range m) :=
  ⟨h, List.length_range, by rw [List.take_range, Nat.min_eq_left h]⟩

theorem Begins.cons (x : α) {xs ys : List α} (h : Begins n m xs ys) :
    Begins (n + 1) (m + 1) (x :: xs) (x :: ys) :=
  ⟨Nat.succ_le_succ h.le, by rw [List.length_cons, h.length_eq],
    by rw [h.eq_take, List.take_succ_cons]⟩

theorem Begins.nil {ys : List α} (h : ys.length = m) : Begins 0 m [] ys :=
  ⟨Nat.zero_le m, h, List.take_zero.symm⟩

/-- A column that starts one bar later. -/
theorem Begins.tail {xs ys : List α} (h : Begins (n + 1) (m + 1) xs ys) :
    Begins n m xs.tail ys.tail := by
  refine ⟨Nat.le_of_succ_le_succ h.le, ?_, ?_⟩
  · rw [List.length_tail, h.length_eq, Nat.add_sub_cancel]
  · rw [h.eq_take]
    cases ys <;> simp

/-- Either no bar is shown or both columns start with the same item. -/
theorem Begins.head_cases {xs ys : List α} (h : Begins n m xs ys) :
    (n = 0 ∧ xs = []) ∨ ∃ k l x us vs, n = k + 1 ∧ m = l + 1 ∧
      xs = x :: us ∧ ys = x :: vs ∧ Begins k l us vs := by
  cases n with
  | zero => exact Or.inl ⟨rfl, h.eq_take⟩
  | succ k =>
      cases ys with
      | nil =>
          have hle := h.le
          rw [← h.length_eq] at hle
          exact absurd hle (Nat.not_succ_le_zero k)
      | cons x vs =>
          obtain rfl : vs.length + 1 = m := h.length_eq
          obtain rfl : xs = x :: vs.take k := h.eq_take
          exact Or.inr ⟨k, vs.length, x, _, vs, rfl, rfl, rfl, rfl, h.tail⟩

/-- The pairs of neighbours of a column, the older one first. -/
theorem Begins.neighbours {x : α} {xs ys : List α} (h : Begins n m xs ys) :
    Begins n m (List.zip (x :: xs) xs) (List.zip (x :: ys) ys) := by
  -- Pairs stop at the shorter list, so the longer one may be cut first.
  have hlong : ∀ l : List α,
      List.zip (x :: l) l = List.zip ((x :: l).take l.length) l := by
    intro l
    rw [List.zip_eq_zip_take_min, List.length_cons,
      Nat.min_eq_right (Nat.le_succ _), List.take_length]
  have hxs : Begins (n + 1) (m + 1) (x :: xs) (x :: ys) := h.cons x
  rw [hlong xs, hlong ys, h.length_prefix, h.length_eq]
  exact (hxs.take (Nat.le_succ n) (Nat.le_succ m) h.le).zip h

/-! ## One bar of a column -/

theorem Begins.getElem? {i : Nat} {xs ys : List α} (h : Begins n m xs ys)
    (hi : i < n) : xs[i]? = ys[i]? := by
  rw [h.eq_take]
  exact List.getElem?_take_of_lt hi

/-- The newest item of the prefix that ends at a bar is the item of that bar. -/
theorem Begins.getLast? {i : Nat} {xs ys : List α}
    (h : Begins (i + 1) m xs ys) : xs.getLast? = ys[i]? := by
  rw [List.getLast?_eq_getElem?, h.length_prefix, Nat.add_sub_cancel]
  exact h.getElem? (Nat.lt_succ_self i)

/-! ## Windows and smoothing -/

section Columns

variable {xs ys us vs : Column}

theorem Begins.rolling (f : Column → Float) (length : Nat)
    (h : Begins n m xs ys) :
    Begins n m (rolling f length xs) (rolling f length ys) :=
  h.overHistory _

theorem Begins.shift (offset : Nat) (h : Begins n m xs ys) :
    Begins n m (shift xs offset) (shift ys offset) :=
  h.overHistory _

theorem Begins.change (offset : Nat) (h : Begins n m xs ys) :
    Begins n m (change xs offset) (change ys offset) :=
  h.zipWith _ (h.shift offset)

theorem Begins.zipColumns (f : Float → Float → Float)
    (h : Begins n m xs ys) (h' : Begins n m us vs) :
    Begins n m (zipColumns f xs us) (zipColumns f ys vs) :=
  h.zipWith f h'

theorem Begins.smooth (alpha : Float) (h : Begins n m xs ys) :
    Begins n m (smooth xs alpha) (smooth ys alpha) :=
  h.scan _ _

end Columns

end Barscript.Series
