import Mathlib.Data.List.Forall2
import Barscript.Series.Value
import Barscript.Proofs.Series.Prefix

/-!
# Values over a prefix of the bars

`Value.Begins n m v w` relates the value of one computation at two lengths: a
scalar is the same, and every column of `v` holds the oldest `n` of the `m`
numbers in the column of `w`. All operations on values respect the relation.
What does not respect it are the readings of a column as one number, which
look at its newest bar; they agree only on values that are no columns.
-/

namespace Barscript.Series

open Barscript.Script

variable {n m : Nat} {v w v' w' : Value}

/-- Whether a value has one number for each bar. -/
def Value.isColumn : Value → Bool
  | .series _ | .tuple _ => true
  | _ => false

/-- Two lists of named columns, the first over a prefix of the bars. -/
abbrev OutputsBegin (n m : Nat) : Outputs → Outputs → Prop :=
  List.Forall₂ fun p q => p.1 = q.1 ∧ Begins n m p.2 q.2

/-- The value `v` is the value `w` seen over the oldest `n` of `m` bars. -/
inductive Value.Begins (n m : Nat) : Value → Value → Prop where
  | scalar {v : Value} (h : v.isColumn = false) : Value.Begins n m v v
  | series {xs ys : Column} (h : Series.Begins n m xs ys) :
      Value.Begins n m (.series xs) (.series ys)
  | tuple {ps qs : Outputs} (h : OutputsBegin n m ps qs) :
      Value.Begins n m (.tuple ps) (.tuple qs)

/-! ## Shape -/

/-- A value that is no column is one of four. -/
theorem Value.scalarCases {motive : (u : Value) → u.isColumn = false → Prop}
    (na : motive .na rfl) (number : ∀ x, motive (.number x) rfl)
    (bool : ∀ b, motive (.bool b) rfl) (text : ∀ s, motive (.text s) rfl)
    (u : Value) (hu : u.isColumn = false) : motive u hu := by
  cases u with
  | na => exact na
  | number x => exact number x
  | bool b => exact bool b
  | text s => exact text s
  | series _ => cases hu
  | tuple _ => cases hu

theorem Value.Begins.na : Value.Begins n m .na .na := .scalar rfl

theorem Value.Begins.number (x : Float) :
    Value.Begins n m (.number x) (.number x) := .scalar rfl

theorem Value.Begins.bool (b : Bool) :
    Value.Begins n m (.bool b) (.bool b) := .scalar rfl

/-- A value without columns does not depend on the number of bars. -/
theorem Value.Begins.eq_of_scalar (h : Value.Begins n m v w)
    (hw : w.isColumn = false) : v = w := by
  cases h with
  | scalar _ => rfl
  | series _ => exact Bool.noConfusion hw
  | tuple _ => exact Bool.noConfusion hw

/-- Over the same bars nothing is cut. -/
theorem Value.Begins.eq (h : Value.Begins n n v w) : v = w := by
  cases h with
  | scalar _ => rfl
  | series h => rw [h.eq]
  | tuple h =>
      congr
      induction h with
      | nil => rfl
      | cons hhead _ ih =>
          rw [ih]
          congr
          exact Prod.ext hhead.1 hhead.2.eq

/-- Cutting both sides. -/
theorem Value.Begins.truncate (h : Value.Begins n m v w) {k l : Nat}
    (hk : k ≤ n) (hl : l ≤ m) (hkl : k ≤ l) :
    Value.Begins k l (v.truncate k) (w.truncate l) := by
  cases h with
  | @scalar v hv =>
      cases v, hv using Value.scalarCases with
      | _ => exact .scalar rfl
  | series h => exact .series (h.take hk hl hkl)
  | tuple h =>
      refine .tuple (List.forall₂_map_left_iff.mpr
        (List.forall₂_map_right_iff.mpr (h.imp ?_)))
      intro p q hpq
      exact ⟨hpq.1, hpq.2.take hk hl hkl⟩

/-- Reduced to one line a value is a scalar or one column. -/
theorem Value.Begins.primary_cases (h : Value.Begins n m v w) :
    (∃ u : Value, u.isColumn = false ∧ v.primary = u ∧ w.primary = u) ∨
      ∃ xs ys : Column, Series.Begins n m xs ys ∧
        v.primary = .series xs ∧ w.primary = .series ys := by
  cases h with
  | @scalar v hv =>
      left
      cases v, hv using Value.scalarCases with
      | _ => exact ⟨_, rfl, rfl, rfl⟩
  | @series xs ys h => exact Or.inr ⟨xs, ys, h, rfl, rfl⟩
  | tuple h =>
      cases h with
      | nil => exact Or.inl ⟨.na, rfl, rfl, rfl⟩
      | @cons p q _ _ hhead _ => exact Or.inr ⟨p.2, q.2, hhead.2, rfl, rfl⟩

/-- The lines of a value by name. -/
theorem Value.Begins.component? (name : String) (h : Value.Begins n m v w) :
    Option.Rel (Value.Begins n m) (v.component? name)
      (w.component? name) := by
  cases h with
  | @scalar v hv =>
      cases v, hv using Value.scalarCases with
      | _ => exact .none
  | series _ => exact .none
  | tuple h =>
      simp only [Value.component?]
      induction h with
      | nil => exact .none
      | @cons p q _ _ hhead _ ih =>
          rw [List.find?_cons, List.find?_cons, hhead.1]
          split
          · exact .some (.series hhead.2)
          · exact ih

/-! ## Readings -/

/-- Truth over the bars up to one is truth at that bar. -/
theorem Value.Begins.isTruthy_eq {i : Nat}
    (h : Value.Begins (i + 1) m v w) : v.isTruthy = w.truthyAt i := by
  cases h with
  | @scalar v hv =>
      cases v, hv using Value.scalarCases with
      | _ => rfl
  | series h =>
      simp only [Value.isTruthy, Value.truthyAt, lastIsTrue, isTrueAt]
      rw [h.getLast?]
  | tuple h =>
      cases h with
      | nil => rfl
      | cons hhead _ =>
          simp only [Value.isTruthy, Value.truthyAt, mainOutput?,
            List.head?_cons, Option.map_some, Option.getD_some, lastIsTrue,
            isTrueAt]
          rw [hhead.2.getLast?]

/-- Truth at a bar does not depend on the bars behind it. -/
theorem Value.Begins.truthyAt_eq {i : Nat} (h : Value.Begins n m v w)
    (hi : i < n) : v.truthyAt i = w.truthyAt i := by
  cases h with
  | scalar _ => rfl
  | series h =>
      simp only [Value.truthyAt, isTrueAt]
      rw [h.getElem? hi]
  | tuple h =>
      cases h with
      | nil => rfl
      | cons hhead _ =>
          simp only [Value.truthyAt, mainOutput?, List.head?_cons,
            Option.map_some, Option.getD_some, isTrueAt]
          rw [hhead.2.getElem? hi]

theorem Value.Begins.column? (hle : n ≤ m) (h : Value.Begins n m v w) :
    Option.Rel (Series.Begins n m) (v.column? n) (w.column? m) := by
  cases h with
  | @scalar v hv =>
      cases v, hv using Value.scalarCases with
      | number x => exact .some (.replicate hle x)
      | bool b => exact .some (.replicate hle (flag b))
      | _ => exact .none
  | series h => exact .some h
  | tuple h =>
      cases h with
      | nil => exact .none
      | cons hhead _ => exact .some hhead.2

/-! ## Operations -/

theorem rel_cases {α β : Type} {R : α → β → Prop} {a : Option α}
    {b : Option β} (h : Option.Rel R a b) :
    (a = none ∧ b = none) ∨ ∃ x y, a = some x ∧ b = some y ∧ R x y := by
  cases h with
  | none => exact Or.inl ⟨rfl, rfl⟩
  | some hxy => exact Or.inr ⟨_, _, rfl, rfl, hxy⟩

/-- A value computed from what may be missing. -/
theorem Value.Begins.optional {α β : Type} {R : α → β → Prop}
    {a : Option α} {b : Option β} {f : α → Value} {g : β → Value}
    (h : Option.Rel R a b)
    (hfg : ∀ x y, R x y → Value.Begins n m (f x) (g y)) :
    Value.Begins n m ((a.map f).getD .na) ((b.map g).getD .na) := by
  cases h with
  | none => exact .na
  | some hxy => exact hfg _ _ hxy

/-- A value that may be missing, or else another one. -/
theorem Value.Begins.getD {a b : Option Value}
    (h : Option.Rel (Value.Begins n m) a b) (hd : Value.Begins n m v w) :
    Value.Begins n m (a.getD v) (b.getD w) := by
  cases h with
  | none => exact hd
  | some hxy => exact hxy

theorem alignNewest_self {xs : Column} (h : xs.length = n) :
    alignNewest n xs = xs := by
  rw [alignNewest, h, Nat.sub_self, List.replicate_zero, List.nil_append]

theorem Value.Begins.mapWith (f : Float → Float)
    (h : Value.Begins n m v w) :
    Value.Begins n m (v.mapWith f) (w.mapWith f) := by
  unfold Value.mapWith
  rcases h.primary_cases with ⟨u, hu, hv, hw⟩ | ⟨xs, ys, hxs, hv, hw⟩
  · rw [hv, hw]
    cases u, hu using Value.scalarCases with
    | _ => exact .scalar rfl
  · rw [hv, hw]
    exact .series (hxs.map f)

theorem Value.primary_idem (v : Value) : v.primary.primary = v.primary := by
  cases v with
  | tuple outputs =>
      simp only [Value.primary]
      cases mainOutput? outputs <;> rfl
  | _ => rfl

theorem Value.zipWith_primary (f : Float → Float → Float) (v w : Value) :
    Value.zipWith f v w = Value.zipWith f v.primary w.primary := by
  simp only [Value.zipWith, Value.primary_idem]

theorem Value.zipWith_series (f : Float → Float → Float) {xs ys : Column}
    (hx : xs.length = n) (hy : ys.length = n) :
    Value.zipWith f (.series xs) (.series ys) =
      .series (List.zipWith f xs ys) := by
  simp only [Value.zipWith, Value.primary, Value.scalar?, commonLength?, hx,
    hy, Nat.max_self, Value.column?]
  rw [alignNewest_self hx, alignNewest_self hy]

/-- A column beside a value that is none is combined with its repetition. -/
theorem Value.zipWith_series_scalar (f : Float → Float → Float)
    {xs : Column} {u : Value} (hx : xs.length = n)
    (hu : u.isColumn = false) :
    Value.zipWith f (.series xs) u =
      ((u.column? n).map fun ys => .series (List.zipWith f xs ys)).getD
        .na := by
  cases u, hu using Value.scalarCases with
  | number x =>
      simp only [Value.zipWith, Value.primary, Value.scalar?, commonLength?,
        hx, Value.column?, Option.map_some, Option.getD_some]
      rw [alignNewest_self hx, alignNewest_self List.length_replicate]
  | bool b =>
      simp only [Value.zipWith, Value.primary, Value.scalar?, commonLength?,
        hx, Value.column?, Option.map_some, Option.getD_some]
      rw [alignNewest_self hx, alignNewest_self List.length_replicate]
  | _ => rfl

theorem Value.zipWith_scalar_series (f : Float → Float → Float)
    {xs : Column} {u : Value} (hx : xs.length = n)
    (hu : u.isColumn = false) :
    Value.zipWith f u (.series xs) =
      ((u.column? n).map fun ys => .series (List.zipWith f ys xs)).getD
        .na := by
  cases u, hu using Value.scalarCases with
  | number x =>
      simp only [Value.zipWith, Value.primary, Value.scalar?, commonLength?,
        hx, Value.column?, Option.map_some, Option.getD_some]
      rw [alignNewest_self hx, alignNewest_self List.length_replicate]
  | bool b =>
      simp only [Value.zipWith, Value.primary, Value.scalar?, commonLength?,
        hx, Value.column?, Option.map_some, Option.getD_some]
      rw [alignNewest_self hx, alignNewest_self List.length_replicate]
  | _ => rfl

/-- Two values that are no columns combine to one that is none. -/
theorem Value.isColumn_zipWith (f : Float → Float → Float) {u u' : Value}
    (hu : u.isColumn = false) (hu' : u'.isColumn = false) :
    (Value.zipWith f u u').isColumn = false := by
  cases u, hu using Value.scalarCases with
  | _ =>
      cases u', hu' using Value.scalarCases with
      | _ => rfl

theorem Value.Begins.zipWith (f : Float → Float → Float)
    (h : Value.Begins n m v w) (h' : Value.Begins n m v' w') :
    Value.Begins n m (v.zipWith f v') (w.zipWith f w') := by
  rw [Value.zipWith_primary f v v', Value.zipWith_primary f w w']
  -- Beside a column a scalar is repeated, once for each bar of its own side.
  rcases h.primary_cases with ⟨u, hu, hv, hw⟩ | ⟨xs, ys, hxs, hv, hw⟩
  · rcases h'.primary_cases with ⟨u', hu', hv', hw'⟩ | ⟨us, vs, hus, hv', hw'⟩
    · rw [hv, hw, hv', hw']
      exact .scalar (Value.isColumn_zipWith f hu hu')
    · rw [hv, hw, hv', hw',
        Value.zipWith_scalar_series f hus.length_prefix hu,
        Value.zipWith_scalar_series f hus.length_eq hu]
      refine .optional ((Value.Begins.scalar hu).column? hus.le) ?_
      intro zs zs' hzs
      exact .series (hzs.zipWith f hus)
  · rcases h'.primary_cases with ⟨u', hu', hv', hw'⟩ | ⟨us, vs, hus, hv', hw'⟩
    · rw [hv, hw, hv', hw',
        Value.zipWith_series_scalar f hxs.length_prefix hu',
        Value.zipWith_series_scalar f hxs.length_eq hu']
      refine .optional ((Value.Begins.scalar hu').column? hxs.le) ?_
      intro zs zs' hzs
      exact .series (hxs.zipWith f hzs)
    · rw [hv, hw, hv', hw',
        Value.zipWith_series f hxs.length_prefix hus.length_prefix,
        Value.zipWith_series f hxs.length_eq hus.length_eq]
      exact .series (hxs.zipWith f hus)

theorem Value.Begins.unary (op : UnaryOp) (h : Value.Begins n m v w) :
    Value.Begins n m (.unary op v) (.unary op w) := by
  unfold Value.unary
  rcases h.primary_cases with ⟨u, hu, hv, hw⟩ | ⟨xs, ys, hxs, hv, hw⟩
  · rw [hv, hw]
    cases u, hu using Value.scalarCases with
    | number x =>
        cases op with
        | neg => exact .number _
        | not =>
            simp only
            split
            · exact .na
            · exact .bool _
    | _ => cases op <;> exact .scalar rfl
  · rw [hv, hw]
    cases op <;> exact .series (hxs.map _)

theorem Value.Begins.lag (offset : Nat) (h : Value.Begins n m v w) :
    Value.Begins n m (v.lag offset) (w.lag offset) := by
  unfold Value.lag
  rcases h.primary_cases with ⟨u, hu, hv, hw⟩ | ⟨xs, ys, hxs, hv, hw⟩
  · rw [hv, hw]
    cases u, hu using Value.scalarCases with
    | _ => exact .scalar rfl
  · rw [hv, hw]
    exact .series (hxs.shift offset)

/-- An operator reads its operands reduced to one line. -/
theorem Value.binary_primary (op : BinaryOp) (v w : Value) :
    Value.binary op v w = Value.binary op v.primary w.primary := by
  simp only [Value.binary, Value.primary_idem]

theorem Value.isColumn_asLogical (op : BinaryOp) {u : Value}
    (hu : u.isColumn = false) : (u.asLogical op).isColumn = false := by
  cases u with
  | number x =>
      simp only [Value.asLogical]
      split <;> rfl
  | _ => exact hu

theorem Value.isColumn_textOp (op : BinaryOp) (same : Bool) :
    (textOp op same).isColumn = false := by
  cases op <;> rfl

theorem Value.isColumn_binary (op : BinaryOp) {u u' : Value}
    (hu : u.isColumn = false) (hu' : u'.isColumn = false) :
    (Value.binary op u u').isColumn = false := by
  have hzip : ((Value.zipWith (applyOp op) u u').asLogical op).isColumn =
      false :=
    Value.isColumn_asLogical op (Value.isColumn_zipWith _ hu hu')
  cases u, hu using Value.scalarCases with
  | na => rfl
  | text a =>
      cases u', hu' using Value.scalarCases with
      | na => rfl
      | _ => exact Value.isColumn_textOp op _
  | _ =>
      cases u', hu' using Value.scalarCases with
      | na => rfl
      | text b => exact Value.isColumn_textOp op false
      | _ => exact hzip

theorem Value.Begins.asLogical (op : BinaryOp) (h : Value.Begins n m v w) :
    Value.Begins n m (v.asLogical op) (w.asLogical op) := by
  cases h with
  | scalar hv => exact .scalar (Value.isColumn_asLogical op hv)
  | series h => exact .series h
  | tuple h => exact .tuple h

theorem Value.Begins.binary (op : BinaryOp) (h : Value.Begins n m v w)
    (h' : Value.Begins n m v' w') :
    Value.Begins n m (.binary op v v') (.binary op w w') := by
  rw [Value.binary_primary op v v', Value.binary_primary op w w']
  rcases h.primary_cases with ⟨u, hu, hv, hw⟩ | ⟨xs, ys, hxs, hv, hw⟩
  · rcases h'.primary_cases with ⟨u', hu', hv', hw'⟩ | ⟨us, vs, hus, hv', hw'⟩
    · rw [hv, hw, hv', hw']
      exact .scalar (Value.isColumn_binary op hu hu')
    · rw [hv, hw, hv', hw']
      cases u, hu using Value.scalarCases with
      | na => exact .na
      | text a => exact .scalar (Value.isColumn_textOp op false)
      | number x =>
          exact ((Value.Begins.number x).zipWith (applyOp op)
            (.series hus)).asLogical op
      | bool b =>
          exact ((Value.Begins.bool b).zipWith (applyOp op)
            (.series hus)).asLogical op
  · rcases h'.primary_cases with ⟨u', hu', hv', hw'⟩ | ⟨us, vs, hus, hv', hw'⟩
    · rw [hv, hw, hv', hw']
      cases u', hu' using Value.scalarCases with
      | na => exact .na
      | text a => exact .scalar (Value.isColumn_textOp op false)
      | number x =>
          exact ((Value.Begins.series hxs).zipWith (applyOp op)
            (.number x)).asLogical op
      | bool b =>
          exact ((Value.Begins.series hxs).zipWith (applyOp op)
            (.bool b)).asLogical op
    · rw [hv, hw, hv', hw']
      exact ((Value.Begins.series hxs).zipWith (applyOp op)
        (.series hus)).asLogical op

end Barscript.Series
