import Barscript.Proofs.Series.Value

/-!
# Values of a given number of bars

A value spans `n` bars when each of its columns has one number for each of
them. Cutting such a value to its oldest bars gives the value that begins it,
and whatever begins a value is that value cut. So `Value.Begins` is truncation,
in the form of a relation.
-/

namespace Barscript.Series

variable {n m k : Nat} {v w : Value}

/-- Every column of the value has one number for each of `n` bars. -/
def Value.Spans (n : Nat) : Value → Prop
  | .series xs => xs.length = n
  | .tuple outputs => ∀ output ∈ outputs, output.2.length = n
  | _ => True

theorem Value.spans_of_isColumn (h : v.isColumn = false) : v.Spans n := by
  cases v, h using Value.scalarCases with
  | _ => exact trivial

/-- The longer value spans all bars. -/
theorem Value.Begins.spans (h : Value.Begins n m v w) : w.Spans m := by
  cases h with
  | scalar hv => exact Value.spans_of_isColumn hv
  | series h => exact h.length_eq
  | tuple h =>
      induction h with
      | nil =>
          intro output houtput
          exact absurd houtput List.not_mem_nil
      | cons hhead _ ih =>
          intro output houtput
          rcases List.mem_cons.mp houtput with rfl | hrest
          · exact hhead.2.length_eq
          · exact ih output hrest

/-- What begins a value is the value on its oldest bars. -/
theorem Value.Begins.eq_truncate (h : Value.Begins n m v w) :
    v = w.truncate n := by
  cases h with
  | @scalar v hv =>
      cases v, hv using Value.scalarCases with
      | _ => rfl
  | series h => exact congrArg Value.series h.eq_take
  | @tuple ps qs h =>
      have hcut : ps = qs.map fun q => (q.1, q.2.take n) := by
        induction h with
        | nil => rfl
        | cons hhead _ ih =>
            rw [List.map_cons, ← ih, ← hhead.1, ← hhead.2.eq_take]
      rw [hcut]
      rfl

theorem begins_take {α : Type} {xs : List α} (h : xs.length = n)
    (hk : k ≤ n) : Begins k n (xs.take k) xs :=
  ⟨hk, h, rfl⟩

/-- A value on its oldest bars begins the value. -/
theorem Value.Spans.begins_truncate (h : v.Spans n) (hk : k ≤ n) :
    Value.Begins k n (v.truncate k) v := by
  cases v with
  | series xs => exact .series (begins_take h hk)
  | tuple outputs =>
      refine .tuple (List.forall₂_map_left_iff.mpr (List.forall₂_same.mpr ?_))
      intro output houtput
      exact ⟨rfl, begins_take (h output houtput) hk⟩
  | _ => exact .scalar rfl

/-- A value that spans the bars begins itself. -/
theorem Value.Spans.begins_self (h : v.Spans n) : Value.Begins n n v v := by
  have hcut := h.begins_truncate (Nat.le_refl n)
  rw [hcut.eq] at hcut
  exact hcut

end Barscript.Series
