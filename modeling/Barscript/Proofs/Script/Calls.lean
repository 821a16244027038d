import Barscript.Script.Expr

/-!
# The calls in an expression

`Expr.calls` lists all calls of an expression in the order in which they are
completed. The indicator calls are those among them that compute an indicator
(`filter_calls`), in the same order. A call holds the calls in its arguments
(`calls_trans`).
-/

namespace Barscript.Script

mutual

/-- The calls inside an expression, inner calls before the calls around
them. -/
def Expr.calls : Expr → List Expr
  | .literal _ => []
  | .ref _ => []
  | .call id name args => argumentCalls args ++ [.call id name args]
  | .binary _ left right => left.calls ++ right.calls
  | .unary _ operand => operand.calls
  | .ternary condition whenTrue whenFalse =>
    condition.calls ++ whenTrue.calls ++ whenFalse.calls
  | .indexed _ offset => offset.calls

/-- The calls inside a list of arguments. -/
def argumentCalls : List (Argument Expr) → List Expr
  | [] => []
  | ⟨_, value⟩ :: rest => value.calls ++ argumentCalls rest

end

/-- Whether an expression is a call that computes an indicator. -/
def Expr.isIndicatorCall : Expr → Bool
  | .call _ name _ => isIndicatorName name
  | _ => false

mutual

/-- The indicator calls are the calls that compute an indicator. -/
theorem filter_calls (e : Expr) :
    e.calls.filter Expr.isIndicatorCall = e.indicatorCalls := by
  match e with
  | .literal _ => rfl
  | .ref _ => rfl
  | .call id name args =>
      rw [Expr.calls, Expr.indicatorCalls, List.filter_append,
        filter_argumentCalls args, List.filter_cons, List.filter_nil]
      rfl
  | .binary _ left right =>
      rw [Expr.calls, Expr.indicatorCalls, List.filter_append,
        filter_calls left, filter_calls right]
  | .unary _ operand => exact filter_calls operand
  | .ternary condition whenTrue whenFalse =>
      rw [Expr.calls, Expr.indicatorCalls, List.filter_append,
        List.filter_append, filter_calls condition, filter_calls whenTrue,
        filter_calls whenFalse]
  | .indexed _ offset => exact filter_calls offset

theorem filter_argumentCalls (args : List (Argument Expr)) :
    (argumentCalls args).filter Expr.isIndicatorCall =
      argumentIndicators args := by
  match args with
  | [] => rfl
  | ⟨_, value⟩ :: rest =>
      rw [argumentCalls, argumentIndicators, List.filter_append,
        filter_calls value, filter_argumentCalls rest]

end

mutual

/-- The calls inside a call of an expression are calls of the expression. -/
theorem calls_trans (e : Expr) {call : Expr} (h : call ∈ e.calls) :
    call.calls ⊆ e.calls := by
  match e with
  | .literal _ => cases h
  | .ref _ => cases h
  | .call id name args =>
      have hargs : call ∈ argumentCalls args →
          call.calls ⊆ argumentCalls args := argumentCalls_trans args
      -- It stands in an argument, or it is the call itself.
      rw [Expr.calls] at h
      rcases List.mem_append.mp h with h | h
      · rw [Expr.calls]
        exact List.Subset.trans (hargs h) (List.subset_append_left _ _)
      · obtain rfl := List.mem_singleton.mp h
        exact List.Subset.refl _
  | .binary _ left right =>
      rw [Expr.calls] at h ⊢
      rcases List.mem_append.mp h with h | h
      · exact List.Subset.trans (calls_trans left h)
          (List.subset_append_left _ _)
      · exact List.Subset.trans (calls_trans right h)
          (List.subset_append_right _ _)
  | .unary _ operand => exact calls_trans operand h
  | .ternary condition whenTrue whenFalse =>
      rw [Expr.calls] at h ⊢
      rcases List.mem_append.mp h with h | h
      · rcases List.mem_append.mp h with h | h
        · exact List.Subset.trans (calls_trans condition h)
            (List.Subset.trans (List.subset_append_left _ _)
              (List.subset_append_left _ _))
        · exact List.Subset.trans (calls_trans whenTrue h)
            (List.Subset.trans (List.subset_append_right _ _)
              (List.subset_append_left _ _))
      · exact List.Subset.trans (calls_trans whenFalse h)
          (List.subset_append_right _ _)
  | .indexed _ offset => exact calls_trans offset h

theorem argumentCalls_trans (args : List (Argument Expr)) {call : Expr}
    (h : call ∈ argumentCalls args) : call.calls ⊆ argumentCalls args := by
  match args with
  | [] => cases h
  | ⟨_, value⟩ :: rest =>
      rw [argumentCalls] at h ⊢
      rcases List.mem_append.mp h with h | h
      · exact List.Subset.trans (calls_trans value h)
          (List.subset_append_left _ _)
      · exact List.Subset.trans (argumentCalls_trans rest h)
          (List.subset_append_right _ _)

end

/-- The calls of an argument are calls of the arguments. -/
theorem calls_subset {args : List (Argument Expr)} {a : Argument Expr}
    (ha : a ∈ args) : a.value.calls ⊆ argumentCalls args := by
  induction args with
  | nil => cases ha
  | cons first rest ih =>
      obtain ⟨name, value⟩ := first
      rw [argumentCalls]
      rcases List.mem_cons.mp ha with rfl | ha
      · exact List.subset_append_left _ _
      · exact List.Subset.trans (ih ha) (List.subset_append_right _ _)

/-! ## The indicator calls among them -/

/-- More calls hold more indicator calls. -/
theorem filter_isIndicatorCall_subset {xs ys : List Expr} (h : xs ⊆ ys) :
    xs.filter Expr.isIndicatorCall ⊆ ys.filter Expr.isIndicatorCall := by
  intro call hcall
  obtain ⟨hmem, hname⟩ := List.mem_filter.mp hcall
  exact List.mem_filter.mpr ⟨h hmem, hname⟩

end Barscript.Script
