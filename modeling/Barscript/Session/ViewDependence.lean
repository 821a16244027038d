import Barscript.Session.Evaluation

/-!
# Dependence on the view

A backtest asks for the truth of a guard at one bar after another.  Most guards may be evaluated
once over all bars and then read at each bar; a guard that *depends on the view* has to be evaluated
anew over the bars up to each one.  Such are ternaries, which look at the newest bar in view,
computed offsets, and the name that marks the newest bar.  The arguments of an indicator call never
count, as they are always computed over all bars.

`dependsOnView` follows the names of an expression into their definitions.  A definition is entered
once, so the search ends for definitions in a circle, too.
-/

namespace Barscript.Session

open Barscript.Script

/-- The name that is true on the newest bar in view. -/
def newestBarName : String := "barstate.islast"

mutual

/-- Whether an expression itself, without the definitions of its names, depends on the view. -/
def readsView : Expr → Bool
  | .literal _ => false
  | .ref name => name == newestBarName
  | .call _ name args => !isIndicatorName name && argumentsReadView args
  | .binary _ left right => readsView left || readsView right
  | .unary _ operand => readsView operand
  | .ternary _ _ _ => true
  | .indexed name offset => offset.literal?.isNone || name == newestBarName

/-- Whether one of some arguments depends on the view. -/
def argumentsReadView : List (Argument Expr) → Bool
  | [] => false
  | ⟨_, value⟩ :: rest => readsView value || argumentsReadView rest

end

mutual

/-- The names whose definitions matter for the dependence of an expression. -/
def namesInView : Expr → List String
  | .literal _ => []
  | .ref name => [name]
  | .call _ name args => if isIndicatorName name then [] else argumentNamesInView args
  | .binary _ left right => namesInView left ++ namesInView right
  | .unary _ operand => namesInView operand
  | .ternary condition whenTrue whenFalse =>
    namesInView condition ++ namesInView whenTrue ++ namesInView whenFalse
  | .indexed name _ => [name]

/-- The names whose definitions matter for the dependence of some arguments. -/
def argumentNamesInView : List (Argument Expr) → List String
  | [] => []
  | ⟨_, value⟩ :: rest => namesInView value ++ argumentNamesInView rest

end

/-- The variable that a name stands for: itself, or what stands before its last dot. -/
def variableOf (s : Strategy) (name : String) : String :=
  if s.definitions.contains name then name
  else ((splitLast name).map Prod.fst).getD name

/-- Definitions with the number of names in each. -/
def countNames : Definitions → Nat
  | [] => 0
  | (_, value) :: rest => (namesInView value).length + 1 + countNames rest

theorem countNames_release? {name : String} {all left : Definitions} {value : Expr}
    (h : release? name all = some (value, left)) :
    countNames all = (namesInView value).length + 1 + countNames left := by
  induction all generalizing left with
  | nil => simp [release?] at h
  | cons entry rest ih =>
    unfold release? at h
    split at h
    · simp only [Option.some.injEq, Prod.mk.injEq] at h
      obtain ⟨rfl, rfl⟩ := h
      rfl
    · obtain ⟨⟨found, behind⟩, hfound, heq⟩ := Option.map_eq_some_iff.1 h
      simp only [Prod.mk.injEq] at heq
      obtain ⟨rfl, rfl⟩ := heq
      simp only [countNames, ih hfound]
      omega

/-- Whether a definition that can be reached from some names depends on the view. -/
def reachesView (s : Strategy) (available : Definitions) : List String → Bool
  | [] => false
  | name :: rest =>
    match _h : release? (variableOf s name) available with
    | none => reachesView s available rest
    | some (value, left) => readsView value || reachesView s left (namesInView value ++ rest)
termination_by names => countNames available + names.length
decreasing_by
  · simp
  · have := countNames_release? _h
    simp only [List.length_append, List.length_cons]
    omega

/-- Whether the value of an expression at a bar may differ between a view that ends there and a
longer one. -/
def dependsOnView (s : Strategy) (e : Expr) : Bool :=
  readsView e || reachesView s s.definitions.toList (namesInView e)

end Barscript.Session
