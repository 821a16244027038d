import Barscript.Proofs.Session.Evaluation
import Barscript.Proofs.Session.Search

/-!
# Variables in a circle

An evaluator that keeps a stack of the variables it is reading enters the
definition of a name unless the name is on the stack. It pushes the name,
evaluates the definition and pops the name again. `evaluateWithin` is that
evaluator with a limit on the depth of its recursion, and without a value when
the limit is met.

Whatever the definitions say of each other, the limit is not met if it is
larger than the definitions that are not on the stack and the expression
together. The stack is then left as it was found, and value and cache are those
of `evaluate` where the definitions on the stack may not be entered.
-/

namespace Barscript.Session

open Barscript.Script Barscript.Series Barscript.Builtin

/-! ## An evaluator with a stack -/

/-- What is kept while an expression is evaluated: the values of indicator
calls, and the variables that are being read, the innermost first. -/
structure Reading where
  cache : Cache
  stack : List String

/-- An evaluation that may give up. -/
abbrev Bounded := StateT Reading Option

/-- A definition is read with its name on the stack, and is absent when the
name is there already. -/
def readVariable (name : String) (x : Bounded Value) : Bounded Value := do
  if (← get).stack.contains name then pure .na
  else
    modify fun s => { s with stack := name :: s.stack }
    let value ← x
    modify fun s => { s with stack := s.stack.tail }
    pure value

/-- Values of arguments, from left to right. -/
def argumentsBy (x : Expr → Bounded Value) :
    List (Argument Expr) → Bounded (List (Argument Value))
  | [] => pure []
  | ⟨name, value⟩ :: rest => do
    let first ← x value
    let others ← argumentsBy x rest
    pure (⟨name, first⟩ :: others)

mutual

/-- The value of an expression on the oldest `shown` bars, computed no deeper
than a limit. -/
def evaluateWithin (w : World) : Nat → Nat → Expr → Bounded Value
  | 0, _, _ => failure
  | depth + 1, shown, e =>
    match e with
    | .literal value => pure (.ofLiteral value)
    | .ref name => nameWithin w depth shown name
    | .call id name args => do
      if isIndicatorName name then
        match (← get).cache.lookup id with
        | some value => pure (value.truncate shown)
        | none =>
          let values ← argumentsBy (evaluateWithin w depth w.bars.length) args
          let value := (indicator? name (.ofList values) w.bars).getD .na
          modify fun s => { s with cache := (id, value) :: s.cache }
          pure (value.truncate shown)
      else
        let values ← argumentsBy (evaluateWithin w depth shown) args
        pure ((function? name (.ofList values)).getD .na)
    | .binary op left right => do
      let a ← evaluateWithin w depth shown left
      let b ← evaluateWithin w depth shown right
      pure (.binary op a b)
    | .unary op operand => do
      let a ← evaluateWithin w depth shown operand
      pure (.unary op a)
    | .ternary condition whenTrue whenFalse => do
      let c ← evaluateWithin w depth shown condition
      if c.isTruthy then evaluateWithin w depth shown whenTrue
      else evaluateWithin w depth shown whenFalse
    | .indexed name offset => do
      let base ← nameWithin w depth shown name
      let k ← evaluateWithin w depth shown offset
      pure (lagBy base k)

/-- The value of a name: fixed, defined by the script, an input, or a line of
what stands before its last dot. -/
def nameWithin (w : World) : Nat → Nat → String → Bounded Value
  | 0, _, _ => failure
  | depth + 1, shown, name =>
    match w.fixed? name shown with
    | some value => pure value
    | none =>
      match w.strategy.definitions[name]? with
      | some e => readVariable name (evaluateWithin w depth shown e)
      | none =>
        match w.strategy.inputs[name]? with
        | some input => pure (inputDefault input)
        | none =>
          match splitLast name with
          | none => pure .na
          | some (base, line) =>
            if w.hasLines base then do
              let value ← nameWithin w depth shown base
              pure ((value.component? line).getD .na)
            else pure .na

end

/-! ## Following an evaluation -/

/-- The evaluation with a stack comes to the value and the cache of another
one, and leaves its stack as it was. -/
def Follows {α : Type} (stack : List String) (x : Bounded α)
    (y : Evaluating α) : Prop :=
  ∀ cache, x ⟨cache, stack⟩ = some ((y cache).1, ⟨(y cache).2, stack⟩)

section

variable {α β : Type} {stack : List String}

theorem Follows.pure (a : α) : Follows stack (pure a) (pure a) :=
  fun _ => rfl

theorem Follows.bind {x : Bounded α} {y : Evaluating α} {f : α → Bounded β}
    {g : α → Evaluating β} (h : Follows stack x y)
    (hfg : ∀ a, Follows stack (f a) (g a)) :
    Follows stack (x >>= f) (y >>= g) := by
  intro cache
  show (x ⟨cache, stack⟩).bind _ = _
  rw [h cache]
  exact hfg _ _

/-- A definition that is not being read is read with its name on the stack. -/
theorem Follows.readVariable {name : String} {x : Bounded Value}
    {y : Evaluating Value} (hname : name ∉ stack)
    (h : Follows (name :: stack) x y) :
    Follows stack (readVariable name x) y := by
  intro cache
  show (if stack.contains name then (Pure.pure .na : Bounded Value) else _)
    ⟨cache, stack⟩ = _
  rw [if_neg (mt List.contains_iff_mem.mp hname)]
  show (x ⟨cache, name :: stack⟩).bind _ = _
  rw [h cache]
  rfl

/-- **A variable met again is absent.** -/
theorem readVariable_again {name : String} (hname : name ∈ stack)
    (x : Bounded Value) : Follows stack (readVariable name x) (Pure.pure .na) := by
  intro cache
  show (if stack.contains name then (Pure.pure .na : Bounded Value) else _)
    ⟨cache, stack⟩ = _
  rw [if_pos (List.contains_iff_mem.mpr hname)]
  rfl

theorem Follows.arguments {w : World} {available : Definitions} {shown : Nat}
    {x : Expr → Bounded Value} (args : List (Argument Expr))
    (h : ∀ arg ∈ args, Follows stack (x arg.value)
      (evaluate w available shown arg.value)) :
    Follows stack (argumentsBy x args)
      (evaluateArguments w available shown args) := by
  induction args with
  | nil =>
      rw [evaluateArguments]
      exact .pure []
  | cons arg rest ih =>
      obtain ⟨name, value⟩ := arg
      rw [evaluateArguments]
      refine (h _ List.mem_cons_self).bind fun first => ?_
      refine (ih fun other hother => h other (List.mem_cons_of_mem _ hother)).bind
        fun others => ?_
      exact .pure _

/-- An indicator call is looked up in the cache, or computed and kept. -/
theorem Follows.indicator {w : World} {available : Definitions} {shown : Nat}
    {id : Nat} {name : String} {args : List (Argument Expr)}
    {x : Bounded (List (Argument Value))} (hname : isIndicatorName name = true)
    (h : Follows stack x
      (evaluateArguments w available w.bars.length args)) :
    Follows stack
      (do
        match (← get).cache.lookup id with
        | some value => Pure.pure (value.truncate shown)
        | none =>
          let values ← x
          let value := (indicator? name (.ofList values) w.bars).getD .na
          modify fun s => { s with cache := (id, value) :: s.cache }
          Pure.pure (value.truncate shown))
      (evaluate w available shown (.call id name args)) := by
  intro cache
  cases hcached : cache.lookup id with
  | some value =>
      rw [evaluate_hit hname hcached]
      show (match cache.lookup id with
        | some value => (Pure.pure (value.truncate shown) : Bounded Value)
        | none => _) ⟨cache, stack⟩ = _
      rw [hcached]
      rfl
  | none =>
      rw [evaluate_miss hname hcached]
      show (match cache.lookup id with
        | some value => (Pure.pure (value.truncate shown) : Bounded Value)
        | none => _) ⟨cache, stack⟩ = _
      rw [hcached]
      show (x ⟨cache, stack⟩).bind _ = _
      rw [h cache]
      rfl

end

/-! ## Deep enough -/

/-- What has lines is fixed or defined. -/
theorem isFixed_or_contains_of_hasLines {w : World} {base : String}
    (h : w.hasLines base = true) :
    (w.isFixed base || w.strategy.definitions.contains base) = true := by
  rw [World.hasLines, Bool.or_eq_true] at h
  rcases h with hdefined | hset
  · rw [hdefined, Bool.or_true]
  · rw [World.isFixed, hset, Bool.true_or, Bool.true_or, Bool.true_or]

mutual

/-- Deep enough the evaluation follows the one without a stack. The limit goes
down with every step, and what has to stay below it are the definitions that
are not being read together with the expression. -/
theorem follows_evaluateWithin (w : World) (depth shown : Nat) (e : Expr)
    (stack : List String)
    (hdepth : weightDefinitions (unread w.strategy stack) + weight e < depth) :
    Follows stack (evaluateWithin w depth shown e)
      (evaluate w (unread w.strategy stack) shown e) := by
  match depth, e with
  | 0, _ => omega
  | depth + 1, .literal value =>
      rw [evaluateWithin, evaluate]
      exact .pure _
  | depth + 1, .ref name =>
      rw [weight] at hdepth
      rw [evaluateWithin, evaluate]
      exact follows_nameWithin w depth shown name stack (by omega)
  | depth + 1, .call id name args =>
      rw [weight] at hdepth
      have harguments (shown : Nat) :
          Follows stack (argumentsBy (evaluateWithin w depth shown) args)
            (evaluateArguments w (unread w.strategy stack) shown args) := by
        refine .arguments args ?_
        intro arg harg
        have hpart := weight_lt_weightArguments harg
        exact follows_evaluateWithin w depth shown arg.value stack (by omega)
      rw [evaluateWithin]
      cases hname : isIndicatorName name with
      | true => exact .indicator hname (harguments w.bars.length)
      | false =>
          rw [evaluate_function hname]
          exact (harguments shown).bind fun values => .pure _
  | depth + 1, .binary op left right =>
      rw [weight] at hdepth
      rw [evaluateWithin, evaluate]
      have hleft := follows_evaluateWithin w depth shown left stack (by omega)
      have hright := follows_evaluateWithin w depth shown right stack (by omega)
      exact hleft.bind fun a => hright.bind fun b => .pure _
  | depth + 1, .unary op operand =>
      rw [weight] at hdepth
      rw [evaluateWithin, evaluate]
      exact (follows_evaluateWithin w depth shown operand stack (by omega)).bind
        fun a => .pure _
  | depth + 1, .ternary condition whenTrue whenFalse =>
      rw [weight] at hdepth
      rw [evaluateWithin, evaluate]
      refine (follows_evaluateWithin w depth shown condition stack
        (by omega)).bind fun c => ?_
      cases c.isTruthy with
      | true => exact follows_evaluateWithin w depth shown whenTrue stack (by omega)
      | false =>
          exact follows_evaluateWithin w depth shown whenFalse stack (by omega)
  | depth + 1, .indexed name offset =>
      rw [weight] at hdepth
      rw [evaluateWithin, evaluate]
      have hbase := follows_nameWithin w depth shown name stack (by omega)
      have hoffset := follows_evaluateWithin w depth shown offset stack (by omega)
      exact hbase.bind fun base => hoffset.bind fun k => .pure _
termination_by (depth, 2)

theorem follows_nameWithin (w : World) (depth shown : Nat) (name : String)
    (stack : List String)
    (hdepth : weightDefinitions (unread w.strategy stack) + 1 < depth) :
    Follows stack (nameWithin w depth shown name)
      (readName w (unread w.strategy stack) shown name) := by
  match depth with
  | 0 => omega
  | depth + 1 =>
      -- A name that is neither fixed nor defined is looked up further on.
      have hother : (w.isFixed name ||
          w.strategy.definitions.contains name) = false →
          w.fixed? name shown = none ∧ w.strategy.definitions[name]? = none := by
        intro h
        obtain ⟨hfixed, hdefined⟩ := Bool.or_eq_false_iff.mp h
        refine ⟨fixed?_eq_none hfixed shown, ?_⟩
        rwa [Std.ExtTreeMap.contains_eq_isSome_getElem?,
          Option.isSome_eq_false_iff, Option.isNone_iff_eq_none] at hdefined
      cases nameReading w name with
      | named h =>
          rw [readName_named h]
          exact follows_defined w (depth + 1) shown name stack h (by omega)
      | input h hi =>
          rw [readName_input h hi, nameWithin, (hother h).1, (hother h).2, hi]
          exact .pure _
      | @line h hi base line hs hb =>
          rw [readName_line h hi hs hb, nameWithin, (hother h).1,
            (hother h).2, hi, hs]
          simp only [if_pos hb]
          exact (follows_defined w depth shown base stack
            (isFixed_or_contains_of_hasLines hb) (by omega)).bind
            fun value => .pure _
      | unknown h hi hs =>
          rw [readName_unknown h hi hs, nameWithin, (hother h).1,
            (hother h).2, hi]
          cases hsplit : splitLast name with
          | none => exact .pure _
          | some parts =>
              obtain ⟨base, line⟩ := parts
              simp only [hs base line hsplit, Bool.false_eq_true, if_false]
              exact .pure _
termination_by (depth, 1)

/-- A name on the stack has no definition that may be entered, another name
that is defined has one. -/
theorem follows_defined (w : World) (depth shown : Nat) (name : String)
    (stack : List String)
    (hname : (w.isFixed name || w.strategy.definitions.contains name) = true)
    (hdepth : weightDefinitions (unread w.strategy stack) < depth) :
    Follows stack (nameWithin w depth shown name)
      (readDefined w (unread w.strategy stack) shown name) := by
  match depth with
  | 0 => omega
  | depth + 1 =>
      rw [nameWithin]
      cases hfixed : w.isFixed name with
      | true =>
          obtain ⟨value, hvalue⟩ := Option.isSome_iff_exists.mp
            ((isSome_fixed? w name shown).trans hfixed)
          rw [readDefined_fixed hvalue, hvalue]
          exact .pure _
      | false =>
          rw [hfixed, Bool.false_or, Std.ExtTreeMap.contains_eq_isSome_getElem?,
            Option.isSome_iff_exists] at hname
          obtain ⟨e, he⟩ := hname
          rw [fixed?_eq_none hfixed, he]
          by_cases hstack : name ∈ stack
          · rw [readDefined_absent hfixed (release?_unread_visited hstack)]
            exact readVariable_again hstack _
          · rw [readDefined_entered hfixed (release?_unread he hstack)]
            have hleft := weight_unread he hstack
            exact .readVariable hstack
              (follows_evaluateWithin w depth shown e (name :: stack) (by omega))
termination_by (depth, 0)

end

/-! ## Any definitions -/

/-- A depth that no evaluation and no search of an expression needs more
than. -/
def World.depthFor (w : World) (e : Expr) : Nat :=
  weightDefinitions w.definitions + weight e + 1

theorem lt_depthFor (w : World) (e : Expr) (names : List String)
    (extra : Nat) :
    weightDefinitions (unread w.strategy names) + weight e <
      w.depthFor e + extra := by
  have hle := weight_unread_le (s := w.strategy) (List.nil_subset names)
  rw [unread_nil] at hle
  have hdefinitions : weightDefinitions w.definitions =
      weightDefinitions w.strategy.definitions.toList := rfl
  rw [World.depthFor]
  omega

/-- **Variables in a circle do no harm.** Whatever the definitions of a
strategy say of each other, in whatever state and with whatever variables being
read, an expression has a value, found no deeper than a fixed number of steps,
and the stack is afterwards what it was; a variable on the stack is absent; and
the search for a dependence on the view comes to an answer, whatever it visited
before, which at first is `dependsOnView`. -/
theorem evaluateWithin_completes (w : World) (shown : Nat) (e : Expr)
    (cache : Cache) (stack visited : List String) (extra : Nat) :
    evaluateWithin w (w.depthFor e + extra) shown e ⟨cache, stack⟩ =
        some ((evaluate w (unread w.strategy stack) shown e cache).1,
          ⟨(evaluate w (unread w.strategy stack) shown e cache).2, stack⟩) ∧
      (∀ name ∈ stack, w.isFixed name = false →
        w.strategy.definitions.contains name = true →
        nameWithin w (extra + 1) shown name ⟨cache, stack⟩ =
          some (.na, ⟨cache, stack⟩)) ∧
      (∃ found visited', searchWithin w.strategy (w.depthFor e + extra) e
        visited = some (found, visited')) ∧
      ∃ visited', searchWithin w.strategy (w.depthFor e + extra) e [] =
        some (dependsOnView w.strategy e, visited') := by
  refine ⟨?_, ?_, ?_, ?_⟩
  · exact follows_evaluateWithin w _ shown e stack
      (lt_depthFor w e stack extra) cache
  · intro name hstack hfixed hdefined
    rw [Std.ExtTreeMap.contains_eq_isSome_getElem?,
      Option.isSome_iff_exists] at hdefined
    obtain ⟨definition, hdefinition⟩ := hdefined
    rw [nameWithin, fixed?_eq_none hfixed, hdefinition]
    exact readVariable_again hstack _ cache
  · obtain ⟨found, visited', hrun, -, -⟩ := finds_searchWithin w.strategy _ e
      visited (lt_depthFor w e visited extra)
    exact ⟨found, visited', hrun⟩
  · exact searchWithin_eq_dependsOnView w.strategy e extra

/-- From an empty stack the value is that of the world. -/
theorem evaluateWithin_valueOn (w : World) (shown : Nat) (e : Expr)
    (cache : Cache) (extra : Nat) :
    evaluateWithin w (w.depthFor e + extra) shown e ⟨cache, []⟩ =
      some ((w.valueOn shown e cache).1, ⟨(w.valueOn shown e cache).2, []⟩) := by
  have hfollows := follows_evaluateWithin w _ shown e []
    (lt_depthFor w e [] extra) cache
  rw [unread_nil] at hfollows
  exact hfollows

end Barscript.Session
