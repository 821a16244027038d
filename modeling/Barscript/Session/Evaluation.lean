import Barscript.Session.World

/-!
# Evaluation

The value of an expression on the oldest bars.  Three rules shape it.

* Variables are macros: a name is replaced by its definition when it is read.  A definition is
  given up while it is being read, so a variable that comes back to itself is absent there.  The
  definitions that are left, together with the expression, are the measure of the recursion.
* Indicator calls are computed over all bars, kept under the identity of the call (`Cache`) and cut
  to the bars in view.
* A ternary picks its branch by the newest bar in view.
-/

namespace Barscript.Session

open Barscript.Script Barscript.Series Barscript.Builtin Barscript.Market Barscript.Trading

/-- The values of the indicator calls computed so far, by identity. -/
abbrev Cache := List (Nat × Value)

/-- Evaluation reads and extends the cache. -/
abbrev Evaluating := StateM Cache

/-! ## The measure -/

mutual

/-- The size of an expression, where a name counts more than a constant. -/
def weight : Expr → Nat
  | .literal _ => 1
  | .ref _ => 2
  | .call _ _ args => weightArguments args + 1
  | .binary _ left right => weight left + weight right + 1
  | .unary _ operand => weight operand + 1
  | .ternary condition whenTrue whenFalse =>
    weight condition + weight whenTrue + weight whenFalse + 1
  | .indexed _ offset => weight offset + 2

/-- The size of a list of arguments. -/
def weightArguments : List (Argument Expr) → Nat
  | [] => 1
  | ⟨_, value⟩ :: rest => weight value + weightArguments rest + 1

end

/-- Definitions that may still be entered. -/
abbrev Definitions := List (String × Expr)

/-- The size of the definitions that may still be entered. -/
def weightDefinitions : Definitions → Nat
  | [] => 0
  | (_, value) :: rest => weight value + 1 + weightDefinitions rest

/-- The definition of a name, and the other definitions. -/
def release? (name : String) : Definitions → Option (Expr × Definitions)
  | [] => none
  | (other, value) :: rest =>
    if other = name then some (value, rest)
    else (release? name rest).map fun (found, left) => (found, (other, value) :: left)

theorem weight_release? {name : String} {all left : Definitions} {value : Expr}
    (h : release? name all = some (value, left)) :
    weightDefinitions all = weight value + 1 + weightDefinitions left := by
  induction all generalizing left with
  | nil => simp [release?] at h
  | cons entry rest ih =>
    unfold release? at h
    split at h
    · simp only [Option.some.injEq, Prod.mk.injEq] at h
      obtain ⟨rfl, rfl⟩ := h
      rfl
    · obtain ⟨⟨found, behind⟩, hfound, heq⟩ := Option.map_eq_some_iff.1 h
      simp only [Prod.mk.injEq] at heq
      obtain ⟨rfl, rfl⟩ := heq
      simp only [weightDefinitions, ih hfound]
      omega

/-! ## Evaluation -/

/-- The value some bars back, where the offset is the newest number of a value. -/
def lagBy (base offset : Value) : Value :=
  match offset.number? with
  | some k => if isFinite k && 0.0 ≤ k then base.lag (toCount k) else .na
  | none => .na

/-- The default of an input. -/
def inputDefault (input : Input) : Value :=
  (input.default.map Value.ofLiteral).getD .na

mutual

/-- The value of an expression on the oldest `shown` bars. -/
def evaluate (w : World) (available : Definitions) (shown : Nat) :
    Expr → Evaluating Value
  | .literal value => pure (.ofLiteral value)
  | .ref name => readName w available shown name
  | .call id name args => do
    if isIndicatorName name then
      -- The arguments are read over all bars too; only the result is cut.
      match (← get).lookup id with
      | some value => pure (value.truncate shown)
      | none =>
        let values ← evaluateArguments w available w.bars.length args
        let value := (indicator? name (.ofList values) w.bars).getD .na
        modify fun cache => (id, value) :: cache
        pure (value.truncate shown)
    else
      let values ← evaluateArguments w available shown args
      pure ((function? name (.ofList values)).getD .na)
  | .binary op left right => do
    let a ← evaluate w available shown left
    let b ← evaluate w available shown right
    pure (.binary op a b)
  | .unary op operand => do
    let a ← evaluate w available shown operand
    pure (.unary op a)
  | .ternary condition whenTrue whenFalse => do
    let c ← evaluate w available shown condition
    if c.isTruthy then evaluate w available shown whenTrue
    else evaluate w available shown whenFalse
  | .indexed name offset => do
    let base ← readName w available shown name
    let k ← evaluate w available shown offset
    pure (lagBy base k)
termination_by e => weightDefinitions available + weight e
decreasing_by all_goals simp only [weight]; omega

/-- The values of arguments, from left to right. -/
def evaluateArguments (w : World) (available : Definitions) (shown : Nat) :
    List (Argument Expr) → Evaluating (List (Argument Value))
  | [] => pure []
  | ⟨name, value⟩ :: rest => do
    let first ← evaluate w available shown value
    let others ← evaluateArguments w available shown rest
    pure (⟨name, first⟩ :: others)
termination_by args => weightDefinitions available + weightArguments args
decreasing_by all_goals simp only [weightArguments]; omega

/-- The value of a name: fixed, defined by the script, an input, or a line of a defined name. -/
def readName (w : World) (available : Definitions) (shown : Nat) (name : String) :
    Evaluating Value := do
  if (w.fixed? name shown).isSome || w.strategy.definitions.contains name then
    readDefined w available shown name
  else
    match w.strategy.inputs[name]? with
    | some input => pure (inputDefault input)
    | none =>
      match splitLast name with
      | none => pure .na
      | some (base, line) =>
        if w.strategy.definitions.contains base || w.overrides.contains base then
          let value ← readDefined w available shown base
          pure ((value.component? line).getD .na)
        else pure .na
termination_by weightDefinitions available + 1
decreasing_by all_goals omega

/-- The value of a name that is fixed or defined by the script.  A definition that is being read
already is absent. -/
def readDefined (w : World) (available : Definitions) (shown : Nat) (name : String) :
    Evaluating Value :=
  match w.fixed? name shown with
  | some value => pure value
  | none =>
    -- Without a definition to release, the name is the one being read.
    match _h : release? name available with
    | some (value, left) => evaluate w left shown value
    | none => pure .na
termination_by weightDefinitions available
decreasing_by
  have := weight_release? _h
  omega

end

/-- All definitions of the strategy. -/
def World.definitions (w : World) : Definitions :=
  w.strategy.definitions.toList

/-- The value of an expression on the oldest `shown` bars. -/
def World.valueOn (w : World) (shown : Nat) (e : Expr) : Evaluating Value :=
  evaluate w w.definitions shown e

/-- The value of an expression on all bars. -/
def World.value (w : World) (e : Expr) : Evaluating Value :=
  w.valueOn w.bars.length e

/-- The value of a name on all bars. -/
def World.nameValue (w : World) (name : String) : Evaluating Value :=
  readName w w.definitions w.bars.length name

end Barscript.Session
