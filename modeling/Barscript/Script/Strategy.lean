import Std.Data.ExtTreeMap
import Barscript.Script.Statement
import Barscript.Trading.Direction

/-!
# Strategies

A strategy is what the statements of a script add up to: its name, its inputs with their defaults,
its variables with their definitions, every indicator call, and the rules for entering and leaving
the market.  `Strategy.add` says what one statement contributes; a strategy is the sum over its
script (`Strategy.ofStatements`).  Where a name is given twice the later statement wins.
-/

namespace Barscript.Script

open Barscript.Trading

/-- Names bound to values, in the order of the names. -/
abbrev Bindings (α : Type) := Std.ExtTreeMap String α

/-- An input: a value that a user may replace before a run. -/
structure Input where
  /-- The builtin that declares it. -/
  kind : String
  default : Option Literal
  title : Option String
  /-- The other named arguments that are constants. -/
  params : List (String × Literal)
deriving Repr

/-- A rule for entering the market. -/
structure Entry where
  id : Option String
  function : String
  direction : Direction
  /-- The condition under which the rule applies; without one it always does. -/
  guard : Option Expr
  quantity : Option Expr
  stop : Option Expr
  target : Option Expr
deriving Repr

/-- A rule for leaving the market. -/
structure Exit where
  function : String
  id : Option String
  /-- The condition under which the rule applies; without one it always does. -/
  guard : Option Expr
deriving Repr

/-- Whether the rule speaks of all open trades. -/
def Exit.isCloseAll (e : Exit) : Bool :=
  e.function == "strategy.close_all"

/-- What a script says. -/
structure Strategy where
  version : Nat := 5
  name : String := ""
  description : String := ""
  inputs : Bindings Input := ∅
  definitions : Bindings Expr := ∅
  /-- Every indicator call, in the order in which the calls are completed. -/
  indicators : List Expr := []
  entries : List Entry := []
  exits : List Exit := []
  /-- The conditions of the script, by number. -/
  conditions : Bindings Expr := ∅

/-- The strategy of an empty script. -/
def Strategy.empty : Strategy := {}

/-! ## What one statement contributes -/

/-- The largest version number plus one; a larger number is no version. -/
def versionLimit : Nat := Nat.pow 2 32

/-- The name that a declaration gives: its first text among the unnamed arguments and the title. -/
def declaredName? (args : List (Argument Expr)) : Option String :=
  (args.filter fun arg => arg.name.isNone || arg.name == some "title").findSome? fun arg =>
    arg.value.text?

/-- The input that a call declares.  Its default is the argument `defval` or the first unnamed
argument that is a constant; its title is the argument `title` or the second unnamed one. -/
def Input.ofCall (kind : String) (args : List (Argument Expr)) : Input :=
  let positional := Argument.positional args
  { kind := kind
    default := ((Argument.named? args "defval").bind Expr.constant?).or
      (positional.findSome? Expr.constant?)
    title := ((Argument.named? args "title").or positional[1]?).bind Expr.text?
    params := args.filterMap fun arg => do
      let name ← arg.name
      if name = "defval" ∨ name = "title" then none
      else (arg.value.constant?).map fun value => (name, value) }

/-- The direction that an argument selects: only an explicit `short` is short. -/
def directionOf : Expr → Direction
  | .literal (.text s) => if s.toList.map Char.toLower = "short".toList then .short else .long
  | .ref name => if name = "strategy.short" then .short else .long
  | _ => .long

/-- What an order does. -/
inductive OrderKind where
  | entry
  | exit
deriving DecidableEq, Repr

/-- The orders that are rules for entering or leaving; the others are read and have no effect. -/
def OrderKind.of? (function : String) : Option OrderKind :=
  if function = "strategy.entry" then some .entry
  else if function = "strategy.exit" ∨ function = "strategy.close" ∨
      function = "strategy.close_all" then some .exit
  else none

/-- The argument of a given name, or else the unnamed one at a given position. -/
def Argument.pick? {α : Type} (args : List (Argument α)) (name : String) (index : Nat) : Option α :=
  (Argument.named? args name).or (Argument.positional args)[index]?

/-- The rule for entering that a call states. -/
def Entry.ofCall (function : String) (args : List (Argument Expr)) : Entry :=
  { id := (Argument.pick? args "id" 0).bind Expr.text?
    function := function
    direction := ((Argument.pick? args "direction" 1).map directionOf).getD .long
    guard := Argument.named? args "when"
    quantity := Argument.pick? args "qty" 2
    target := Argument.pick? args "limit" 3
    stop := Argument.pick? args "stop" 4 }

/-- The rule for leaving that a call states. -/
def Exit.ofCall (function : String) (args : List (Argument Expr)) : Exit :=
  { function := function
    id := (Argument.pick? args "id" 0).bind Expr.text?
    guard := Argument.named? args "when" }

/-- The strategy with an input added. -/
def Strategy.withInput (s : Strategy) (name : String) (input : Input) : Strategy :=
  { s with inputs := s.inputs.insert name input }

/-- The strategy with indicator calls added. -/
def Strategy.withIndicators (s : Strategy) (calls : List Expr) : Strategy :=
  { s with indicators := s.indicators ++ calls }

/-- The strategy with a variable defined.  A variable defined by a call of an input function
declares an input of the same name. -/
def Strategy.define (s : Strategy) (name : String) (value : Expr) : Strategy :=
  let s := match value with
    | .call _ function args =>
      if hasMark inputMark function then s.withInput name (Input.ofCall function args) else s
    | _ => s
  { s with definitions := s.definitions.insert name value }

/-- The strategy with an order added. -/
def Strategy.withOrder (s : Strategy) (function : String) (args : List (Argument Expr)) :
    Strategy :=
  match OrderKind.of? function with
  | some .entry => { s with entries := s.entries ++ [Entry.ofCall function args] }
  | some .exit => { s with exits := s.exits ++ [Exit.ofCall function args] }
  | none => s

/-- The strategy with one more statement. -/
def Strategy.add (s : Strategy) : Statement → Strategy
  | .version digits =>
    match Decimal.readNat? digits.toList with
    | some version => if version < versionLimit then { s with version := version } else s
    | none => s
  | .declaration args =>
    let s := s.withIndicators (argumentIndicators args)
    { s with
      name := (declaredName? args).getD s.name
      description := ((Argument.named? args "description").bind Expr.text?).getD s.description }
  | .assignment name value => (s.withIndicators value.indicatorCalls).define name value
  | .condition test =>
    let s := s.withIndicators test.indicatorCalls
    { s with conditions :=
        s.conditions.insert ("condition_" ++ toString s.conditions.size) test }
  | .input function args =>
    let input := Input.ofCall function args
    (s.withIndicators (argumentIndicators args)).withInput
      (input.title.getD ("input_" ++ toString s.inputs.size)) input
  | .order function args => (s.withIndicators (argumentIndicators args)).withOrder function args
  | .indicator call => s.withIndicators call.indicatorCalls
  | .passedOver _ => s

/-- The strategy that some statements add up to. -/
def Strategy.ofStatements (all : List Statement) : Strategy :=
  all.foldl Strategy.add .empty

/-- The strategy of a source, or what is wrong with the source. -/
def Strategy.parse (source : String) : Except SyntaxError Strategy :=
  match statementsOf source with
  | .ok all => .ok (.ofStatements all)
  | .error fault => .error fault.toError

end Barscript.Script
