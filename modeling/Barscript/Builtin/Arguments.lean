import Barscript.Series.Value

/-!
# Evaluated arguments

The arguments of a call after evaluation, unnamed and named ones apart.  A builtin reads an
argument by a name, or else by a position; a number or length that is missing or makes no sense is
replaced by the builtin's default.
-/

namespace Barscript.Builtin

open Barscript.Series Barscript.Script

/-- The evaluated arguments of a call. -/
structure Arguments where
  positional : List Value
  named : List (String × Value)
deriving Repr, Inhabited

/-- The arguments of a call without any. -/
def Arguments.empty : Arguments :=
  ⟨[], []⟩

/-- Evaluated arguments in the order of the call. -/
def Arguments.ofList (args : List (Argument Value)) : Arguments :=
  { positional := Argument.positional args
    named := args.filterMap fun arg => arg.name.map fun name => (name, arg.value) }

/-- The first argument with one of the given names. -/
def Arguments.named? (args : Arguments) (names : List String) : Option Value :=
  (args.named.find? fun entry => names.contains entry.1).map Prod.snd

/-- The argument with one of the given names, or else the unnamed one at a position. -/
def Arguments.get? (args : Arguments) (index : Nat) (names : List String) : Option Value :=
  (args.named? names).or args.positional[index]?

/-- A finite number, or the default. -/
def Arguments.number (args : Arguments) (index : Nat) (names : List String) (default : Float) :
    Float :=
  match (args.get? index names).bind Value.number? with
  | some x => if isFinite x then x else default
  | none => default

/-- The length of a window: a finite number of at least one, rounded, or the default. -/
def Arguments.length (args : Arguments) (index : Nat) (names : List String) (default : Nat) : Nat :=
  match (args.get? index names).bind Value.number? with
  | some x => if isFinite x && 1.0 ≤ x then toCount x else default
  | none => default

/-- A column of `bars` bars. -/
def Arguments.column? (args : Arguments) (index : Nat) (names : List String) (bars : Nat) :
    Option Column :=
  (args.get? index names).bind (Value.column? bars)

/-- A plain number, as a length is written. -/
def isNumber : Value → Bool
  | .number _ => true
  | _ => false

/-- How many unnamed arguments at the front stand for columns rather than lengths.  Absent values
count, so that they can make the result absent. -/
def Arguments.leadingSources (args : Arguments) : Nat :=
  (args.positional.takeWhile fun v => !isNumber v).length

/-- The names of the column that an indicator is computed from. -/
def sourceNames : List String :=
  ["source", "src"]

/-- Whether an optional source is given. -/
def Arguments.hasSource (args : Arguments) : Bool :=
  (args.named? sourceNames).isSome || 2 ≤ args.positional.length || 1 ≤ args.leadingSources

/-- The position of the length behind an optional source. -/
def Arguments.lengthSlot (args : Arguments) : Nat :=
  if args.hasSource && (args.named? sourceNames).isNone then 1 else 0

end Barscript.Builtin
