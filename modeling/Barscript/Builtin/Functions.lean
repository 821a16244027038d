import Barscript.Builtin.Arguments

/-!
# Functions by name

The builtins that work on values bar by bar without looking at other bars: mathematics, the
treatment of undefined values, and inputs, which evaluate to their default.
-/

namespace Barscript.Builtin

open Barscript.Series

/-- A function of one number. -/
def ofNumber (args : Arguments) (f : Float → Float) : Value :=
  match args.get? 0 ["number", "x"] with
  | some v => v.mapWith f
  | none => .na

/-- The larger of two numbers, undefined when one of them is. -/
def strictLarger (x y : Float) : Float :=
  if x.isNaN || y.isNaN then undefined else larger x y

/-- The smaller of two numbers, undefined when one of them is. -/
def strictSmaller (x y : Float) : Float :=
  if x.isNaN || y.isNaN then undefined else smaller x y

/-- A choice among all unnamed arguments, from left to right. -/
def ofAll (args : Arguments) (pick : Float → Float → Float) : Value :=
  match args.positional with
  | [] => .na
  | first :: rest => rest.foldl (Value.zipWith pick) first

/-- A power of two given values. -/
def power (args : Arguments) : Value :=
  match args.get? 0 ["base"], args.get? 1 ["exponent"] with
  | some base, some exponent => Value.zipWith Float.pow base exponent
  | _, _ => .na

/-- The source with a replacement for what is undefined or absent. -/
def replaceUndefined (args : Arguments) : Value :=
  let replacement := args.number 1 ["replacement"] 0.0
  match args.get? 0 ["source"] with
  | none | some .na => .number replacement
  | some v => v.mapWith fun x => if x.isNaN then replacement else x

/-- Whether a value is undefined or absent. -/
def testUndefined (args : Arguments) : Value :=
  match args.get? 0 ["x"] with
  | none | some .na => .bool true
  | some (.number x) => .bool x.isNaN
  | some v => v.mapWith fun x => flag x.isNaN

/-- What the names of typed inputs start with. -/
def typedInputMark : List Char := ['i', 'n', 'p', 'u', 't', '.']

/-- Whether a name declares an input. -/
def isInputName (name : String) : Bool :=
  name == "input" || typedInputMark.isPrefixOf name.toList

/-- The value of a function; nothing for an unknown name. -/
def function? (name : String) (args : Arguments) : Option Value :=
  match name with
  | "math.abs" => some (ofNumber args Float.abs)
  | "math.round" => some (ofNumber args Float.round)
  | "math.floor" => some (ofNumber args Float.floor)
  | "math.ceil" => some (ofNumber args Float.ceil)
  | "math.sqrt" => some (ofNumber args Float.sqrt)
  | "math.log" => some (ofNumber args Float.log)
  | "math.exp" => some (ofNumber args Float.exp)
  | "math.pow" => some (power args)
  | "math.max" => some (ofAll args strictLarger)
  | "math.min" => some (ofAll args strictSmaller)
  | "nz" => some (replaceUndefined args)
  | "na" => some (testUndefined args)
  | _ => if isInputName name then some ((args.get? 0 ["defval"]).getD .na) else none

end Barscript.Builtin
