import Barscript.Script.Expr
import Barscript.Series.Column
import Barscript.Text.Blank
import Barscript.Decimal.Reader

/-!
# Values

What an expression evaluates to: nothing at all, a scalar, a text, a column, or the named columns
of an indicator with several lines, the main one first.  Operations work bar by bar.  A scalar
beside a column counts as a constant column; two columns of unequal length are aligned at the
newest bar.  Several named columns stand for the main one wherever one column is wanted.
-/

namespace Barscript.Series

open Barscript.Script

/-- The columns of an indicator with several lines, the main one first. -/
abbrev Outputs := List (String × Column)

/-- The values of expressions. -/
inductive Value where
  /-- Absent: an unknown name, a failed lookup. -/
  | na
  | number (x : Float)
  | bool (b : Bool)
  | text (s : String)
  | series (xs : Column)
  | tuple (outputs : Outputs)
deriving Repr, Inhabited

/-- The value of a constant. -/
def Value.ofLiteral : Literal → Value
  | .number x => .number x
  | .text s => .text s
  | .bool b => .bool b

/-- The value that a setting spells: a truth value, a number, or else a text. -/
def Value.ofText (text : String) : Value :=
  let word := Text.trim text.toList
  if word = ['t', 'r', 'u', 'e'] then .bool true
  else if word = ['f', 'a', 'l', 's', 'e'] then .bool false
  else match Decimal.read? word with
    | some x => .number x
    | none => .text (String.ofList word)

/-- The absent value. -/
def Value.isNa : Value → Bool
  | .na => true
  | _ => false

/-! ## Readings -/

/-- Whether a column is true at its newest bar. -/
def lastIsTrue (xs : Column) : Bool :=
  (xs.getLast?.map isTrue).getD false

/-- Whether a column is true at a bar. -/
def isTrueAt (xs : Column) (index : Nat) : Bool :=
  (xs[index]?.map isTrue).getD false

/-- The main column of several. -/
def mainOutput? (outputs : Outputs) : Option Column :=
  outputs.head?.map Prod.snd

/-- Truth as a condition; a column is judged by its newest bar. -/
def Value.isTruthy : Value → Bool
  | .na => false
  | .number x => isTrue x
  | .bool b => b
  | .text s => !s.isEmpty
  | .series xs => lastIsTrue xs
  | .tuple outputs => ((mainOutput? outputs).map lastIsTrue).getD false

/-- Truth at a bar; a scalar is the same at all bars. -/
def Value.truthyAt (v : Value) (index : Nat) : Bool :=
  match v with
  | .series xs => isTrueAt xs index
  | .tuple outputs => ((mainOutput? outputs).map (isTrueAt · index)).getD false
  | v => v.isTruthy

/-- The value as one number: a scalar, or the newest number of a column. -/
def Value.number? : Value → Option Float
  | .number x => some x
  | .bool b => some (flag b)
  | .series xs => xs.getLast?
  | .tuple outputs => (mainOutput? outputs).bind List.getLast?
  | .na | .text _ => none

/-- The value as a text. -/
def Value.text? : Value → Option String
  | .text s => some s
  | _ => none

/-- The value as a column of `length` bars; a scalar is repeated. -/
def Value.column? (length : Nat) : Value → Option Column
  | .number x => some (List.replicate length x)
  | .bool b => some (List.replicate length (flag b))
  | .series xs => some xs
  | .tuple outputs => mainOutput? outputs
  | .na | .text _ => none

/-- Several columns reduced to the main one. -/
def Value.primary : Value → Value
  | .tuple outputs =>
    match mainOutput? outputs with
    | some xs => .series xs
    | none => .na
  | v => v

/-- One of several columns by its name. -/
def Value.component? (name : String) : Value → Option Value
  | .tuple outputs => (outputs.find? fun output => output.1 == name).map fun output =>
      .series output.2
  | _ => none

/-- The value on the oldest `length` bars. -/
def Value.truncate (length : Nat) : Value → Value
  | .series xs => .series (xs.take length)
  | .tuple outputs => .tuple (outputs.map fun output => (output.1, output.2.take length))
  | v => v

/-- The value as a scalar, if it is one. -/
def Value.scalar? : Value → Option Float
  | .number x => some x
  | .bool b => some (flag b)
  | _ => none

/-! ## Operations -/

/-- A column brought to `length` bars by undefined bars in front. -/
def alignNewest (length : Nat) (xs : Column) : Column :=
  List.replicate (length - xs.length) undefined ++ xs

/-- The number of bars that two operands have together, if one of them has bars at all. -/
def commonLength? : Value → Value → Option Nat
  | .series xs, .series ys => some (max xs.length ys.length)
  | .series xs, _ => some xs.length
  | _, .series ys => some ys.length
  | _, _ => none

/-- Two numeric values combined bar by bar. -/
def Value.zipWith (f : Float → Float → Float) (left right : Value) : Value :=
  let left := left.primary
  let right := right.primary
  match left.scalar?, right.scalar? with
  | some a, some b => .number (f a b)
  | _, _ =>
    match commonLength? left right with
    | none => .na
    | some length =>
      match left.column? length, right.column? length with
      | some xs, some ys =>
        .series (List.zipWith f (alignNewest length xs) (alignNewest length ys))
      | _, _ => .na

/-- A numeric value changed bar by bar. -/
def Value.mapWith (f : Float → Float) (v : Value) : Value :=
  match v.primary with
  | .number x => .number (f x)
  | .bool b => .number (f (flag b))
  | .series xs => .series (xs.map f)
  | _ => .na

/-- An operator on two numbers.  Comparisons with an undefined number are false, and so is the
inequality.  The remainder has the sign of the divisor. -/
def applyOp (op : BinaryOp) (a b : Float) : Float :=
  match op with
  | .add => a + b
  | .sub => a - b
  | .mul => a * b
  | .div => a / b
  | .mod => a - b * (a / b).floor
  | .eq => flag (a == b)
  | .ne => flag (!a.isNaN && !b.isNaN && a != b)
  | .gt => flag (b < a)
  | .lt => flag (a < b)
  | .ge => flag (b ≤ a)
  | .le => flag (a ≤ b)
  | .and => flag (isTrue a && isTrue b)
  | .or => flag (isTrue a || isTrue b)

/-- A logical operator on scalars has a truth value. -/
def Value.asLogical (op : BinaryOp) : Value → Value
  | .number x => if op.isLogical then .bool (isTrue x) else .number x
  | v => v

/-- A text is equal to the same text only and unequal to everything else that is present. -/
def textOp (op : BinaryOp) (same : Bool) : Value :=
  match op with
  | .eq => .bool same
  | .ne => .bool (!same)
  | _ => .na

/-- An operator between two values.  With an absent operand the result is absent. -/
def Value.binary (op : BinaryOp) (left right : Value) : Value :=
  match left.primary, right.primary with
  | .na, _ => .na
  | _, .na => .na
  | .text a, .text b => textOp op (a == b)
  | .text _, _ => textOp op false
  | _, .text _ => textOp op false
  | l, r => (Value.zipWith (applyOp op) l r).asLogical op

/-- An operator in front of a value.  The negation of an undefined number is undefined. -/
def Value.unary (op : UnaryOp) (operand : Value) : Value :=
  match op, operand.primary with
  | .neg, .number x => .number (-x)
  | .neg, .bool b => .number (-(flag b))
  | .neg, .series xs => .series (xs.map fun x => -x)
  | .not, .number x => if x.isNaN then .na else .bool (!isTrue x)
  | .not, .bool b => .bool (!b)
  | .not, .series xs => .series (xs.map fun x => if x.isNaN then undefined else flag (!isTrue x))
  | _, _ => .na

/-- The value some bars back; a scalar has no history and stays. -/
def Value.lag (offset : Nat) (v : Value) : Value :=
  match v.primary with
  | .series xs => .series (shift xs offset)
  | v => v

end Barscript.Series
