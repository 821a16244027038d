import Barscript.Decimal.Text

/-!
# Expressions

The expressions of a script and their printed form.  Every call carries an identity, its number in
the order in which calls are completed while reading; two calls that look alike stay apart by it.
`printed` puts binary operations and ternaries inside parentheses, so the printed form shows the
structure without regard to precedence.
-/

namespace Barscript.Script

open Barscript.Decimal

/-- A constant in a script. -/
inductive Literal where
  | number (x : Float)
  | text (s : String)
  | bool (b : Bool)
deriving Repr, Inhabited

/-- The operators between two operands. -/
inductive BinaryOp where
  | add | sub | mul | div | mod
  | eq | ne | gt | lt | ge | le
  | and | or
deriving DecidableEq, Repr

/-- The operators in front of one operand. -/
inductive UnaryOp where
  | neg
  | not
deriving DecidableEq, Repr

/-- An argument of a call, with the name it was given by, if any. -/
structure Argument (α : Type) where
  name : Option String
  value : α
deriving Repr

/-- Expressions. -/
inductive Expr where
  | literal (value : Literal)
  /-- A name: a column, a variable, an input. -/
  | ref (name : String)
  /-- A call with its identity. -/
  | call (id : Nat) (name : String) (args : List (Argument Expr))
  | binary (op : BinaryOp) (left right : Expr)
  | unary (op : UnaryOp) (operand : Expr)
  | ternary (condition whenTrue whenFalse : Expr)
  /-- The value of a name some bars back. -/
  | indexed (name : String) (offset : Expr)
deriving Repr, Inhabited

/-- The spelling of an operator. -/
def BinaryOp.symbol : BinaryOp → List Char
  | .add => ['+']
  | .sub => ['-']
  | .mul => ['*']
  | .div => ['/']
  | .mod => ['%']
  | .eq => ['=', '=']
  | .ne => ['!', '=']
  | .gt => ['>']
  | .lt => ['<']
  | .ge => ['>', '=']
  | .le => ['<', '=']
  | .and => ['a', 'n', 'd']
  | .or => ['o', 'r']

/-- The operators that compare. -/
def BinaryOp.isComparison : BinaryOp → Bool
  | .eq | .ne | .gt | .lt | .ge | .le => true
  | _ => false

/-- The operators whose result on scalars is a boolean. -/
def BinaryOp.isLogical (op : BinaryOp) : Bool :=
  op.isComparison || op == .and || op == .or

/-- The spelling of an operator in front of its operand. -/
def UnaryOp.symbol : UnaryOp → List Char
  | .neg => ['-']
  | .not => ['n', 'o', 't', ' ']

/-- The printed form of a truth value. -/
def boolText (b : Bool) : List Char :=
  if b then ['t', 'r', 'u', 'e'] else ['f', 'a', 'l', 's', 'e']

/-- The printed form of a constant. -/
def Literal.printed : Literal → List Char
  | .number x => plain x
  | .text s => '"' :: s.toList ++ ['"']
  | .bool b => boolText b

mutual

/-- The printed form of an expression. -/
def Expr.printed : Expr → List Char
  | .literal value => value.printed
  | .ref name => name.toList
  | .call _ name args => name.toList ++ '(' :: printedArguments args ++ [')']
  | .binary op left right => '(' :: left.printed ++ ' ' :: op.symbol ++ ' ' :: right.printed ++ [')']
  | .unary op operand => op.symbol ++ operand.printed
  | .ternary condition whenTrue whenFalse =>
    '(' :: condition.printed ++ [' ', '?', ' '] ++ whenTrue.printed ++ [' ', ':', ' '] ++
      whenFalse.printed ++ [')']
  | .indexed name offset => name.toList ++ '[' :: offset.printed ++ [']']

/-- The printed form of a list of arguments. -/
def printedArguments : List (Argument Expr) → List Char
  | [] => []
  | [arg] => printedArgument arg
  | arg :: next :: rest => printedArgument arg ++ ',' :: ' ' :: printedArguments (next :: rest)

/-- The printed form of one argument. -/
def printedArgument : Argument Expr → List Char
  | ⟨some name, value⟩ => name.toList ++ '=' :: value.printed
  | ⟨none, value⟩ => value.printed

end

/-- The printed form as a string. -/
def Expr.render (e : Expr) : String :=
  String.ofList e.printed

/-- The printed form of a constant as a string. -/
def Literal.render (value : Literal) : String :=
  String.ofList value.printed

/-- The constant that an expression is, if it is one. -/
def Expr.literal? : Expr → Option Literal
  | .literal value => some value
  | _ => none

/-- The text that an expression spells out, if it is a text. -/
def Expr.text? : Expr → Option String
  | .literal (.text s) => some s
  | _ => none

/-- The constant that an expression states: a literal, or a number with a minus in front. -/
def Expr.constant? : Expr → Option Literal
  | .literal value => some value
  | .unary .neg (.literal (.number x)) => some (.number (-x))
  | _ => none

/-! ## Indicator calls -/

/-- What the names of indicators start with. -/
def indicatorMark : List Char := ['t', 'a', '.']

/-- Whether a call of this name computes an indicator. -/
def isIndicatorName (name : String) : Bool :=
  indicatorMark.isPrefixOf name.toList

mutual

/-- The indicator calls inside an expression, inner calls before the calls around them. -/
def Expr.indicatorCalls : Expr → List Expr
  | .literal _ => []
  | .ref _ => []
  | .call id name args =>
    argumentIndicators args ++ (if isIndicatorName name then [.call id name args] else [])
  | .binary _ left right => left.indicatorCalls ++ right.indicatorCalls
  | .unary _ operand => operand.indicatorCalls
  | .ternary condition whenTrue whenFalse =>
    condition.indicatorCalls ++ whenTrue.indicatorCalls ++ whenFalse.indicatorCalls
  | .indexed _ offset => offset.indicatorCalls

/-- The indicator calls inside a list of arguments. -/
def argumentIndicators : List (Argument Expr) → List Expr
  | [] => []
  | ⟨_, value⟩ :: rest => value.indicatorCalls ++ argumentIndicators rest

end

/-- The value of the first argument of a given name. -/
def Argument.named? {α : Type} (args : List (Argument α)) (name : String) : Option α :=
  (args.find? fun arg => arg.name == some name).map Argument.value

/-- The values of the arguments without a name. -/
def Argument.positional {α : Type} (args : List (Argument α)) : List α :=
  (args.filter fun arg => arg.name.isNone).map Argument.value

end Barscript.Script
