import Barscript.Script.Grammar

/-!
# Statements

A script is read statement by statement.  What a statement is depends on its first token and, for
some, on the second; a token that starts no statement is passed over by itself, so scripts may hold
much that has no meaning here.  A fault inside a recognised statement is final.
-/

namespace Barscript.Script

/-- The statements of a script. -/
inductive Statement where
  /-- The language version, as it is written. -/
  | version (digits : String)
  /-- The script's declaration with its title and description. -/
  | declaration (args : List (Argument Expr))
  /-- A variable and its definition. -/
  | assignment (name : String) (value : Expr)
  /-- A condition for the lines that follow. -/
  | condition (test : Expr)
  /-- An input that no variable is bound to. -/
  | input (function : String) (args : List (Argument Expr))
  /-- An order: a rule for entering or leaving the market. -/
  | order (function : String) (args : List (Argument Expr))
  /-- An indicator call that stands alone. -/
  | indicator (call : Expr)
  /-- A token without meaning. -/
  | passedOver (token : Token)
deriving Repr

/-- What the names of inputs start with. -/
def inputMark : List Char := ['i', 'n', 'p', 'u', 't']

/-- What the names of orders start with. -/
def orderMark : List Char := ['s', 't', 'r', 'a', 't', 'e', 'g', 'y', '.']

/-- Whether a name starts with the given characters. -/
def hasMark (mark : List Char) (name : String) : Bool :=
  mark.isPrefixOf name.toList

/-- What follows the word `var`: a type name that is ignored, a name, a sign and the definition. -/
def variableDeclaration (c : Cursor) : Outcome Statement c.size :=
  have hskip : (c.leaving c.pending.tail).size ≤ c.size := by
    rw [Cursor.size_leaving, List.length_tail]; exact Nat.sub_le _ _
  if firstKind c.pending = .identifier ∧ firstKind c.pending.tail = .identifier then
    (declared (c.leaving c.pending.tail)).weaken hskip
  else declared c
where
  /-- The part behind the type name. -/
  declared (c : Cursor) : Outcome Statement c.size :=
    (c.expect .identifier "variable name").bind fun name rest h =>
      match rest.eat? .colonAssign with
      | some ⟨rest', h'⟩ =>
        ((expression rest').map (Statement.assignment name.value)).weaken (by omega)
      | none =>
        (rest.expect .assign "'='").bind fun _ rest' h' =>
          ((expression rest').map (Statement.assignment name.value)).weaken (by omega)

/-- The statement that starts with `token`, where `pending` are the tokens behind it. -/
def statement (token : Token) (c : Cursor) (pending : List Token)
    (h : c.pending = token :: pending) : Outcome Statement c.size :=
  have hsize : (c.leaving pending).size < c.size := Cursor.size_leaving_lt h
  let rest := c.leaving pending
  let isCall := firstKind pending = .leftParen
  match token.kind with
  | .versionPragma => .done (.version token.value) rest hsize
  | .keyword =>
    if token.value = "strategy" ∨ token.value = "indicator" then
      ((callArguments rest).map .declaration).weaken (Cursor.size_leaving_le h)
    else if token.value = "var" ∨ token.value = "varip" then
      (variableDeclaration rest).weaken (Cursor.size_leaving_le h)
    else if token.value = "if" then
      ((expression rest).map .condition).weaken (Cursor.size_leaving_le h)
    else .done (.passedOver token) rest hsize
  | .builtinFunction =>
    if hasMark inputMark token.value ∧ isCall then
      ((callArguments rest).map (.input token.value)).weaken (Cursor.size_leaving_le h)
    else if hasMark orderMark token.value ∧ isCall then
      ((callArguments rest).map (.order token.value)).weaken (Cursor.size_leaving_le h)
    else if hasMark indicatorMark token.value then (expression c).map .indicator
    else .done (.passedOver token) rest hsize
  | .identifier =>
    if firstKind pending = .assign ∨ firstKind pending = .colonAssign then
      ((expression (c.leaving pending.tail)).map (.assignment token.value)).weaken
        (Cursor.size_leaving_tail_le h)
    else .done (.passedOver token) rest hsize
  | _ => .done (.passedOver token) rest hsize

/-- The statements from the cursor to the end. -/
def statements (c : Cursor) : Except Fault (List Statement) :=
  match h : c.pending with
  | [] => .ok []
  | token :: pending =>
    match statement token c pending h with
    | .failed fault => .error fault
    | .done value rest _ => (statements rest).map (value :: ·)
termination_by c.size

/-- The statements of a source. -/
def statementsOf (source : String) : Except Fault (List Statement) :=
  statements (.ofSource source)

end Barscript.Script
