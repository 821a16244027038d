import Barscript.Script.Cursor
import Barscript.Decimal.Reader

/-!
# Expressions in a script

The grammar of expressions, from the loosest binding to the tightest: the ternary, five levels of
binary operators that group to the left, the operators in front of an operand, and the primary
expressions.  A newline ends an expression, except inside parentheses and around the arguments of
a call.

Every rule either reads a token or hands on to a rule of lower rank; twenty ranks are enough, so
twenty times the number of tokens left plus the rank bounds the recursion.

An argument that is no expression at all, such as a bracketed list of options, is dropped: reading
goes on at the comma or closing parenthesis that ends it.  Any other fault is final.
-/

namespace Barscript.Script

open Barscript.Decimal

/-- The levels of binary operators. -/
inductive Level where
  | disjunction
  | conjunction
  | comparison
  | additive
  | multiplicative
deriving DecidableEq, Repr

/-- The level that binds next tighter; `none` above the operators in front of an operand. -/
def Level.tighter? : Level → Option Level
  | .disjunction => some .conjunction
  | .conjunction => some .comparison
  | .comparison => some .additive
  | .additive => some .multiplicative
  | .multiplicative => none

/-- The number of levels that bind at most as loosely. -/
def Level.height : Level → Nat
  | .disjunction => 5
  | .conjunction => 4
  | .comparison => 3
  | .additive => 2
  | .multiplicative => 1

theorem Level.height_le (level : Level) : level.height ≤ 5 := by
  cases level <;> decide

theorem Level.height_tighter? {level next : Level} (h : level.tighter? = some next) :
    next.height < level.height := by
  cases level <;> simp only [Level.tighter?, Option.some.injEq, reduceCtorEq] at h <;>
    subst h <;> decide

/-- The operator of a level that a token stands for. -/
def Level.operator? : Level → TokenKind → Option BinaryOp
  | .disjunction, .or => some .or
  | .conjunction, .and => some .and
  | .comparison, .equal => some .eq
  | .comparison, .notEqual => some .ne
  | .comparison, .greater => some .gt
  | .comparison, .less => some .lt
  | .comparison, .greaterEqual => some .ge
  | .comparison, .lessEqual => some .le
  | .additive, .plus => some .add
  | .additive, .minus => some .sub
  | .multiplicative, .star => some .mul
  | .multiplicative, .slash => some .div
  | .multiplicative, .percent => some .mod
  | _, _ => none

/-- The operator in front of an operand that a token stands for. -/
def unaryOperator? : TokenKind → Option UnaryOp
  | .minus => some .neg
  | .not => some .not
  | _ => none

/-- Whether a token is a name in an expression.  Of the keywords only `na` is. -/
def Token.isName (t : Token) : Bool :=
  match t.kind with
  | .identifier | .builtinVariable | .builtinFunction => true
  | .keyword => t.value == "na"
  | _ => false

/-- Whether a name may be followed by an index. -/
def Token.isIndexable (t : Token) : Bool :=
  t.kind == .identifier || t.kind == .builtinVariable

/-! ## Arguments that are no expressions -/

/-- The tokens from the end of the current argument on: the comma or closing parenthesis outside
all brackets opened since `depth` were open.  There is none when the call is never closed. -/
def skipArgument : Nat → List Token → Option (List Token)
  | _, [] => none
  | depth, token :: rest =>
    match token.kind with
    | .leftParen | .leftBracket => skipArgument (depth + 1) rest
    | .rightParen => if depth = 0 then some (token :: rest) else skipArgument (depth - 1) rest
    | .rightBracket => if depth = 0 then none else skipArgument (depth - 1) rest
    | .comma => if depth = 0 then some (token :: rest) else skipArgument depth rest
    | _ => skipArgument depth rest

theorem length_skipArgument {depth : Nat} {pending left : List Token}
    (h : skipArgument depth pending = some left) : left.length ≤ pending.length := by
  fun_induction skipArgument depth pending <;> simp_all <;> omega

/-- The name of an argument and the tokens of its value: a word and an equals sign in front. -/
def splitName : List Token → Option String × List Token
  | word :: sign :: rest =>
    if (word.kind = .identifier ∨ word.kind = .keyword) ∧ sign.kind = .assign then
      (some word.value, rest)
    else (none, word :: sign :: rest)
  | pending => (none, pending)

theorem length_splitName (pending : List Token) :
    (splitName pending).2.length ≤ pending.length := by
  unfold splitName
  split
  · split <;> simp; omega
  · simp

/-! ## The grammar -/

mutual

/-- An expression: a disjunction, or a ternary that starts with one. -/
def expression (c : Cursor) : Outcome Expr c.size :=
  (chain .disjunction c).bind fun condition rest h =>
    match rest.eat? .question with
    | none => .done condition rest h
    | some ⟨rest₁, h₁⟩ =>
      (expression rest₁).bind fun whenTrue rest₂ h₂ =>
        (rest₂.expect .colon "':'").bind fun _ rest₃ h₃ =>
          (expression rest₃).bind fun whenFalse rest₄ h₄ =>
            .done (.ternary condition whenTrue whenFalse) rest₄ (by omega)
termination_by 20 * c.size + 14
decreasing_by
  · simp only [Level.height]; omega
  · omega
  · omega

/-- Operands of one level joined by its operators. -/
def chain (level : Level) (c : Cursor) : Outcome Expr c.size :=
  (operand level c).bind fun left rest h => (chainRest level left rest).weaken h
termination_by 20 * c.size + 2 * level.height + 3

/-- An operand of a level: a chain of the next tighter level. -/
def operand (level : Level) (c : Cursor) : Outcome Expr c.size :=
  match _h : level.tighter? with
  | some next => chain next c
  | none => unary c
termination_by 20 * c.size + 2 * level.height + 2
decreasing_by
  · have := Level.height_tighter? _h
    omega
  · omega

/-- The operators and operands that follow the operands read so far, grouped to the left. -/
def chainRest (level : Level) (left : Expr) (c : Cursor) : Outcome Expr (c.size + 1) :=
  match h : c.pending with
  | [] => .done left c (Nat.lt_succ_self _)
  | token :: pending =>
    match level.operator? token.kind with
    | none => .done left c (Nat.lt_succ_self _)
    | some op =>
      have hsize : (c.leaving pending).size < c.size := Cursor.size_leaving_lt h
      (operand level (c.leaving pending)).bind fun right rest hrest =>
        (chainRest level (.binary op left right) rest).weaken (by omega)
termination_by 20 * c.size + 1
decreasing_by
  · have := level.height_le
    omega
  · omega

/-- A primary expression behind any number of operators. -/
def unary (c : Cursor) : Outcome Expr c.size :=
  match h : c.pending with
  | [] => primary c
  | token :: pending =>
    match unaryOperator? token.kind with
    | none => primary c
    | some op =>
      have _hsize : (c.leaving pending).size < c.size := Cursor.size_leaving_lt h
      ((unary (c.leaving pending)).map fun inner => .unary op inner).weaken
        (Cursor.size_leaving_le h)
termination_by 20 * c.size + 1

/-- A constant, a parenthesised expression, a call, an index or a name. -/
def primary (c : Cursor) : Outcome Expr c.size :=
  match h : c.pending with
  | [] => .failed (c.fault .unexpected)
  | token :: pending =>
    have hsize : (c.leaving pending).size < c.size := Cursor.size_leaving_lt h
    if token.kind = .number then
      match readText? token.value with
      | some x => .done (.literal (.number x)) (c.leaving pending) hsize
      | none => .failed (c.fault .badNumber)
    else if token.kind = .string then
      .done (.literal (.text token.value)) (c.leaving pending) hsize
    else if token.kind = .boolean then
      .done (.literal (.bool (token.value == "true"))) (c.leaving pending) hsize
    else if token.kind = .leftParen then
      have _hskip := (c.leaving pending).size_skipNewlines
      (expression (c.leaving pending).skipNewlines).bind fun inner rest hrest =>
        ((rest.skipNewlines.expect .rightParen "')'").map fun _ => inner).weaken
          (Cursor.size_behind_group h hrest)
    else if token.isName then
      if firstKind pending = .leftParen then
        (callArguments (c.leaving pending)).bind fun args rest hrest =>
          .done (.call rest.nextId token.value args) rest.countCall
            (Cursor.size_behind_call h hrest)
      else if token.isIndexable ∧ firstKind pending = .leftBracket then
        have _htail := Cursor.size_leaving_tail_lt h
        (expression (c.leaving pending.tail)).bind fun offset rest hrest =>
          ((rest.expect .rightBracket "']'").map fun _ => .indexed token.value offset).weaken
            (Cursor.size_behind_index h hrest)
      else .done (.ref token.value) (c.leaving pending) hsize
    else .failed (c.fault .unexpected)
termination_by 20 * c.size + 0

/-- The arguments of a call with their parentheses. -/
def callArguments (c : Cursor) : Outcome (List (Argument Expr)) c.size :=
  (c.expect .leftParen "'('").bind fun _ rest h => (arguments true rest).weaken (Nat.le_of_lt h)
termination_by 20 * c.size + 0

/-- The arguments up to the closing parenthesis.  All but the first need a comma in front; a comma
may stand behind the last. -/
def arguments (first : Bool) (c : Cursor) : Outcome (List (Argument Expr)) c.size :=
  have hskip := c.size_skipNewlines
  match c.skipNewlines.eat? .rightParen with
  | some ⟨rest, h⟩ => .done [] rest (by omega)
  | none =>
    if first then (argument c.skipNewlines).weaken hskip
    else
      (c.skipNewlines.expect .comma "',' or ')'").bind fun _ rest h =>
        have hskip' := rest.size_skipNewlines
        match rest.skipNewlines.eat? .rightParen with
        | some ⟨rest', h'⟩ => .done [] rest' (by omega)
        | none => (argument rest.skipNewlines).weaken (by omega)
termination_by 20 * c.size + if first then 17 else 15
decreasing_by
  · simp only [*, if_true]; omega
  · split <;> omega

/-- An argument and those behind it. -/
def argument (c : Cursor) : Outcome (List (Argument Expr)) c.size :=
  have hstart : (c.leaving (splitName c.pending).2).size ≤ c.size := length_splitName c.pending
  match expression (c.leaving (splitName c.pending).2) with
  | .done value rest h =>
    ((arguments false rest).map fun args => ⟨(splitName c.pending).1, value⟩ :: args).weaken
      (by omega)
  | .failed fault =>
    -- An argument in which an operand is missing is dropped, up to the mark that ends it.
    if fault.complaint = .unexpected then
      match hleft : skipArgument 0 (splitName c.pending).2 with
      | none => .failed fault
      | some left =>
        have hless : left.length ≤ c.size :=
          Nat.le_trans (length_skipArgument hleft) (length_splitName c.pending)
        (arguments false ⟨left, c.finish, fault.nextId⟩).weaken hless
    else .failed fault
termination_by 20 * c.size + 16
decreasing_by
  · omega
  · simp only [if_false]; omega
  · simp only [if_false, Cursor.size] at *; omega

end

end Barscript.Script
