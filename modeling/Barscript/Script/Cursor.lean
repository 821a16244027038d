import Barscript.Script.Expr
import Barscript.Script.Lexeme
import Barscript.Text.Line

/-!
# Reading positions

While a script is read, a `Cursor` stands in front of the tokens that are left and counts the calls
completed so far.  Reading a phrase ends in an `Outcome`: a value together with a later cursor, or
a `Fault`.  The outcome carries the proof that fewer tokens are left than a bound, so every grammar
rule that recurses after reading something terminates.

A fault remembers the calls completed before it.  Reading may go on behind a fault (an argument
that is no expression is dropped), and the identities given out in the dropped part stay used.
-/

namespace Barscript.Script

/-- A position in a script that is being read. -/
structure Cursor where
  /-- The tokens that are left, without the end marker. -/
  pending : List Token
  /-- Where the script ends. -/
  finish : Place
  /-- The identity of the next call to be completed. -/
  nextId : Nat
deriving Repr

/-- How many tokens are left. -/
def Cursor.size (c : Cursor) : Nat :=
  c.pending.length

/-- The cursor in front of a whole script. -/
def Cursor.ofSource (source : String) : Cursor :=
  let all := tokens source
  { pending := all.dropLast, finish := (all.getLast?.map Token.place).getD .start, nextId := 0 }

/-- The cursor with other tokens left. -/
def Cursor.leaving (c : Cursor) (pending : List Token) : Cursor :=
  { c with pending := pending }

theorem Cursor.size_leaving (c : Cursor) (pending : List Token) :
    (c.leaving pending).size = pending.length := rfl

theorem Cursor.size_leaving_lt {c : Cursor} {token : Token} {rest : List Token}
    (h : c.pending = token :: rest) : (c.leaving rest).size < c.size := by
  simp [Cursor.size, Cursor.leaving, h]

theorem Cursor.size_leaving_le {c : Cursor} {token : Token} {rest : List Token}
    (h : c.pending = token :: rest) : (c.leaving rest).size ≤ c.size :=
  Nat.le_of_lt (size_leaving_lt h)

theorem Cursor.size_leaving_tail_lt {c : Cursor} {token : Token} {rest : List Token}
    (h : c.pending = token :: rest) : (c.leaving rest.tail).size < c.size := by
  simp only [Cursor.size, Cursor.leaving, h, List.length_tail, List.length_cons]
  omega

theorem Cursor.size_leaving_tail_le {c : Cursor} {token : Token} {rest : List Token}
    (h : c.pending = token :: rest) : (c.leaving rest.tail).size ≤ c.size :=
  Nat.le_of_lt (size_leaving_tail_lt h)

/-- The cursor after one more call is completed. -/
def Cursor.countCall (c : Cursor) : Cursor :=
  { c with nextId := c.nextId + 1 }

@[simp] theorem Cursor.size_countCall (c : Cursor) : c.countCall.size = c.size := rfl

/-- The token at the cursor; at the end it is the end marker. -/
def Cursor.peek (c : Cursor) : Token :=
  c.pending.headD ⟨.endOfInput, "", c.finish⟩

/-- The class of the token at the cursor. -/
def Cursor.kind (c : Cursor) : TokenKind :=
  c.peek.kind

/-- The class of the first of some tokens. -/
def firstKind : List Token → TokenKind
  | [] => .endOfInput
  | token :: _ => token.kind

/-! ## Faults -/

/-- What is wrong at a token. -/
inductive Complaint where
  /-- Something else has to stand here. -/
  | expected (what : String)
  /-- No expression starts with this token. -/
  | unexpected
  /-- The token looks like a number and is none. -/
  | badNumber
deriving DecidableEq, Repr

/-- A complaint about a token. -/
structure Fault where
  complaint : Complaint
  token : Token
  /-- The identity that the next call would have got. -/
  nextId : Nat
deriving Repr

/-- How a message quotes a token. -/
def Token.quoted (t : Token) : String :=
  if t.kind = .endOfInput ∨ t.kind = .newline then t.kind.description
  else "'" ++ t.value ++ "'"

/-- The message of a fault. -/
def Fault.message (f : Fault) : String :=
  match f.complaint with
  | .expected what => "expected " ++ what ++ ", found " ++ f.token.quoted
  | .unexpected => "unexpected token in expression, found " ++ f.token.quoted
  | .badNumber => "invalid number '" ++ f.token.value ++ "'"

/-- The fault at the cursor. -/
def Cursor.fault (c : Cursor) (complaint : Complaint) : Fault :=
  ⟨complaint, c.peek, c.nextId⟩

/-- A script that cannot be read, and why. -/
structure SyntaxError where
  reason : String
  place : Place
deriving DecidableEq, Repr

/-- The error that a fault amounts to. -/
def Fault.toError (f : Fault) : SyntaxError :=
  ⟨f.message, f.token.place⟩

/-- The error in one line. -/
def SyntaxError.message (e : SyntaxError) : String :=
  "parse error at line " ++ toString e.place.line ++ ", column " ++ toString e.place.column ++
    ": " ++ e.reason

/-- The error under the source line it is about, with a caret below its column. -/
def SyntaxError.inContext (e : SyntaxError) (source : String) : String :=
  let line := (Text.lines source.toList)[e.place.line - 1]?.getD []
  String.ofList (line ++ '\n' :: List.replicate (e.place.column - 1) ' ' ++ ['^', '\n']) ++
    e.message

/-! ## Outcomes -/

/-- The result of reading a phrase: on success fewer than `bound` tokens are left. -/
inductive Outcome (α : Type) (bound : Nat) where
  | done (value : α) (rest : Cursor) (shorter : rest.size < bound)
  | failed (fault : Fault)

/-- The same outcome under a weaker bound. -/
def Outcome.weaken {α : Type} {m n : Nat} (h : m ≤ n) : Outcome α m → Outcome α n
  | .done value rest shorter => .done value rest (Nat.lt_of_lt_of_le shorter h)
  | .failed fault => .failed fault

/-- Reading one phrase and then another. -/
def Outcome.bind {α β : Type} {m n : Nat} (x : Outcome α m)
    (next : α → (rest : Cursor) → rest.size < m → Outcome β n) : Outcome β n :=
  match x with
  | .done value rest shorter => next value rest shorter
  | .failed fault => .failed fault

/-- The outcome with its value changed. -/
def Outcome.map {α β : Type} {n : Nat} (f : α → β) : Outcome α n → Outcome β n
  | .done value rest shorter => .done (f value) rest shorter
  | .failed fault => .failed fault

@[simp] theorem Outcome.weaken_done {α : Type} {m n : Nat} (h : m ≤ n) (value : α)
    (rest : Cursor) (shorter : rest.size < m) :
    (Outcome.done value rest shorter).weaken h =
      .done value rest (Nat.lt_of_lt_of_le shorter h) := rfl

@[simp] theorem Outcome.weaken_failed {α : Type} {m n : Nat} (h : m ≤ n) (fault : Fault) :
    (Outcome.failed fault : Outcome α m).weaken h = .failed fault := rfl

@[simp] theorem Outcome.bind_done {α β : Type} {m n : Nat} (value : α) (rest : Cursor)
    (shorter : rest.size < m) (next : α → (rest : Cursor) → rest.size < m → Outcome β n) :
    (Outcome.done value rest shorter).bind next = next value rest shorter := rfl

@[simp] theorem Outcome.bind_failed {α β : Type} {m n : Nat} (fault : Fault)
    (next : α → (rest : Cursor) → rest.size < m → Outcome β n) :
    (Outcome.failed fault : Outcome α m).bind next = .failed fault := rfl

@[simp] theorem Outcome.map_done {α β : Type} {n : Nat} (f : α → β) (value : α) (rest : Cursor)
    (shorter : rest.size < n) :
    (Outcome.done value rest shorter).map f = .done (f value) rest shorter := rfl

@[simp] theorem Outcome.map_failed {α β : Type} {n : Nat} (f : α → β) (fault : Fault) :
    (Outcome.failed fault : Outcome α n).map f = .failed fault := rfl

/-! ## Single tokens -/

/-- The cursor behind a token of the given class, if one stands here. -/
def Cursor.eat? (c : Cursor) (kind : TokenKind) : Option { rest : Cursor // rest.size < c.size } :=
  match h : c.pending with
  | [] => none
  | token :: rest =>
    if token.kind = kind then some ⟨c.leaving rest, Cursor.size_leaving_lt h⟩ else none

/-- A token of the given class, or the complaint that it is missing. -/
def Cursor.expect (c : Cursor) (kind : TokenKind) (what : String) : Outcome Token c.size :=
  match c.eat? kind with
  | some rest => .done c.peek rest.1 rest.2
  | none => .failed (c.fault (.expected what))

/-- The tokens behind the newlines at the front. -/
def behindNewlines (pending : List Token) : List Token :=
  pending.dropWhile fun token => token.kind = .newline

/-- The cursor behind the newlines that stand here. -/
def Cursor.skipNewlines (c : Cursor) : Cursor :=
  c.leaving (behindNewlines c.pending)

theorem Cursor.size_skipNewlines (c : Cursor) : c.skipNewlines.size ≤ c.size :=
  (List.dropWhile_suffix _).length_le

/-! ## Brackets

What is left behind a phrase in brackets, when `token` is read in front of them. -/

section Brackets

variable {c rest : Cursor} {token : Token} {pending : List Token}

theorem Cursor.size_behind_group (h : c.pending = token :: pending)
    (hrest : rest.size < (c.leaving pending).skipNewlines.size) :
    rest.skipNewlines.size ≤ c.size := by
  have opening := size_leaving_lt h
  have before := (c.leaving pending).size_skipNewlines
  have behind := rest.size_skipNewlines
  omega

theorem Cursor.size_behind_index (h : c.pending = token :: pending)
    (hrest : rest.size < (c.leaving pending.tail).size) : rest.size ≤ c.size :=
  Nat.le_of_lt (Nat.lt_trans hrest (size_leaving_tail_lt h))

theorem Cursor.size_behind_call (h : c.pending = token :: pending)
    (hrest : rest.size < (c.leaving pending).size) : rest.countCall.size < c.size :=
  Nat.lt_trans hrest (size_leaving_lt h)

end Brackets

end Barscript.Script
