import Barscript.Script.Grammar

/-!
# The rules of the grammar

What a rule of the grammar does at a given first token, one equation for each
of its branches.
-/

namespace Barscript.Script

section

variable {c : Cursor} {token : Token} {pending : List Token}

/-! ## Single tokens -/

theorem cons_of_firstKind {pending : List Token}
    (h : firstKind pending ≠ .endOfInput) :
    ∃ token rest, pending = token :: rest := by
  cases pending with
  | nil => exact absurd rfl h
  | cons token rest => exact ⟨token, rest, rfl⟩

theorem eat?_cons (h : c.pending = token :: pending) (kind : TokenKind) :
    c.eat? kind = if token.kind = kind
      then some ⟨c.leaving pending, Cursor.size_leaving_lt h⟩ else none := by
  unfold Cursor.eat?
  split
  · rename_i hnil
    rw [h] at hnil
    cases hnil
  · rename_i token' pending' hcons
    cases h.symm.trans hcons
    rfl

theorem expect_some {kind : TokenKind}
    {rest : { rest : Cursor // rest.size < c.size }}
    (h : c.eat? kind = some rest) (what : String) :
    c.expect kind what = .done c.peek rest.1 rest.2 := by
  unfold Cursor.expect
  rw [h]

theorem expect_none {kind : TokenKind} (h : c.eat? kind = none)
    (what : String) :
    c.expect kind what = .failed (c.fault (.expected what)) := by
  unfold Cursor.expect
  rw [h]

theorem eat?_none {kind : TokenKind} (h : firstKind c.pending ≠ kind) :
    c.eat? kind = none := by
  unfold Cursor.eat?
  split
  · rfl
  · rename_i token pending hpending
    rw [hpending] at h
    exact if_neg h

/-- Nothing is skipped where no line ends. -/
theorem skipNewlines_eq (h : firstKind c.pending ≠ .newline) :
    c.skipNewlines = c := by
  have hsame : behindNewlines c.pending = c.pending := by
    unfold behindNewlines
    cases hpending : c.pending with
    | nil => rfl
    | cons token rest =>
        rw [hpending] at h
        exact List.dropWhile_cons_of_neg (by simpa [firstKind] using h)
  unfold Cursor.skipNewlines
  rw [hsame]
  rfl

/-! ## Operators -/

theorem Level.height_eq_tighter? {level next : Level}
    (h : level.tighter? = some next) : level.height = next.height + 1 := by
  cases level <;> cases h <;> rfl

theorem Level.eq_of_height {level level' : Level}
    (h : level.height = level'.height) : level = level' := by
  cases level <;> cases level' <;> first | rfl | cases h

section

variable {level : Level} {left : Expr} {op : BinaryOp}

/-- Without an operator the chain ends. -/
theorem chainRest_plain (h : level.operator? (firstKind c.pending) = none) :
    chainRest level left c = .done left c (Nat.lt_succ_self _) := by
  rw [chainRest]
  split
  · rfl
  · rename_i token pending hpending
    rw [hpending] at h
    have hop : level.operator? token.kind = none := h
    rw [hop]

theorem chainRest_operator (h : c.pending = token :: pending)
    (hop : level.operator? token.kind = some op) :
    chainRest level left c =
      (operand level (c.leaving pending)).bind fun right rest hrest =>
        (chainRest level (.binary op left right) rest).weaken
          (Nat.succ_le_succ (Nat.le_of_lt
            (Nat.lt_trans hrest (Cursor.size_leaving_lt h)))) := by
  rw [chainRest]
  split
  · rename_i hnil
    rw [h] at hnil
    cases hnil
  · rename_i token' pending' hcons
    cases h.symm.trans hcons
    rw [hop]

end

/-- Without an operator in front it is a primary expression. -/
theorem unary_plain (h : unaryOperator? (firstKind c.pending) = none) :
    unary c = primary c := by
  rw [unary]
  split
  · rfl
  · rename_i token pending hpending
    rw [hpending] at h
    have hop : unaryOperator? token.kind = none := h
    rw [hop]

theorem unary_operator {op : UnaryOp} (h : c.pending = token :: pending)
    (hop : unaryOperator? token.kind = some op) :
    unary c = ((unary (c.leaving pending)).map
      fun inner => .unary op inner).weaken (Cursor.size_leaving_le h) := by
  rw [unary]
  split
  · rename_i hnil
    rw [h] at hnil
    cases hnil
  · rename_i token' pending' hcons
    cases h.symm.trans hcons
    rw [hop]

/-! ## Primary expressions -/

/-- The tokens of constants and the opening parenthesis. -/
def TokenKind.isPlainStart : TokenKind → Bool
  | .number | .string | .boolean | .leftParen => true
  | _ => false

theorem isPlainStart_of_isName (h : token.isName = true) :
    token.kind.isPlainStart = false := by
  unfold Token.isName at h
  cases hkind : token.kind <;> rw [hkind] at h <;> first | rfl | cases h

theorem primary_cons (h : c.pending = token :: pending) :
    primary c =
      if token.kind = .number then
        match Decimal.readText? token.value with
        | some x => .done (.literal (.number x)) (c.leaving pending)
            (Cursor.size_leaving_lt h)
        | none => .failed (c.fault .badNumber)
      else if token.kind = .string then
        .done (.literal (.text token.value)) (c.leaving pending)
          (Cursor.size_leaving_lt h)
      else if token.kind = .boolean then
        .done (.literal (.bool (token.value == "true"))) (c.leaving pending)
          (Cursor.size_leaving_lt h)
      else if token.kind = .leftParen then
        (expression (c.leaving pending).skipNewlines).bind
          fun inner rest hrest =>
            ((rest.skipNewlines.expect .rightParen "')'").map
              fun _ => inner).weaken (Cursor.size_behind_group h hrest)
      else if token.isName then
        if firstKind pending = .leftParen then
          (callArguments (c.leaving pending)).bind fun args rest hrest =>
            .done (.call rest.nextId token.value args) rest.countCall
              (Cursor.size_behind_call h hrest)
        else if token.isIndexable ∧ firstKind pending = .leftBracket then
          (expression (c.leaving pending.tail)).bind fun offset rest hrest =>
            ((rest.expect .rightBracket "']'").map
              fun _ => .indexed token.value offset).weaken
                (Cursor.size_behind_index h hrest)
        else .done (.ref token.value) (c.leaving pending)
          (Cursor.size_leaving_lt h)
      else .failed (c.fault .unexpected) := by
  rw [primary]
  split
  · rename_i hnil
    rw [h] at hnil
    cases hnil
  · rename_i token' pending' hcons
    cases h.symm.trans hcons
    rfl

theorem primary_nil (h : c.pending = []) :
    primary c = .failed (c.fault .unexpected) := by
  rw [primary]
  split
  · rfl
  · rename_i hcons
    cases h.symm.trans hcons

/-- A name is a call, a name with an index or a name. -/
theorem primary_name (h : c.pending = token :: pending)
    (hname : token.isName = true) :
    primary c =
      if firstKind pending = .leftParen then
        (callArguments (c.leaving pending)).bind fun args rest hrest =>
          .done (.call rest.nextId token.value args) rest.countCall
            (Cursor.size_behind_call h hrest)
      else if token.isIndexable ∧ firstKind pending = .leftBracket then
        (expression (c.leaving pending.tail)).bind fun offset rest hrest =>
          ((rest.expect .rightBracket "']'").map
            fun _ => .indexed token.value offset).weaken
              (Cursor.size_behind_index h hrest)
      else .done (.ref token.value) (c.leaving pending)
        (Cursor.size_leaving_lt h) := by
  have hplain : ∀ kind : TokenKind, kind.isPlainStart = true →
      token.kind ≠ kind := by
    rintro kind hkind rfl
    rw [isPlainStart_of_isName hname] at hkind
    cases hkind
  rw [primary_cons h, if_neg (hplain _ rfl), if_neg (hplain _ rfl),
    if_neg (hplain _ rfl), if_neg (hplain _ rfl), if_pos hname]

theorem primary_group (h : c.pending = token :: pending)
    (hkind : token.kind = .leftParen) :
    primary c =
      (expression (c.leaving pending).skipNewlines).bind
        fun inner rest hrest =>
          ((rest.skipNewlines.expect .rightParen "')'").map
            fun _ => inner).weaken (Cursor.size_behind_group h hrest) := by
  rw [primary_cons h, if_neg (by rw [hkind]; decide),
    if_neg (by rw [hkind]; decide), if_neg (by rw [hkind]; decide),
    if_pos hkind]

end

/-! ## Classes of tokens -/

/-- The classes of tokens that an operand starts with. -/
def TokenKind.startsOperand : TokenKind → Bool
  | .number | .string | .boolean | .leftParen | .identifier | .keyword
  | .builtinVariable | .builtinFunction | .minus | .not => true
  | _ => false

/-- The classes of tokens that stand behind an expression. -/
def TokenKind.endsExpression : TokenKind → Bool
  | .rightParen | .rightBracket | .comma | .colon | .newline
  | .endOfInput => true
  | _ => false

/-- Whether a token has to do with the name in front of it: it makes a call,
an index, the name of an argument or an assignment. -/
def TokenKind.attaches : TokenKind → Bool
  | .leftParen | .leftBracket | .assign | .colonAssign => true
  | _ => false

theorem ne_of_attaches {kind other : TokenKind} (h : kind.attaches = false)
    (hother : other.attaches = true) : kind ≠ other := by
  rintro rfl
  rw [h] at hother
  cases hother

theorem unaryOperator?_of_isName {token : Token}
    (h : token.isName = true) : unaryOperator? token.kind = none := by
  unfold Token.isName at h
  cases hkind : token.kind <;> rw [hkind] at h <;> first | rfl | cases h

theorem startsOperand_of_isName {token : Token}
    (h : token.isName = true) : token.kind.startsOperand = true := by
  unfold Token.isName at h
  cases hkind : token.kind <;> rw [hkind] at h <;> first | rfl | cases h

theorem isName_of_isIndexable {token : Token}
    (h : token.isIndexable = true) : token.isName = true := by
  unfold Token.isIndexable at h
  unfold Token.isName
  cases hkind : token.kind <;> rw [hkind] at h <;> first | rfl | cases h

/-! ## Names of arguments -/

/-- Whether an argument that starts here has a name. -/
def IsNamed : List Token → Prop
  | word :: sign :: _ =>
    (word.kind = .identifier ∨ word.kind = .keyword) ∧ sign.kind = .assign
  | _ => False

theorem IsNamed.tokens {pending : List Token} (h : IsNamed pending) :
    ∃ word sign rest, pending = word :: sign :: rest := by
  match pending, h with
  | word :: sign :: rest, _ => exact ⟨word, sign, rest, rfl⟩

theorem isNamed_iff {word : Token} {rest : List Token} :
    IsNamed (word :: rest) ↔
      (word.kind = .identifier ∨ word.kind = .keyword) ∧
        firstKind rest = .assign := by
  cases rest with
  | nil => exact ⟨False.elim, fun h => by cases h.2⟩
  | cons sign rest => exact Iff.rfl

theorem splitName_named {word sign : Token} {rest : List Token}
    (h : IsNamed (word :: sign :: rest)) :
    splitName (word :: sign :: rest) = (some word.value, rest) :=
  if_pos h

theorem splitName_plain {pending : List Token} (h : ¬ IsNamed pending) :
    splitName pending = (none, pending) := by
  unfold splitName
  split
  · exact if_neg h
  · rfl

/-! ## Arguments -/

section

variable {c : Cursor}
  {rest : { rest : Cursor // rest.size < c.skipNewlines.size }}

/-- A closing parenthesis ends the arguments. -/
theorem arguments_closed (first : Bool)
    (h : c.skipNewlines.eat? .rightParen = some rest) :
    arguments first c =
      .done [] rest.1 (Nat.lt_of_lt_of_le rest.2 c.size_skipNewlines) := by
  rw [arguments, h]

/-- The first argument needs no comma. -/
theorem arguments_first (h : c.skipNewlines.eat? .rightParen = none) :
    arguments true c =
      (argument c.skipNewlines).weaken c.size_skipNewlines := by
  rw [arguments, h]
  rfl

theorem arguments_unmarked (h : c.skipNewlines.eat? .rightParen = none)
    (hcomma : c.skipNewlines.eat? .comma = none) :
    arguments false c =
      .failed (c.skipNewlines.fault (.expected "',' or ')'")) := by
  rw [arguments, h]
  dsimp only
  rw [if_neg (by decide), expect_none hcomma]
  rfl

theorem arguments_trailing (h : c.skipNewlines.eat? .rightParen = none)
    (hcomma : c.skipNewlines.eat? .comma = some rest)
    {behind : { behind : Cursor // behind.size < rest.1.skipNewlines.size }}
    (hclose : rest.1.skipNewlines.eat? .rightParen = some behind) :
    ∃ hless, arguments false c = .done [] behind.1 hless := by
  rw [arguments, h]
  dsimp only
  rw [if_neg (by decide), expect_some hcomma, Outcome.bind_done, hclose]
  exact ⟨_, rfl⟩

theorem arguments_next (h : c.skipNewlines.eat? .rightParen = none)
    (hcomma : c.skipNewlines.eat? .comma = some rest)
    (hopen : rest.1.skipNewlines.eat? .rightParen = none) :
    ∃ hle, arguments false c = (argument rest.1.skipNewlines).weaken hle := by
  rw [arguments, h]
  dsimp only
  rw [if_neg (by decide), expect_some hcomma, Outcome.bind_done, hopen]
  exact ⟨_, rfl⟩

end

section

variable {c : Cursor}

/-- The cursor at the value of the argument that starts here. -/
def Cursor.atValue (c : Cursor) : Cursor :=
  c.leaving (splitName c.pending).2

theorem atValue_plain (h : ¬ IsNamed c.pending) : c.atValue = c := by
  unfold Cursor.atValue
  rw [splitName_plain h]
  rfl

theorem argument_done {value : Expr} {rest : Cursor}
    {hrest : rest.size < c.atValue.size}
    (h : expression c.atValue = .done value rest hrest) :
    ∃ hle, argument c = ((arguments false rest).map fun args =>
      ⟨(splitName c.pending).1, value⟩ :: args).weaken hle := by
  unfold Cursor.atValue at h
  rw [argument, h]
  exact ⟨_, rfl⟩

variable {fault : Fault}

theorem argument_failed (h : expression c.atValue = .failed fault)
    (hfault : fault.complaint ≠ .unexpected ∨
      skipArgument 0 c.atValue.pending = none) :
    argument c = .failed fault := by
  unfold Cursor.atValue at h hfault
  rw [argument, h]
  dsimp only
  split
  · rename_i hunexpected
    split
    · rfl
    · rename_i hleft
      rcases hfault with hfault | hfault
      · exact absurd hunexpected hfault
      · rw [show (splitName c.pending).2 =
          (c.leaving (splitName c.pending).2).pending from rfl, hfault] at hleft
        cases hleft
  · rfl

theorem argument_dropped {left : List Token}
    (h : expression c.atValue = .failed fault)
    (hunexpected : fault.complaint = .unexpected)
    (hleft : skipArgument 0 c.atValue.pending = some left) :
    ∃ hle, argument c =
      (arguments false ⟨left, c.finish, fault.nextId⟩).weaken hle := by
  unfold Cursor.atValue at h hleft
  rw [argument, h]
  dsimp only
  rw [if_pos hunexpected]
  split
  · rename_i hnone
    cases hnone.symm.trans hleft
  · rename_i left' hsome
    cases hsome.symm.trans hleft
    exact ⟨Nat.le_trans (length_skipArgument hsome)
      (length_splitName c.pending), rfl⟩

end

end Barscript.Script
