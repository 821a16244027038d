import Barscript.Script.Statement
import Barscript.Proofs.Script.Sequence

/-!
# Well-formed expressions

A grammar of what a script may spell where an expression stands, without calls
of inputs, orders and indicators (`Stands`). It knows nothing of the ranks of
operators and drops no argument. Every well-formed expression is read, up to
its end (`complete_expression`).
-/

namespace Barscript.Script

/-! ## The grammar -/

/-- What an expression consists of. -/
inductive Part where
  /-- A constant, a name, a call, an index or a group. -/
  | primary
  /-- A primary expression behind any number of operators. -/
  | operand
  /-- What stands behind an operand, up to the end of the expression. -/
  | continuation
  | expression
  | argument
  /-- The arguments of a call behind its opening parenthesis. -/
  | arguments
  /-- The arguments behind an argument. -/
  | further
deriving DecidableEq

/-- Whether a name is of no input, no order and no indicator. -/
def Unmarked (name : String) : Prop :=
  ∀ mark ∈ [inputMark, orderMark, indicatorMark], hasMark mark name = false

def Spelling.isName (s : Spelling) : Bool :=
  Token.isName ⟨s.1, s.2, .start⟩

def Spelling.isIndexable (s : Spelling) : Bool :=
  Token.isIndexable ⟨s.1, s.2, .start⟩

/-- A number, a text or a truth value. -/
def Spelling.IsConstant (s : Spelling) : Prop :=
  s.1 = .number ∧ (Decimal.readText? s.2).isSome ∨ s.1 = .string ∨
    s.1 = .boolean

/-- `Stands labels part A R`: in front of `R` a part stands, and `A` is both
of them. The names of arguments are among `labels`. -/
inductive Stands (labels : Spelling → Prop) :
    Part → List Spelling → List Spelling → Prop where
  | constant {s : Spelling} {R : List Spelling} (h : Spelling.IsConstant s) :
      Stands labels .primary (s :: R) R
  | name {s : Spelling} {R : List Spelling} (h : Spelling.isName s = true) :
      Stands labels .primary (s :: R) R
  | index {s : Spelling} {l r : String} {A R : List Spelling}
      (h : Spelling.isIndexable s = true)
      (offset : Stands labels .expression A ((.rightBracket, r) :: R)) :
      Stands labels .primary (s :: (.leftBracket, l) :: A) R
  | group {l r : String} {A B R : List Spelling}
      (inner : Stands labels .expression (pastBreaks A) B)
      (hclose : pastBreaks B = (.rightParen, r) :: R) :
      Stands labels .primary ((.leftParen, l) :: A) R
  | call {s : Spelling} {l : String} {A R : List Spelling}
      (h : Spelling.isName s = true) (hs : Unmarked s.2)
      (args : Stands labels .arguments A R) :
      Stands labels .primary (s :: (.leftParen, l) :: A) R
  | primary {A R : List Spelling} (h : Stands labels .primary A R) :
      Stands labels .operand A R
  | unary {s : Spelling} {op : UnaryOp} {A R : List Spelling}
      (h : unaryOperator? s.1 = some op)
      (inner : Stands labels .operand A R) :
      Stands labels .operand (s :: A) R
  | ended {R : List Spelling} : Stands labels .continuation R R
  | binary {s : Spelling} {level : Level} {op : BinaryOp}
      {A B R : List Spelling} (h : level.operator? s.1 = some op)
      (right : Stands labels .operand A B)
      (rest : Stands labels .continuation B R) :
      Stands labels .continuation (s :: A) R
  | ternary {q m : String} {A B R : List Spelling}
      (whenTrue : Stands labels .expression A ((.colon, m) :: B))
      (whenFalse : Stands labels .expression B R) :
      Stands labels .continuation ((.question, q) :: A) R
  | expression {A B R : List Spelling}
      (first : Stands labels .operand A B)
      (rest : Stands labels .continuation B R) :
      Stands labels .expression A R
  | positional {A R : List Spelling}
      (value : Stands labels .expression A R) : Stands labels .argument A R
  | named {s : Spelling} {m : String} {A R : List Spelling}
      (h : s.1 = .identifier ∨ s.1 = .keyword) (hs : labels s)
      (value : Stands labels .expression A R) :
      Stands labels .argument (s :: (.assign, m) :: A) R
  | empty {r : String} {A R : List Spelling}
      (hclose : pastBreaks A = (.rightParen, r) :: R) :
      Stands labels .arguments A R
  | arguments {A B R : List Spelling}
      (first : Stands labels .argument (pastBreaks A) B)
      (rest : Stands labels .further B R) : Stands labels .arguments A R
  | closed {r : String} {A R : List Spelling}
      (hclose : pastBreaks A = (.rightParen, r) :: R) :
      Stands labels .further A R
  /-- A comma may stand behind the last argument. -/
  | trailing {m r : String} {A B R : List Spelling}
      (hcomma : pastBreaks A = (.comma, m) :: B)
      (hclose : pastBreaks B = (.rightParen, r) :: R) :
      Stands labels .further A R
  | further {m : String} {A B C R : List Spelling}
      (hcomma : pastBreaks A = (.comma, m) :: B)
      (next : Stands labels .argument (pastBreaks B) C)
      (rest : Stands labels .further C R) : Stands labels .further A R

/-! ## First tokens -/

/-- The end of an expression may stand here. -/
def Stops (R : List Spelling) : Prop :=
  (headKind R).endsExpression = true

/-- Behind the ends of lines stands what ends an expression. -/
theorem stops_of_pastBreaks {A B : List Spelling} {s : Spelling}
    (h : pastBreaks A = s :: B) (hs : s.1.endsExpression = true) : Stops A := by
  unfold Stops
  rcases headKind_of_pastBreaks h with hkind | hkind <;> rw [hkind]
  · exact hs
  · rfl

section

variable {labels : Spelling → Prop} {A R : List Spelling}

/-- Behind an argument the expression of it has ended. -/
theorem stops_of_further (h : Stands labels .further A R) : Stops A := by
  cases h with
  | closed hclose => exact stops_of_pastBreaks hclose rfl
  | trailing hcomma _ => exact stops_of_pastBreaks hcomma rfl
  | further hcomma _ _ => exact stops_of_pastBreaks hcomma rfl

/-- Nothing of this kind stands behind an operand. -/
theorem attaches_of_continuation (h : Stands labels .continuation A R)
    (hR : Stops R) : (headKind A).attaches = false := by
  cases h with
  | ended =>
      unfold Stops at hR
      cases hkind : headKind A <;> rw [hkind] at hR <;> first | rfl | cases hR
  | @binary s level _ _ _ _ h _ _ =>
      show s.1.attaches = false
      cases hkind : s.1 <;> rw [hkind] at h <;>
        first | rfl | (cases level <;> cases h)
  | ternary _ _ => rfl

end

/-! ## Reading well-formed expressions -/

/-- An expression without indicator calls was read up to `R`. -/
def ReadTo (R : List Spelling) (e : Expr) (rest : Cursor) : Prop :=
  rest.ahead = R ∧ e.indicatorCalls = []

/-- There are no indicator calls in the operands. -/
def Uncalled (xs : List Element) : Prop :=
  ∀ e, .operand e ∈ xs → e.indicatorCalls = []

theorem Uncalled.toExpr {t : Grouping} (h : Uncalled t.elements) :
    t.toExpr.indicatorCalls = [] := by
  unfold Uncalled at h
  induction t with
  | operand e => exact h e (List.mem_singleton_self _)
  | binary op left right ihleft ihright =>
      simp only [Grouping.elements, List.mem_append, List.mem_cons,
        reduceCtorEq, false_or] at h
      rw [Grouping.toExpr, Expr.indicatorCalls,
        ihleft fun e he => h e (.inl he), ihright fun e he => h e (.inr he)]
      rfl
  | ternary condition whenTrue whenFalse ihcondition ihtrue ihfalse =>
      simp only [Grouping.elements, List.mem_append, List.mem_cons,
        reduceCtorEq, false_or] at h
      rw [Grouping.toExpr, Expr.indicatorCalls,
        ihcondition fun e he => h e (.inl he),
        ihtrue fun e he => h e (.inr (.inl he)),
        ihfalse fun e he => h e (.inr (.inr he))]
      rfl

/-- What stands at a cursor from which a part reaches up to `R`. -/
def Part.Found : Part → Cursor → List Spelling → Prop
  | .primary, c, R | .operand, c, R => ∃ e d, Operand c e d ∧ ReadTo R e d
  | .continuation, c, R =>
    ∃ xs d, Continues c xs d ∧ d.ahead = R ∧ Uncalled xs
  | .expression, c, R => ∃ xs d, Sequence c xs d ∧ d.ahead = R ∧ Uncalled xs
  | .argument, c, R => Stops R → ∃ a d, Slot c [a] d ∧ ReadTo R a.value d
  | .arguments, c, R =>
    ∃ args d, Slots c args d ∧ d.ahead = R ∧ argumentIndicators args = []
  | .further, c, R =>
    ∃ args d, FurtherSlots c args d ∧ d.ahead = R ∧ argumentIndicators args = []

section

variable {labels : Spelling → Prop} {A R : List Spelling} {c d : Cursor}

theorem atEnd_of_stops (hd : d.ahead = R) (h : Stops R) : d.AtEnd := by
  unfold Cursor.AtEnd
  rw [firstKind_eq, hd]
  exact h

/-- A sequence without indicator calls is an expression without them. -/
theorem formula_of_found {xs : List Element} (h : Sequence c xs d)
    (hd : d.AtEnd) (hcalls : Uncalled xs) :
    ∃ e, Formula c e d ∧ e.indicatorCalls = [] := by
  obtain ⟨t, rfl, hformula⟩ := h.formula hd
  exact ⟨t.toExpr, hformula, hcalls.toExpr⟩

/-- The token behind the ends of lines. -/
theorem eaten_skipNewlines {kind : TokenKind} {value : String}
    {B : List Spelling} (hc : c.ahead = A)
    (h : pastBreaks A = (kind, value) :: B) :
    ∃ d, Eaten kind c.skipNewlines d ∧ d.ahead = B := by
  apply eaten_of_ahead
  rw [ahead_skipNewlines, hc, h]

theorem found_constant {s : Spelling} (h : Spelling.IsConstant s)
    (hc : c.ahead = s :: R) : Part.Found .primary c R := by
  obtain ⟨token, pending, hpending, rfl, hrest⟩ := ahead_cons hc
  rcases h with ⟨hkind, htext⟩ | hkind | hkind
  · obtain ⟨x, hx⟩ := Option.isSome_iff_exists.mp htext
    exact ⟨_, _, .number hpending hkind hx, hrest, rfl⟩
  · exact ⟨_, _, .text hpending hkind, hrest, rfl⟩
  · exact ⟨_, _, .bool hpending hkind, hrest, rfl⟩

/-- **Where a part stands, it is found**, whatever else stands there. -/
theorem found_of_stands {part : Part} (h : Stands labels part A R)
    (hc : c.ahead = A) : part.Found c R := by
  induction h generalizing c with
  | constant h => exact found_constant h hc
  | name h =>
      obtain ⟨token, pending, hpending, rfl, hrest⟩ := ahead_cons hc
      exact ⟨_, _, .name hpending h, hrest, rfl⟩
  | index h _ ih =>
      obtain ⟨token, pending, hpending, rfl, hrest⟩ := ahead_cons hc
      obtain ⟨bracket, pending', hpending', hbracket, hoffset⟩ :=
        ahead_cons hrest
      have hboth : c.pending = token :: bracket :: pending' :=
        hpending.trans (congrArg _ hpending')
      obtain ⟨xs, d, hsequence, hd, hcalls⟩ := ih hoffset
      obtain ⟨e, hformula, he⟩ :=
        formula_of_found hsequence (atEnd_of_stops hd rfl) hcalls
      obtain ⟨d', hclose, hd'⟩ := eaten_of_ahead hd
      exact ⟨_, d', .index hboth h (congrArg Prod.fst hbracket) hformula hclose,
        hd', he⟩
  | group _ hclose ih =>
      obtain ⟨token, pending, hpending, hspelling, hrest⟩ := ahead_cons hc
      obtain ⟨xs, d, hsequence, hd, hcalls⟩ :=
        ih ((ahead_skipNewlines _).trans (congrArg pastBreaks hrest))
      obtain ⟨e, hformula, he⟩ := formula_of_found hsequence
        (atEnd_of_stops hd (stops_of_pastBreaks hclose rfl)) hcalls
      obtain ⟨d', hparen, hd'⟩ := eaten_skipNewlines hd hclose
      exact ⟨e, d', .group hpending (congrArg Prod.fst hspelling) hformula
        hparen, hd', he⟩
  | call h hs _ ih =>
      obtain ⟨token, pending, hpending, rfl, hrest⟩ := ahead_cons hc
      obtain ⟨bracket, pending', hpending', hbracket, hargs⟩ :=
        ahead_cons hrest
      have hboth : c.pending = token :: bracket :: pending' :=
        hpending.trans (congrArg _ hpending')
      obtain ⟨args, d, hslots, hd, hcalls⟩ := ih hargs
      refine ⟨_, _, .call hboth h (congrArg Prod.fst hbracket) hslots, hd, ?_⟩
      have hname : isIndicatorName token.value = false :=
        hs indicatorMark (by decide)
      rw [Expr.indicatorCalls, hcalls, hname]
      rfl
  | primary _ ih => exact ih hc
  | unary h _ ih =>
      obtain ⟨token, pending, hpending, rfl, hrest⟩ := ahead_cons hc
      obtain ⟨e, d, hinner, hd, he⟩ := ih hrest
      exact ⟨_, d, .unary hpending h hinner, hd, he⟩
  | ended => exact ⟨[], c, .ended, hc, nofun⟩
  | binary h _ _ ihright ihrest =>
      obtain ⟨token, pending, hpending, rfl, hrest⟩ := ahead_cons hc
      obtain ⟨e, d, hright, hd, he⟩ := ihright hrest
      obtain ⟨xs, d', hon, hd', hcalls⟩ := ihrest hd
      refine ⟨_, d', .operator hpending h (.operand hright hon), hd', ?_⟩
      intro f hf
      simp only [List.mem_cons, reduceCtorEq, false_or,
        Element.operand.injEq] at hf
      rcases hf with rfl | hf
      · exact he
      · exact hcalls f hf
  | ternary _ _ ihtrue ihfalse =>
      obtain ⟨d₁, hquestion, hd₁⟩ := eaten_of_ahead hc
      obtain ⟨xs, d₂, htrue, hd₂, hxs⟩ := ihtrue hd₁
      obtain ⟨d₃, hcolon, hd₃⟩ := eaten_of_ahead hd₂
      obtain ⟨ys, d₄, hfalse, hd₄, hys⟩ := ihfalse hd₃
      refine ⟨_, d₄, .ternary hquestion htrue hcolon hfalse, hd₄, ?_⟩
      intro f hf
      simp only [List.mem_cons, List.mem_append, reduceCtorEq,
        false_or] at hf
      exact hf.elim (hxs f) (hys f)
  | expression _ _ ihfirst ihrest =>
      obtain ⟨e, d, hfirst, hd, he⟩ := ihfirst hc
      obtain ⟨xs, d', hon, hd', hcalls⟩ := ihrest hd
      refine ⟨_, d', .operand hfirst hon, hd', ?_⟩
      intro f hf
      simp only [List.mem_cons, Element.operand.injEq] at hf
      rcases hf with rfl | hf
      · exact he
      · exact hcalls f hf
  | positional _ ih =>
      intro hR
      obtain ⟨xs, d, hsequence, hd, hcalls⟩ := ih hc
      have hend := atEnd_of_stops hd hR
      obtain ⟨e, hformula, he⟩ := formula_of_found hsequence hend hcalls
      exact ⟨⟨none, e⟩, d, hformula.slot hend, hd, he⟩
  | named hword _ _ ih =>
      intro hR
      obtain ⟨word, pending, hpending, rfl, hrest⟩ := ahead_cons hc
      obtain ⟨sign, pending', hpending', hsign, hvalue⟩ := ahead_cons hrest
      obtain ⟨xs, d, hsequence, hd, hcalls⟩ := ih hvalue
      obtain ⟨e, hformula, he⟩ :=
        formula_of_found hsequence (atEnd_of_stops hd hR) hcalls
      have hboth : c.pending = word :: sign :: pending' :=
        hpending.trans (congrArg _ hpending')
      exact ⟨⟨some word.value, e⟩, d,
        hformula.namedSlot hboth hword (congrArg Prod.fst hsign), hd, he⟩
  | empty hclose =>
      obtain ⟨d, hparen, hd⟩ := eaten_skipNewlines hc hclose
      exact ⟨[], d, .empty hparen, hd, rfl⟩
  | arguments _ rest ihfirst ihrest =>
      obtain ⟨a, d, hfirst, hd, ha⟩ := ihfirst
        ((ahead_skipNewlines c).trans (congrArg pastBreaks hc))
        (stops_of_further rest)
      obtain ⟨args, d', hothers, hd', hargs⟩ := ihrest hd
      refine ⟨a :: args, d', .first hfirst hothers, hd', ?_⟩
      rw [argumentIndicators, ha, hargs]
      rfl
  | closed hclose =>
      obtain ⟨d, hparen, hd⟩ := eaten_skipNewlines hc hclose
      exact ⟨[], d, .closed hparen, hd, rfl⟩
  | trailing hcomma hclose =>
      obtain ⟨d, hmark, hd⟩ := eaten_skipNewlines hc hcomma
      obtain ⟨d', hparen, hd'⟩ := eaten_skipNewlines hd hclose
      exact ⟨[], d', .trailing hmark hparen, hd', rfl⟩
  | further hcomma _ rest ihnext ihrest =>
      obtain ⟨d₁, hmark, hd₁⟩ := eaten_skipNewlines hc hcomma
      obtain ⟨a, d₂, hnext, hd₂, ha⟩ := ihnext
        ((ahead_skipNewlines d₁).trans (congrArg pastBreaks hd₁))
        (stops_of_further rest)
      obtain ⟨args, d₃, hothers, hd₃, hargs⟩ := ihrest hd₂
      refine ⟨a :: args, d₃, .next hmark hnext hothers, hd₃, ?_⟩
      rw [argumentIndicators, ha, hargs]
      rfl

/-- **A well-formed expression is read up to its end.** -/
theorem complete_expression (c : Cursor) {R : List Spelling}
    (h : Stands labels .expression c.ahead R) (hR : Stops R) :
    (expression c).Meets (ReadTo R) fun _ => False := by
  obtain ⟨xs, d, hsequence, hd, hcalls⟩ := found_of_stands h rfl
  have hend := atEnd_of_stops hd hR
  obtain ⟨e, hformula, he⟩ := formula_of_found hsequence hend hcalls
  obtain ⟨_, heq⟩ := hformula.expression_eq hend
  rw [heq]
  exact ⟨hd, he⟩

end

end Barscript.Script
