import Barscript.Proofs.Script.Phrase
import Barscript.Proofs.Script.Precedence
import Barscript.Proofs.Script.Rules
import Barscript.Proofs.Script.Spelling

/-!
# Sequences of operands

What stands in a script where an expression is read, as a grammar that knows
nothing of the levels of operators: operands with operators and ternaries
between them (`Sequence`). An expression is read as the ordered grouping of its
sequence (`expression_of_sequence`); so are the expressions in parentheses,
indices and arguments inside of its operands.
-/

namespace Barscript.Script

/-! ## The grammar -/

mutual

/-- From one cursor to another stands an operand, which is read as an
expression: operators in front of a constant, a name, an index, a group or a
call. -/
inductive Operand : Cursor → Expr → Cursor → Prop where
  | number {c : Cursor} {token : Token} {pending : List Token} {x : Float}
      (h : c.pending = token :: pending) (hkind : token.kind = .number)
      (hx : Decimal.readText? token.value = some x) :
      Operand c (.literal (.number x)) (c.leaving pending)
  | text {c : Cursor} {token : Token} {pending : List Token}
      (h : c.pending = token :: pending) (hkind : token.kind = .string) :
      Operand c (.literal (.text token.value)) (c.leaving pending)
  | bool {c : Cursor} {token : Token} {pending : List Token}
      (h : c.pending = token :: pending) (hkind : token.kind = .boolean) :
      Operand c (.literal (.bool (token.value == "true"))) (c.leaving pending)
  | name {c : Cursor} {token : Token} {pending : List Token}
      (h : c.pending = token :: pending) (hname : token.isName = true) :
      Operand c (.ref token.value) (c.leaving pending)
  | index {c d d' : Cursor} {token bracket : Token} {pending : List Token}
      {e : Expr} (h : c.pending = token :: bracket :: pending)
      (hname : token.isIndexable = true)
      (hbracket : bracket.kind = .leftBracket)
      (offset : Formula (c.leaving pending) e d)
      (hclose : Eaten .rightBracket d d') :
      Operand c (.indexed token.value e) d'
  | group {c d d' : Cursor} {token : Token} {pending : List Token} {e : Expr}
      (h : c.pending = token :: pending) (hkind : token.kind = .leftParen)
      (inner : Formula (c.leaving pending).skipNewlines e d)
      (hclose : Eaten .rightParen d.skipNewlines d') : Operand c e d'
  | call {c d : Cursor} {token bracket : Token} {pending : List Token}
      {args : List (Argument Expr)}
      (h : c.pending = token :: bracket :: pending)
      (hname : token.isName = true) (hbracket : bracket.kind = .leftParen)
      (hargs : Slots (c.leaving pending) args d) :
      Operand c (.call d.nextId token.value args) d.countCall
  | unary {c d : Cursor} {token : Token} {pending : List Token} {op : UnaryOp}
      {e : Expr} (h : c.pending = token :: pending)
      (hop : unaryOperator? token.kind = some op)
      (inner : Operand (c.leaving pending) e d) : Operand c (.unary op e) d

/-- Operands with operators and ternaries between them. -/
inductive Sequence : Cursor → List Element → Cursor → Prop where
  | operand {c d d' : Cursor} {e : Expr} {xs : List Element}
      (first : Operand c e d) (rest : Continues d xs d') :
      Sequence c (.operand e :: xs) d'

/-- What stands behind an operand, up to the end of the sequence. -/
inductive Continues : Cursor → List Element → Cursor → Prop where
  | ended {c : Cursor} : Continues c [] c
  | operator {c d : Cursor} {token : Token} {pending : List Token}
      {level : Level} {op : BinaryOp} {xs : List Element}
      (h : c.pending = token :: pending)
      (hop : level.operator? token.kind = some op)
      (rest : Sequence (c.leaving pending) xs d) :
      Continues c (.operator op :: xs) d
  | ternary {c d₁ d₂ d : Cursor} {xs ys : List Element}
      (hquestion : Eaten .question c d₁) (whenTrue : Sequence d₁ xs d₂)
      {d₃ : Cursor} (hcolon : Eaten .colon d₂ d₃)
      (whenFalse : Sequence d₃ ys d) :
      Continues c (.question :: (xs ++ .colon :: ys)) d

/-- A sequence and the expression of its ordered grouping. -/
inductive Formula : Cursor → Expr → Cursor → Prop where
  | grouped {c d : Cursor} {t : Grouping} (sequence : Sequence c t.elements d)
      (ht : t.Ordered) : Formula c t.toExpr d

/-- The arguments of a call behind its opening parenthesis. -/
inductive Slots : Cursor → List (Argument Expr) → Cursor → Prop where
  | empty {c d : Cursor} (hclose : Eaten .rightParen c.skipNewlines d) :
      Slots c [] d
  | first {c d d' : Cursor} {args more : List (Argument Expr)}
      (first : Slot c.skipNewlines args d) (rest : FurtherSlots d more d') :
      Slots c (args ++ more) d'

/-- The arguments behind an argument. A comma may stand behind the last. -/
inductive FurtherSlots : Cursor → List (Argument Expr) → Cursor → Prop where
  | closed {c d : Cursor} (hclose : Eaten .rightParen c.skipNewlines d) :
      FurtherSlots c [] d
  | trailing {c d d' : Cursor} (hcomma : Eaten .comma c.skipNewlines d)
      (hclose : Eaten .rightParen d.skipNewlines d') : FurtherSlots c [] d'
  | next {c d₁ d₂ d : Cursor} {args more : List (Argument Expr)}
      (hcomma : Eaten .comma c.skipNewlines d₁)
      (next : Slot d₁.skipNewlines args d₂) (rest : FurtherSlots d₂ more d) :
      FurtherSlots c (args ++ more) d

/-- An argument with its name, if it has one. An argument in which an operand
is missing gives none. -/
inductive Slot : Cursor → List (Argument Expr) → Cursor → Prop where
  | value {c d : Cursor} {e : Expr} (h : Formula c.atValue e d) :
      Slot c [⟨(splitName c.pending).1, e⟩] d
  | dropped {c : Cursor} {fault : Fault} {left : List Token}
      (hopen : firstKind c.pending ≠ .rightParen)
      (h : expression c.atValue = .failed fault)
      (hmissing : fault.complaint = .unexpected)
      (hleft : skipArgument 0 c.atValue.pending = some left) :
      Slot c [] ⟨left, c.finish, fault.nextId⟩

end

/-- Where no expression goes on. -/
def Cursor.AtEnd (c : Cursor) : Prop :=
  (firstKind c.pending).endsExpression = true

/-! ## First tokens -/

section

variable {c d : Cursor} {xs : List Element} {kind : TokenKind}

theorem Eaten.firstKind_eq (h : Eaten kind c d) :
    firstKind c.pending = kind := by
  obtain ⟨token, hkind, hpending, _⟩ := h
  rw [hpending]
  exact hkind

theorem eaten_of_ahead {value : String} {A : List Spelling}
    (h : c.ahead = (kind, value) :: A) : ∃ d, Eaten kind c d ∧ d.ahead = A := by
  obtain ⟨token, pending, hpending, hspelling, hahead⟩ := ahead_cons h
  exact ⟨c.leaving pending,
    ⟨token, congrArg Prod.fst hspelling, hpending, rfl⟩, hahead⟩

theorem eat?_of_eaten (h : Eaten kind c d) :
    ∃ rest, c.eat? kind = some rest ∧ rest.1 = d := by
  obtain ⟨token, hkind, hpending, hsame⟩ := h
  rw [eat?_cons hpending, if_pos hkind]
  exact ⟨_, rfl, hsame.symm⟩

theorem expect_eaten (h : Eaten kind c d) (what : String) :
    (c.expect kind what).Meets (fun _ rest => rest = d) fun _ => False := by
  obtain ⟨rest, heat, hrest⟩ := eat?_of_eaten h
  rw [expect_some heat]
  exact hrest

theorem atEnd_of_eaten (h : Eaten kind c d)
    (hkind : kind.endsExpression = true) : c.AtEnd := by
  unfold Cursor.AtEnd
  rw [h.firstKind_eq]
  exact hkind

/-- Behind the ends of lines stands what ends an expression. -/
theorem atEnd_of_skipNewlines (h : Eaten kind c.skipNewlines d)
    (hkind : kind.endsExpression = true) : c.AtEnd := by
  obtain ⟨token, htoken, hpending, _⟩ := h
  have hpending : behindNewlines c.pending = token :: d.pending := hpending
  unfold Cursor.AtEnd
  cases hall : c.pending with
  | nil => rfl
  | cons first rest =>
      by_cases hfirst : first.kind = .newline
      · rw [firstKind, hfirst]
        rfl
      · rw [hall, behindNewlines,
          List.dropWhile_cons_of_neg (by simpa using hfirst)] at hpending
        cases hpending
        rw [firstKind, htoken]
        exact hkind

theorem operator?_of_atEnd (h : c.AtEnd) (level : Level) :
    level.operator? (firstKind c.pending) = none := by
  unfold Cursor.AtEnd at h
  cases hkind : firstKind c.pending <;> rw [hkind] at h <;>
    first | cases h; done | (cases level <;> rfl)

/-- Nothing behind an operand belongs to it. -/
theorem attaches_of_continues (h : Continues c xs d) (hd : d.AtEnd) :
    (firstKind c.pending).attaches = false := by
  cases h with
  | ended =>
      unfold Cursor.AtEnd at hd
      cases hkind : firstKind c.pending <;> rw [hkind] at hd <;>
        first | rfl | cases hd
  | @operator _ _ token _ level _ _ h hop _ =>
      rw [h, firstKind]
      cases hkind : token.kind <;> rw [hkind] at hop <;>
        first | rfl | (cases level <;> cases hop)
  | ternary hquestion _ _ _ =>
      rw [hquestion.firstKind_eq]
      rfl

theorem precedence_of_operator? {level : Level} {op : BinaryOp}
    (h : level.operator? kind = some op) :
    op.precedence + level.height = 6 := by
  cases level <;> cases kind <;> cases h <;> rfl

end

/-- An operand starts with a token that no bracket closes. -/
theorem Operand.startsOperand {e : Expr} (h : Operand c e d) :
    (firstKind c.pending).startsOperand = true := by
  cases h with
  | number h hkind _ | text h hkind | bool h hkind | group h hkind _ _ =>
      rw [h, firstKind, hkind]
      rfl
  | name h hname | call h hname _ _ =>
      rw [h]
      exact startsOperand_of_isName hname
  | index h hname _ _ _ =>
      rw [h]
      exact startsOperand_of_isName (isName_of_isIndexable hname)
  | @unary _ _ token _ _ _ h hop _ =>
      rw [h, firstKind]
      cases hkind : token.kind <;> rw [hkind] at hop <;>
        first | rfl | cases hop

/-- So does what stands where an expression is read. -/
theorem Formula.startsOperand {e : Expr} (h : Formula c e d) :
    (firstKind c.pending).startsOperand = true := by
  cases h with
  | @grouped _ _ t sequence _ =>
      generalize t.elements = xs at sequence
      cases sequence with
      | operand first _ => exact first.startsOperand

theorem uneaten_of_slot {args : List (Argument Expr)} (h : Slot c args d) :
    c.eat? .rightParen = none := by
  apply eat?_none
  cases h with
  | dropped hopen _ _ _ => exact hopen
  | value h =>
      intro hkind
      have hplain : ¬ IsNamed c.pending := by
        intro hname
        obtain ⟨word, sign, rest, hpending⟩ := hname.tokens
        rw [hpending] at hname hkind
        have hword : word.kind = .rightParen := hkind
        rcases hname.1 with h | h <;> rw [h] at hword <;> cases hword
      have hstart := h.startsOperand
      rw [atValue_plain hplain, hkind] at hstart
      cases hstart

theorem uneaten {other : TokenKind} (h : Eaten kind c d) (hne : kind ≠ other) :
    c.eat? other = none :=
  eat?_none (by rw [h.firstKind_eq]; exact hne)

/-- Behind an argument its expression has ended. -/
theorem atEnd_of_further {args : List (Argument Expr)}
    (h : FurtherSlots c args d) : c.AtEnd := by
  cases h with
  | closed hclose => exact atEnd_of_skipNewlines hclose rfl
  | trailing hcomma _ => exact atEnd_of_skipNewlines hcomma rfl
  | next hcomma _ _ => exact atEnd_of_skipNewlines hcomma rfl

theorem operator?_unique {level level' : Level} {op op' : BinaryOp}
    (h : level.operator? kind = some op)
    (h' : level'.operator? kind = some op') : op = op' := by
  cases level <;> cases kind <;> cases h <;> cases level' <;> cases h' <;> rfl

/-! ## Reading sequences -/

/-- A front of the sequence `xs` was read as the expression of a grouping, in
which no operator is of the level `height` or looser. -/
inductive Front (xs : List Element) (d : Cursor) (height : Nat) :
    Expr → Cursor → Prop where
  | grouped {t : Grouping} {ys : List Element} {rest : Cursor}
      (ht : t.Ordered) (htight : ∀ n ∈ t.precedences, 6 < n + height)
      (hxs : xs = t.elements ++ ys) (hrest : Continues rest ys d) :
      Front xs d height t.toExpr rest

/-- No operator of a level below `height` stands here. -/
def Cursor.Unjoined (c : Cursor) (height : Nat) : Prop :=
  ∀ level : Level, level.height < height →
    level.operator? (firstKind c.pending) = none

section

variable {xs ys : List Element} {d rest : Cursor} {height : Nat} {e : Expr}

/-- A front of a level is also one of the next looser level. -/
theorem Front.mono (h : Front xs d height e rest) :
    Front xs d (height + 1) e rest := by
  cases h with
  | grouped ht htight hxs hrest =>
      exact .grouped ht (fun n hn => Nat.lt_succ_of_lt (htight n hn)) hxs hrest

/-- **Two fronts with an operator of their level between them are one.** -/
theorem Front.join {level : Level} {kind : TokenKind} {op : BinaryOp}
    {t : Grouping} (hop : level.operator? kind = some op) (ht : t.Ordered)
    (htight : ∀ n ∈ t.precedences, 6 < n + (level.height + 1))
    (hxs : xs = t.elements ++ .operator op :: ys)
    (h : Front ys d level.height e rest) :
    Front xs d (level.height + 1) (.binary op t.toExpr e) rest := by
  have hprecedence := precedence_of_operator? hop
  cases h with
  | @grouped right zs _ hright hrightTight hys hrest =>
      have hjoined : (Grouping.binary op t right).Ordered := by
        constructor
        · intro n hn
          have hless := htight n hn
          omega
        · intro n hn
          have hless := hrightTight n hn
          omega
        · exact ht
        · exact hright
      refine Front.grouped hjoined ?_ ?_ hrest
      · simp only [Grouping.precedences, List.mem_cons, List.mem_append]
        rintro n (rfl | hn | hn)
        · omega
        · exact htight n hn
        · exact Nat.lt_succ_of_lt (hrightTight n hn)
      · rw [hxs, hys, Grouping.elements, List.append_assoc]
        rfl

end

section

variable {xs : List Element} {d : Cursor}

mutual

/-- **A sequence is read up to its end**, as an ordered grouping of it. -/
theorem sequence_expression (c : Cursor) {xs : List Element} {d : Cursor}
    (h : Sequence c xs d) (hd : d.AtEnd) :
    (expression c).Meets (fun e rest => rest = d ∧ ∃ t : Grouping,
      t.elements = xs ∧ t.Ordered ∧ t.toExpr = e) fun _ => False := by
  rw [expression]
  refine (sequence_chain .disjunction c h hd).bind ?_
  rintro condition rest hrest ⟨hfront, hunjoined⟩
  cases hfront with
  | @grouped t ys _ ht htight hxs hon =>
      cases hon with
      | ended =>
          have hquestion : firstKind d.pending ≠ .question := by
            intro hkind
            unfold Cursor.AtEnd at hd
            rw [hkind] at hd
            cases hd
          rw [eat?_none hquestion]
          exact ⟨rfl, t, by rw [hxs, List.append_nil], ht, rfl⟩
      | @operator _ _ token _ level op _ hpending hop _ =>
          -- No operator binds looser than the disjunction.
          have hnone := hunjoined level (Nat.lt_succ_of_le level.height_le)
          rw [hpending, firstKind, hop] at hnone
          cases hnone
      | @ternary _ d₁ d₂ _ zs zs' hquestion whenTrue d₃ hcolon whenFalse =>
          obtain ⟨⟨rest₁, hrest₁⟩, heat, rfl⟩ := eat?_of_eaten hquestion
          rw [heat]
          dsimp only
          refine (sequence_expression rest₁ whenTrue
            (atEnd_of_eaten hcolon rfl)).bind ?_
          rintro first rest₂ hrest₂ ⟨rfl, t₁, rfl, ht₁, rfl⟩
          refine (expect_eaten hcolon "':'").bind ?_
          rintro _ rest₃ hrest₃ rfl
          refine (sequence_expression rest₃ whenFalse hd).bind ?_
          rintro second rest₄ hrest₄ ⟨rfl, t₂, rfl, ht₂, rfl⟩
          refine ⟨rfl, .ternary t t₁ t₂, hxs.symm, ?_, rfl⟩
          constructor
          · intro n hn
            have hless := htight n hn
            simp only [Level.height] at hless
            omega
          · exact ht
          · exact ht₁
          · exact ht₂
termination_by 20 * c.size + 14
decreasing_by
  · simp only [Level.height]
    omega
  · omega
  · omega

theorem sequence_chain (level : Level) (c : Cursor) {xs : List Element}
    {d : Cursor} (h : Sequence c xs d) (hd : d.AtEnd) :
    (chain level c).Meets (fun e rest =>
      Front xs d (level.height + 1) e rest ∧
        rest.Unjoined (level.height + 1)) fun _ => False := by
  rw [chain]
  refine (sequence_operand level c h hd).bind ?_
  rintro left rest hrest ⟨hfront, hunjoined⟩
  exact (sequence_chainRest level left rest hd hfront.mono hunjoined).weaken _
termination_by 20 * c.size + 2 * level.height + 3

theorem sequence_operand (level : Level) (c : Cursor) {xs : List Element}
    {d : Cursor} (h : Sequence c xs d) (hd : d.AtEnd) :
    (operand level c).Meets (fun e rest =>
      Front xs d level.height e rest ∧ rest.Unjoined level.height)
      fun _ => False := by
  rw [operand]
  split
  · rename_i next hnext
    rw [Level.height_eq_tighter? hnext]
    exact sequence_chain next c h hd
  · rename_i hnone
    cases h with
    | operand first rest =>
        refine (operand_unary c first (attaches_of_continues rest hd)).imp ?_
        rintro e rest' ⟨rfl, rfl⟩
        constructor
        · exact .grouped (.operand (e := e)) nofun rfl rest
        · -- There is no tighter level.
          intro level' hlevel
          exfalso
          cases level <;> cases hnone
          cases level' <;> simp [Level.height] at hlevel
termination_by 20 * c.size + 2 * level.height + 2
decreasing_by
  · have hheight := Level.height_tighter? ‹_›
    omega
  · omega

theorem sequence_chainRest (level : Level) (left : Expr) (c : Cursor)
    {xs : List Element} {d : Cursor} (hd : d.AtEnd)
    (h : Front xs d (level.height + 1) left c)
    (hunjoined : c.Unjoined level.height) :
    (chainRest level left c).Meets (fun e rest =>
      Front xs d (level.height + 1) e rest ∧
        rest.Unjoined (level.height + 1)) fun _ => False := by
  cases hop : level.operator? (firstKind c.pending) with
  | none =>
      rw [chainRest_plain hop]
      refine ⟨h, ?_⟩
      intro level' hlevel
      rcases Nat.lt_or_eq_of_le (Nat.le_of_lt_succ hlevel) with hless | heq
      · exact hunjoined level' hless
      · rw [Level.eq_of_height heq]
        exact hop
  | some op =>
      cases h with
      | grouped ht htight hxs hon =>
          cases hon with
          | ended =>
              rw [operator?_of_atEnd hd] at hop
              cases hop
          | ternary hquestion _ _ _ =>
              rw [hquestion.firstKind_eq] at hop
              cases level <;> cases hop
          | @operator _ _ token pending _ _ _ hpending hop' rest =>
              rw [hpending, firstKind] at hop
              obtain rfl := operator?_unique hop hop'
              have hsize := Cursor.size_leaving_lt hpending
              rw [chainRest_operator hpending hop]
              refine (sequence_operand level _ rest hd).bind ?_
              rintro right rest' hrest' ⟨hright, hunjoined'⟩
              exact (sequence_chainRest level _ rest' hd
                (hright.join hop ht htight hxs) hunjoined').weaken _
termination_by 20 * c.size + 1
decreasing_by
  · have hheight := level.height_le
    omega
  · omega

theorem operand_unary (c : Cursor) {e : Expr} {d : Cursor}
    (h : Operand c e d) (hd : (firstKind d.pending).attaches = false) :
    (unary c).Meets (fun e' rest => e' = e ∧ rest = d) fun _ => False := by
  by_cases hplain : unaryOperator? (firstKind c.pending) = none
  · rw [unary_plain hplain]
    exact operand_primary c h hplain hd
  · generalize hbehind : d = d' at h
    cases h with
    | unary h hop inner =>
        subst hbehind
        have hsize := Cursor.size_leaving_lt h
        rw [unary_operator h hop]
        apply Outcome.Meets.weaken
        refine (operand_unary _ inner hd).map ?_
        rintro e' rest ⟨rfl, rfl⟩
        exact ⟨rfl, rfl⟩
    | number h hkind _ | text h hkind | bool h hkind | group h hkind _ _ =>
        rw [h, firstKind, hkind] at hplain
        exact absurd rfl hplain
    | name h hname | call h hname _ _ =>
        rw [h] at hplain
        exact absurd (unaryOperator?_of_isName hname) hplain
    | index h hname _ _ _ =>
        rw [h] at hplain
        exact absurd (unaryOperator?_of_isName
          (isName_of_isIndexable hname)) hplain
termination_by 20 * c.size + 1

theorem operand_primary (c : Cursor) {e : Expr} {d : Cursor}
    (h : Operand c e d) (hc : unaryOperator? (firstKind c.pending) = none)
    (hd : (firstKind d.pending).attaches = false) :
    (primary c).Meets (fun e' rest => e' = e ∧ rest = d) fun _ => False := by
  generalize hbehind : d = d' at h
  cases h with
  | number h hkind hx =>
      rw [primary_cons h, if_pos hkind, hx]
      exact ⟨rfl, rfl⟩
  | text h hkind =>
      rw [primary_cons h, if_neg (by rw [hkind]; decide), if_pos hkind]
      exact ⟨rfl, rfl⟩
  | bool h hkind =>
      rw [primary_cons h, if_neg (by rw [hkind]; decide),
        if_neg (by rw [hkind]; decide), if_pos hkind]
      exact ⟨rfl, rfl⟩
  | @name _ token pending h hname =>
      rw [hbehind] at hd
      have hfirst : (firstKind pending).attaches = false := hd
      rw [primary_name h hname, if_neg (ne_of_attaches hfirst rfl),
        if_neg fun hindex => ne_of_attaches hfirst rfl hindex.2]
      exact ⟨rfl, rfl⟩
  | @index _ _ _ token bracket pending _ h hname hbracket offset hclose =>
      have htail : (c.leaving pending).size < c.size :=
        Cursor.size_leaving_tail_lt h
      rw [primary_name h (isName_of_isIndexable hname),
        if_neg (by rw [firstKind, hbracket]; decide), if_pos ⟨hname, hbracket⟩]
      refine (formula_expression _ offset (atEnd_of_eaten hclose rfl)).bind ?_
      rintro e' rest hrest ⟨rfl, rfl⟩
      apply Outcome.Meets.weaken
      refine (expect_eaten hclose "']'").map ?_
      rintro _ rest' rfl
      exact ⟨rfl, rfl⟩
  | @group _ _ _ token pending _ h hkind inner hclose =>
      have hsize := Cursor.size_leaving_lt h
      have hskip := (c.leaving pending).size_skipNewlines
      rw [primary_group h hkind]
      refine (formula_expression _ inner
        (atEnd_of_skipNewlines hclose rfl)).bind ?_
      rintro e' rest hrest ⟨rfl, rfl⟩
      apply Outcome.Meets.weaken
      refine (expect_eaten hclose "')'").map ?_
      rintro _ rest' rfl
      exact ⟨rfl, rfl⟩
  | @call _ _ token bracket pending _ h hname hbracket hargs =>
      have hsize := Cursor.size_leaving_lt h
      have hopen : firstKind (bracket :: pending) = .leftParen := hbracket
      rw [primary_name h hname, if_pos hopen]
      refine (slots_callArguments (c.leaving (bracket :: pending)) rfl
        hbracket hargs).bind ?_
      rintro args rest hrest ⟨rfl, rfl⟩
      exact ⟨rfl, rfl⟩
  | unary h hop _ =>
      rw [h, firstKind, hop] at hc
      cases hc
termination_by 20 * c.size + 0

/-- A formula is read as what it stands for. -/
theorem formula_expression (c : Cursor) {e : Expr} {d : Cursor}
    (h : Formula c e d) (hd : d.AtEnd) :
    (expression c).Meets (fun e' rest => e' = e ∧ rest = d)
      fun _ => False := by
  generalize hbehind : d = d' at h
  cases h with
  | grouped sequence ht =>
      subst hbehind
      refine (sequence_expression c sequence hd).imp ?_
      rintro e' rest ⟨rfl, t', heq, ht', rfl⟩
      rw [ht'.unique ht heq]
      exact ⟨rfl, rfl⟩
termination_by 20 * c.size + 15

theorem slots_callArguments (c : Cursor) {bracket : Token}
    {pending : List Token} {args : List (Argument Expr)} {d : Cursor}
    (hc : c.pending = bracket :: pending) (hbracket : bracket.kind = .leftParen)
    (h : Slots (c.leaving pending) args d) :
    (callArguments c).Meets (fun args' rest => args' = args ∧ rest = d)
      fun _ => False := by
  have hsize := Cursor.size_leaving_lt hc
  have hopen : Eaten .leftParen c (c.leaving pending) :=
    ⟨bracket, hbracket, hc, rfl⟩
  rw [callArguments]
  refine (expect_eaten hopen "'('").bind ?_
  rintro _ rest hrest rfl
  exact (slots_arguments _ h).weaken _
termination_by 20 * c.size + 0

theorem slots_arguments (c : Cursor) {args : List (Argument Expr)}
    {d : Cursor} (h : Slots c args d) :
    (arguments true c).Meets (fun args' rest => args' = args ∧ rest = d)
      fun _ => False := by
  have hskip := c.size_skipNewlines
  generalize hbehind : d = d' at h
  cases h with
  | empty hclose =>
      obtain ⟨rest, heat, hrest⟩ := eat?_of_eaten hclose
      rw [arguments_closed true heat]
      exact ⟨rfl, hrest⟩
  | first first rest =>
      subst hbehind
      rw [arguments_first (uneaten_of_slot first)]
      exact (slot_argument _ first rest).weaken _
termination_by 20 * c.size + 18

theorem slots_further (c : Cursor) {args : List (Argument Expr)}
    {d : Cursor} (h : FurtherSlots c args d) :
    (arguments false c).Meets (fun args' rest => args' = args ∧ rest = d)
      fun _ => False := by
  have hskip := c.size_skipNewlines
  generalize hbehind : d = d' at h
  cases h with
  | closed hclose =>
      obtain ⟨rest, heat, hrest⟩ := eat?_of_eaten hclose
      rw [arguments_closed false heat]
      exact ⟨rfl, hrest⟩
  | trailing hcomma hclose =>
      obtain ⟨rest, heat, rfl⟩ := eat?_of_eaten hcomma
      obtain ⟨rest', heat', hrest'⟩ := eat?_of_eaten hclose
      obtain ⟨_, heq⟩ := arguments_trailing (uneaten hcomma nofun) heat heat'
      rw [heq]
      exact ⟨rfl, hrest'⟩
  | next hcomma next rest =>
      subst hbehind
      obtain ⟨behind, heat, rfl⟩ := eat?_of_eaten hcomma
      have hless := behind.2
      have hskip' := behind.1.size_skipNewlines
      obtain ⟨_, heq⟩ := arguments_next (uneaten hcomma nofun) heat
        (uneaten_of_slot next)
      rw [heq]
      exact (slot_argument _ next rest).weaken _
termination_by 20 * c.size + 16

theorem slot_argument (c : Cursor) {args more : List (Argument Expr)}
    {d d' : Cursor} (h : Slot c args d) (hrest : FurtherSlots d more d') :
    (argument c).Meets
      (fun args' rest => args' = args ++ more ∧ rest = d')
      fun _ => False := by
  cases h with
  | value h =>
      have hstart : c.atValue.size ≤ c.size := length_splitName c.pending
      have hread := formula_expression c.atValue h (atEnd_of_further hrest)
      cases heq : expression c.atValue with
      | failed fault =>
          rw [heq] at hread
          exact absurd hread id
      | done value rest hless =>
          rw [heq] at hread
          obtain ⟨rfl, rfl⟩ := hread
          obtain ⟨_, hdone⟩ := argument_done heq
          rw [hdone]
          apply Outcome.Meets.weaken
          refine (slots_further rest hrest).map ?_
          rintro args' behind ⟨rfl, rfl⟩
          exact ⟨rfl, rfl⟩
  | dropped hopen h hmissing hleft =>
      have hless := length_skipArgument hleft
      have hname := length_splitName c.pending
      obtain ⟨_, hdropped⟩ := argument_dropped h hmissing hleft
      rw [hdropped]
      exact (slots_further _ hrest).weaken _
termination_by 20 * c.size + 17

end

end

/-! ## Expressions and arguments from sequences -/

section

variable {c d : Cursor} {e : Expr}

theorem Formula.expression_eq (h : Formula c e d) (hd : d.AtEnd) :
    ∃ hless, expression c = .done e d hless := by
  have hread := formula_expression c h hd
  cases heq : expression c with
  | failed fault =>
      rw [heq] at hread
      exact absurd hread id
  | done e' rest hless =>
      rw [heq] at hread
      obtain ⟨rfl, rfl⟩ := hread
      exact ⟨hless, rfl⟩

/-- Every sequence up to the end of an expression has an ordered grouping. -/
theorem Sequence.formula {xs : List Element} (h : Sequence c xs d)
    (hd : d.AtEnd) :
    ∃ t : Grouping, t.elements = xs ∧ Formula c t.toExpr d := by
  have hread := sequence_expression c h hd
  cases heq : expression c with
  | failed fault =>
      rw [heq] at hread
      exact absurd hread id
  | done e rest hless =>
      rw [heq] at hread
      obtain ⟨rfl, t, rfl, ht, rfl⟩ := hread
      exact ⟨t, rfl, .grouped h ht⟩

/-- An operand is an expression. -/
theorem Operand.formula (h : Operand c e d) : Formula c e d :=
  @Formula.grouped _ _ (.operand e) (.operand h .ended) .operand

/-- Where an expression stands, no line ends. -/
theorem Formula.skipNewlines_eq (h : Formula c e d) : c.skipNewlines = c := by
  apply Script.skipNewlines_eq
  intro hkind
  have hstart := h.startsOperand
  rw [hkind] at hstart
  cases hstart

/-- An operand that starts like a named argument is the name of it. -/
theorem Operand.assign_of_isNamed (h : Operand c e d)
    (hnamed : IsNamed c.pending) : firstKind d.pending = .assign := by
  obtain ⟨word, sign, rest, hpending⟩ := hnamed.tokens
  rw [hpending] at hnamed
  obtain ⟨hword, hsign⟩ := hnamed
  have hne : ∀ kind : TokenKind, kind ≠ .identifier → kind ≠ .keyword →
      word.kind ≠ kind := by
    rintro kind hidentifier hkeyword rfl
    exact hword.elim hidentifier hkeyword
  cases h with
  | number h hkind _ | text h hkind | bool h hkind | group h hkind _ _ =>
      rw [hpending] at h
      cases h
      exact absurd hkind (hne _ nofun nofun)
  | name h _ =>
      rw [hpending] at h
      cases h
      exact hsign
  | index h _ hbracket _ _ | call h _ hbracket _ =>
      rw [hpending] at h
      cases h
      rw [hsign] at hbracket
      cases hbracket
  | unary h hop _ =>
      rw [hpending] at h
      cases h
      rcases hword with hkind | hkind <;> rw [hkind] at hop <;> cases hop

/-- No expression starts like an argument with a name. -/
theorem Formula.not_isNamed (h : Formula c e d) (hd : d.AtEnd) :
    ¬ IsNamed c.pending := by
  intro hnamed
  cases h with
  | @grouped _ _ t sequence _ =>
      generalize t.elements = xs at sequence
      cases sequence with
      | operand first rest =>
          have hplain := attaches_of_continues rest hd
          rw [first.assign_of_isNamed hnamed] at hplain
          cases hplain

/-- An expression is an argument without a name. -/
theorem Formula.slot (h : Formula c e d) (hd : d.AtEnd) :
    Slot c [⟨none, e⟩] d := by
  have hplain := h.not_isNamed hd
  have hslot : Slot c [⟨(splitName c.pending).1, e⟩] d := by
    apply Slot.value
    rwa [atValue_plain hplain]
  rwa [splitName_plain hplain] at hslot

/-- Behind a word and the sign it is an argument with a name. -/
theorem Formula.namedSlot {word sign : Token} {pending : List Token}
    (hc : c.pending = word :: sign :: pending)
    (hword : word.kind = .identifier ∨ word.kind = .keyword)
    (hsign : sign.kind = .assign) (h : Formula (c.leaving pending) e d) :
    Slot c [⟨some word.value, e⟩] d := by
  have hsplit : splitName c.pending = (some word.value, pending) := by
    rw [hc]
    exact splitName_named ⟨hword, hsign⟩
  have hslot : Slot c [⟨(splitName c.pending).1, e⟩] d := by
    apply Slot.value
    unfold Cursor.atValue
    rwa [hsplit]
  rwa [hsplit] at hslot

end

/-- **Operators group by precedence.** A sequence of operands is read up to its
end, as the one ordered grouping whose reading it is. -/
theorem expression_of_sequence {c d : Cursor} {xs : List Element}
    (h : Sequence c xs d) (hd : d.AtEnd) :
    ∃ t : Grouping, t.elements = xs ∧ t.Ordered ∧
      (∀ t' : Grouping, t'.elements = xs → t'.Ordered → t' = t) ∧
      ∃ hless, expression c = .done t.toExpr d hless := by
  have hread := sequence_expression c h hd
  cases heq : expression c with
  | failed fault =>
      rw [heq] at hread
      exact absurd hread id
  | done e rest hless =>
      rw [heq] at hread
      obtain ⟨rfl, t, hxs, ht, rfl⟩ := hread
      refine ⟨t, hxs, ht, ?_, hless, rfl⟩
      intro t' hxs' ht'
      exact ht'.unique ht (hxs'.trans hxs.symm)

/-- `a - b - c * -d ? e : f` and the end of the line. -/
def choiceLine : Cursor :=
  ⟨[⟨.identifier, "a", .start⟩, ⟨.minus, "-", .start⟩,
    ⟨.identifier, "b", .start⟩, ⟨.minus, "-", .start⟩,
    ⟨.identifier, "c", .start⟩, ⟨.star, "*", .start⟩, ⟨.minus, "-", .start⟩,
    ⟨.identifier, "d", .start⟩, ⟨.question, "?", .start⟩,
    ⟨.identifier, "e", .start⟩, ⟨.colon, ":", .start⟩,
    ⟨.identifier, "f", .start⟩, ⟨.newline, "\n", .start⟩], .start, 0⟩

/-- `(a - b) - (c * -d)`, and `e` or `f` by it. -/
def choiceGrouping : Grouping :=
  .ternary (.binary .sub
      (.binary .sub (.operand (.ref "a")) (.operand (.ref "b")))
      (.binary .mul (.operand (.ref "c"))
        (.operand (.unary .neg (.ref "d")))))
    (.operand (.ref "e")) (.operand (.ref "f"))

theorem expression_choiceLine :
    ∃ rest hless, firstKind rest.pending = .newline ∧
      expression choiceLine = .done choiceGrouping.toExpr rest hless := by
  have hname (name : String) (pending : List Token) :
      Operand ⟨⟨.identifier, name, .start⟩ :: pending, .start, 0⟩ (.ref name)
        ⟨pending, .start, 0⟩ :=
    @Operand.name _ ⟨.identifier, name, .start⟩ pending rfl rfl
  have hoperator {kind : TokenKind} {level : Level} {op : BinaryOp}
      {value : String} {pending : List Token} {xs : List Element} {d : Cursor}
      (hop : level.operator? kind = some op)
      (rest : Sequence ⟨pending, .start, 0⟩ xs d) :
      Continues ⟨⟨kind, value, .start⟩ :: pending, .start, 0⟩
        (.operator op :: xs) d :=
    @Continues.operator _ _ ⟨kind, value, .start⟩ _ _ _ _ rfl hop rest
  have hminus : Level.additive.operator? .minus = some .sub := rfl
  have hstar : Level.multiplicative.operator? .star = some .mul := rfl
  have hsequence : Sequence choiceLine choiceGrouping.elements
      ⟨[⟨.newline, "\n", .start⟩], .start, 0⟩ := by
    refine .operand (hname "a" _) (hoperator hminus ?_)
    refine .operand (hname "b" _) (hoperator hminus ?_)
    refine .operand (hname "c" _) (hoperator hstar ?_)
    refine .operand (.unary rfl rfl (hname "d" _)) ?_
    exact .ternary ⟨_, rfl, rfl, rfl⟩ (.operand (hname "e" _) .ended)
      ⟨_, rfl, rfl, rfl⟩ (.operand (hname "f" _) .ended)
  have hordered : choiceGrouping.Ordered := by
    unfold choiceGrouping
    repeat' constructor
    all_goals decide
  obtain ⟨t, _, _, hunique, hless, hread⟩ :=
    expression_of_sequence hsequence rfl
  rw [← hunique _ rfl hordered] at hread
  exact ⟨_, hless, rfl, hread⟩

end Barscript.Script
