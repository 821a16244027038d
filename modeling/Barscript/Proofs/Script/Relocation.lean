import Barscript.Proofs.Script.Renumber
import Barscript.Proofs.Script.Rules
import Barscript.Proofs.Script.Statements
import Mathlib.Tactic.SplitIfs

/-!
# Reading the same tokens at another place

The grammar reads neither the places of tokens nor the count of the calls
before them. A cursor whose tokens stand `n` lines further down and that counts
`k` more calls is read to the same end: the values are those with the
identities raised by `k`, and a fault is the same fault `n` lines further down
(`moved_expression`, `moved_statements`).
-/

namespace Barscript.Script

variable {n k : Nat}

/-! ## Further down -/

/-- The place `n` lines further down. -/
def Place.below (n : Nat) (place : Place) : Place :=
  ⟨place.line + n, place.column⟩

def Token.below (n : Nat) (token : Token) : Token :=
  { token with place := token.place.below n }

def SyntaxError.below (n : Nat) (e : SyntaxError) : SyntaxError :=
  { e with place := e.place.below n }

/-- The cursor with its tokens `n` lines further down and behind `k` more
calls. -/
def Cursor.below (n k : Nat) (c : Cursor) : Cursor where
  pending := c.pending.map (Token.below n)
  finish := c.finish.below n
  nextId := c.nextId + k

def Fault.below (n k : Nat) (fault : Fault) : Fault :=
  { fault with token := fault.token.below n, nextId := fault.nextId + k }

/-- The statement behind `k` more calls, `n` lines further down. -/
def Statement.below (n k : Nat) : Statement → Statement
  | .passedOver token => .passedOver (token.below n)
  | x => x.renumber (· + k)

/-- A message says nothing of a place. -/
theorem toError_below (fault : Fault) :
    (fault.below n k).toError = fault.toError.below n := rfl

theorem below_cons {c : Cursor} {token : Token} {pending : List Token}
    (h : c.pending = token :: pending) :
    (c.below n k).pending =
      token.below n :: pending.map (Token.below n) := by
  unfold Cursor.below
  rw [h, List.map_cons]

theorem below_nil {c : Cursor} (h : c.pending = []) :
    (c.below n k).pending = [] := by
  unfold Cursor.below
  rw [h, List.map_nil]

theorem peek_below (c : Cursor) : (c.below n k).peek = c.peek.below n := by
  unfold Cursor.peek Cursor.below
  cases c.pending <;> rfl

theorem fault_below (c : Cursor) (complaint : Complaint) :
    (c.below n k).fault complaint = (c.fault complaint).below n k := by
  unfold Cursor.fault
  rw [peek_below]
  rfl

theorem firstKind_below (pending : List Token) :
    firstKind (pending.map (Token.below n)) = firstKind pending := by
  cases pending <;> rfl

theorem tail_below (pending : List Token) :
    (pending.map (Token.below n)).tail = pending.tail.map (Token.below n) :=
  List.map_tail.symm

theorem skipNewlines_below (c : Cursor) :
    (c.below n k).skipNewlines = c.skipNewlines.below n k := by
  unfold Cursor.skipNewlines Cursor.leaving behindNewlines Cursor.below
  rw [List.dropWhile_map]
  rfl

theorem splitName_below (pending : List Token) :
    splitName (pending.map (Token.below n)) =
      ((splitName pending).1, (splitName pending).2.map (Token.below n)) := by
  match pending with
  | [] => rfl
  | [_] => rfl
  | word :: sign :: rest =>
      by_cases hname : IsNamed (word :: sign :: rest)
      · have hname' : IsNamed (word.below n :: sign.below n ::
            rest.map (Token.below n)) := hname
        rw [splitName_named hname]
        exact splitName_named hname'
      · have hname' : ¬ IsNamed (word.below n :: sign.below n ::
            rest.map (Token.below n)) := hname
        rw [splitName_plain hname]
        exact splitName_plain hname'

theorem atValue_below (c : Cursor) :
    (c.below n k).atValue = c.atValue.below n k := by
  have hsplit : (splitName (c.below n k).pending).2 =
      (splitName c.pending).2.map (Token.below n) :=
    congrArg Prod.snd (splitName_below c.pending)
  unfold Cursor.atValue
  rw [hsplit]
  rfl

theorem skipArgument_below (depth : Nat) (pending : List Token) :
    skipArgument depth (pending.map (Token.below n)) =
      (skipArgument depth pending).map (List.map (Token.below n)) :=
  skipArgument_map (f := Token.below n) (fun _ => rfl) depth pending

/-! ## Outcomes -/

/-- What the first outcome reads the second reads further down, with the value
changed by `f`; and a fault of the first is one of the second. -/
def Outcome.Moved {α : Type} (n k : Nat) (f : α → α) {m m' : Nat}
    (x : Outcome α m) (y : Outcome α m') : Prop :=
  match x with
  | .done value rest _ =>
    ∃ hless, y = .done (f value) (rest.below n k) hless
  | .failed fault => y = .failed (fault.below n k)

section

variable {α β : Type} {m m' p p' : Nat} {f : α → α} {g : β → β}
  {x : Outcome α m} {y : Outcome α m'}

theorem Outcome.Moved.weaken (h : x.Moved n k f y) {hm : m ≤ p}
    {hm' : m' ≤ p'} : (x.weaken hm).Moved n k f (y.weaken hm') := by
  cases x with
  | done value rest _ =>
      obtain ⟨_, rfl⟩ := h
      exact ⟨_, rfl⟩
  | failed fault =>
      obtain rfl := h
      rfl

theorem Outcome.Moved.map (h : x.Moved n k f y) {make make' : α → β}
    (hmake : ∀ a, make' (f a) = g (make a)) :
    (x.map make).Moved n k g (y.map make') := by
  cases x with
  | done value rest _ =>
      obtain ⟨_, rfl⟩ := h
      rw [Outcome.map_done, Outcome.map_done, hmake]
      exact ⟨_, rfl⟩
  | failed fault =>
      obtain rfl := h
      rfl

theorem Outcome.Moved.bind (h : x.Moved n k f y)
    {next : α → (rest : Cursor) → rest.size < m → Outcome β p}
    {next' : α → (rest : Cursor) → rest.size < m' → Outcome β p'}
    (hnext : ∀ a rest hrest hrest',
      (next a rest hrest).Moved n k g (next' (f a) (rest.below n k) hrest')) :
    (x.bind next).Moved n k g (y.bind next') := by
  cases x with
  | done value rest hrest =>
      obtain ⟨hless, rfl⟩ := h
      exact hnext value rest hrest hless
  | failed fault =>
      obtain rfl := h
      rfl

end

/-! ## Single tokens -/

section

variable {c c' : Cursor} {kind : TokenKind}

theorem uneaten_below (hc : c' = c.below n k) (h : c.eat? kind = none) :
    c'.eat? kind = none := by
  subst hc
  cases hpending : c.pending with
  | nil =>
      unfold Cursor.eat?
      split
      · rfl
      · rename_i hcons
        cases (below_nil hpending).symm.trans hcons
  | cons token pending =>
      rw [eat?_cons hpending] at h
      rw [eat?_cons (below_cons hpending)]
      split at h
      · cases h
      · rename_i hkind
        exact if_neg hkind

theorem eaten_below (hc : c' = c.below n k)
    {rest : { rest : Cursor // rest.size < c.size }}
    (h : c.eat? kind = some rest) :
    ∃ hless, c'.eat? kind = some ⟨rest.1.below n k, hless⟩ := by
  subst hc
  cases hpending : c.pending with
  | nil =>
      unfold Cursor.eat? at h
      split at h
      · cases h
      · rename_i hcons
        cases hpending.symm.trans hcons
  | cons token pending =>
      rw [eat?_cons hpending] at h
      rw [eat?_cons (below_cons hpending)]
      split at h
      · rename_i hkind
        cases h
        exact ⟨_, if_pos hkind⟩
      · cases h

theorem moved_expect (hc : c' = c.below n k) (kind : TokenKind)
    (what : String) :
    (c.expect kind what).Moved n k (Token.below n)
      (c'.expect kind what) := by
  subst hc
  cases heat : c.eat? kind with
  | none =>
      rw [expect_none heat, expect_none (uneaten_below rfl heat), fault_below]
      rfl
  | some rest =>
      obtain ⟨_, heat'⟩ := eaten_below (n := n) (k := k) rfl heat
      rw [expect_some heat, expect_some heat', peek_below]
      exact ⟨_, rfl⟩

end

/-! ## Expressions -/

/-- Primary expressions that hold no other. -/
theorem moved_atom {c : Cursor} {token : Token} {pending : List Token}
    (h : c.pending = token :: pending) (hgroup : token.kind ≠ .leftParen)
    (hname : token.isName ≠ true) :
    (primary c).Moved n k (Expr.renumber (· + k)) (primary (c.below n k)) := by
  have hkind : (token.below n).kind = token.kind := rfl
  have hvalue : (token.below n).value = token.value := rfl
  have hname' : (token.below n).isName ≠ true := hname
  rw [primary_cons h, primary_cons (below_cons h), hkind, hvalue,
    if_neg hgroup, if_neg hgroup, if_neg hname, if_neg hname',
    fault_below, fault_below]
  split_ifs
  · cases Decimal.readText? token.value with
    | none => rfl
    | some x => exact ⟨_, rfl⟩
  · exact ⟨_, rfl⟩
  · exact ⟨_, rfl⟩
  · rfl

mutual

/-- **An expression is read the same at another place.** -/
theorem moved_expression (c c' : Cursor) (hc : c' = c.below n k) :
    (expression c).Moved n k (Expr.renumber (· + k)) (expression c') := by
  rw [expression, expression]
  refine (moved_chain .disjunction c c' hc).bind ?_
  intro condition rest hrest _
  cases heat : rest.eat? .question with
  | none =>
      rw [uneaten_below rfl heat]
      exact ⟨_, rfl⟩
  | some behind =>
      obtain ⟨_, heat'⟩ := eaten_below (n := n) (k := k) rfl heat
      obtain ⟨rest₁, hrest₁⟩ := behind
      rw [heat']
      refine (moved_expression rest₁ _ rfl).bind ?_
      intro whenTrue rest₂ hrest₂ _
      refine (moved_expect rfl .colon "':'").bind ?_
      intro _ rest₃ hrest₃ _
      refine (moved_expression rest₃ _ rfl).bind ?_
      intro whenFalse rest₄ hrest₄ _
      exact ⟨_, rfl⟩
termination_by 20 * c.size + 14
decreasing_by
  · simp only [Level.height]
    omega
  · omega
  · omega

theorem moved_chain (level : Level) (c c' : Cursor)
    (hc : c' = c.below n k) :
    (chain level c).Moved n k (Expr.renumber (· + k)) (chain level c') := by
  rw [chain, chain]
  refine (moved_operand level c c' hc).bind ?_
  intro left rest hrest _
  exact (moved_chainRest level left rest _ rfl).weaken
termination_by 20 * c.size + 2 * level.height + 3

theorem moved_operand (level : Level) (c c' : Cursor)
    (hc : c' = c.below n k) :
    (operand level c).Moved n k (Expr.renumber (· + k))
      (operand level c') := by
  rw [operand, operand]
  cases hnext : level.tighter? with
  | none => exact moved_unary c c' hc
  | some next => exact moved_chain next c c' hc
termination_by 20 * c.size + 2 * level.height + 2
decreasing_by
  · omega
  · have hheight := Level.height_tighter? hnext
    omega

theorem moved_chainRest (level : Level) (left : Expr) (c c' : Cursor)
    (hc : c' = c.below n k) :
    (chainRest level left c).Moved n k (Expr.renumber (· + k))
      (chainRest level (left.renumber (· + k)) c') := by
  have hfirst : firstKind c'.pending = firstKind c.pending := by
    rw [hc]
    exact firstKind_below c.pending
  cases hop : level.operator? (firstKind c.pending) with
  | none =>
      rw [chainRest_plain hop, chainRest_plain (by rwa [hfirst]), hc]
      exact ⟨_, rfl⟩
  | some op =>
      obtain ⟨token, pending, hpending⟩ := cons_of_firstKind fun hend => by
        rw [hend] at hop
        cases level <;> cases hop
      rw [hpending] at hop
      subst hc
      have hsize := Cursor.size_leaving_lt hpending
      rw [chainRest_operator hpending hop,
        chainRest_operator (below_cons hpending) hop]
      refine (moved_operand level (c.leaving pending) _ rfl).bind ?_
      intro right rest hrest _
      exact (moved_chainRest level (.binary op left right) rest _ rfl).weaken
termination_by 20 * c.size + 1
decreasing_by
  · have hheight := level.height_le
    omega
  · omega

theorem moved_unary (c c' : Cursor) (hc : c' = c.below n k) :
    (unary c).Moved n k (Expr.renumber (· + k)) (unary c') := by
  have hfirst : firstKind c'.pending = firstKind c.pending := by
    rw [hc]
    exact firstKind_below c.pending
  cases hop : unaryOperator? (firstKind c.pending) with
  | none =>
      rw [unary_plain hop, unary_plain (by rwa [hfirst])]
      exact moved_primary c c' hc
  | some op =>
      obtain ⟨token, pending, hpending⟩ := cons_of_firstKind fun hend => by
        rw [hend] at hop
        cases hop
      rw [hpending] at hop
      subst hc
      have hsize := Cursor.size_leaving_lt hpending
      rw [unary_operator hpending hop,
        unary_operator (below_cons hpending) hop]
      apply Outcome.Moved.weaken
      exact (moved_unary (c.leaving pending) _ rfl).map fun _ => rfl
termination_by 20 * c.size + 1

theorem moved_primary (c c' : Cursor) (hc : c' = c.below n k) :
    (primary c).Moved n k (Expr.renumber (· + k)) (primary c') := by
  subst hc
  cases hpending : c.pending with
  | nil =>
      rw [primary_nil hpending, primary_nil (below_nil hpending), fault_below]
      rfl
  | cons token pending =>
      have hpending' := below_cons (n := n) (k := k) hpending
      have hsize := Cursor.size_leaving_lt hpending
      by_cases hgroup : token.kind = .leftParen
      · -- An expression in parentheses.
        have hskip := (c.leaving pending).size_skipNewlines
        rw [primary_group hpending hgroup, primary_group hpending' hgroup]
        refine (moved_expression (c.leaving pending).skipNewlines _
          (skipNewlines_below (c.leaving pending))).bind ?_
        intro inner rest hrest _
        have hclose := moved_expect (skipNewlines_below (n := n) (k := k) rest)
          .rightParen "')'"
        apply Outcome.Moved.weaken
        exact hclose.map fun _ => rfl
      by_cases hname : token.isName = true
      · have htail := Cursor.size_leaving_tail_lt hpending
        have hindexable : (token.below n).isIndexable = token.isIndexable := rfl
        rw [primary_name hpending hname, primary_name hpending' hname,
          firstKind_below, hindexable]
        by_cases hcall : firstKind pending = .leftParen
        · rw [if_pos hcall, if_pos hcall]
          refine (moved_callArguments (c.leaving pending) _ rfl).bind ?_
          intro args rest hrest _
          have hcount : (rest.below n k).countCall =
              rest.countCall.below n k := by
            unfold Cursor.countCall Cursor.below
            rw [Nat.add_right_comm]
          simp only [hcount]
          exact ⟨_, rfl⟩
        rw [if_neg hcall, if_neg hcall]
        by_cases hindex : token.isIndexable ∧ firstKind pending = .leftBracket
        · have hoffset : (c.below n k).leaving
              (pending.map (Token.below n)).tail =
                (c.leaving pending.tail).below n k := by
            rw [tail_below]
            rfl
          rw [if_pos hindex, if_pos hindex]
          refine (moved_expression (c.leaving pending.tail) _ hoffset).bind ?_
          intro offset rest hrest _
          apply Outcome.Moved.weaken
          exact (moved_expect rfl .rightBracket "']'").map fun _ => rfl
        · rw [if_neg hindex, if_neg hindex]
          exact ⟨_, rfl⟩
      · exact moved_atom hpending hgroup hname
termination_by 20 * c.size + 0

theorem moved_callArguments (c c' : Cursor) (hc : c' = c.below n k) :
    (callArguments c).Moved n k (renumberArguments (· + k))
      (callArguments c') := by
  rw [callArguments, callArguments]
  refine (moved_expect hc .leftParen "'('").bind ?_
  intro _ rest hrest _
  exact (moved_arguments true rest _ rfl).weaken
termination_by 20 * c.size + 0

theorem moved_arguments (first : Bool) (c c' : Cursor)
    (hc : c' = c.below n k) :
    (arguments first c).Moved n k (renumberArguments (· + k))
      (arguments first c') := by
  have hskip := c.size_skipNewlines
  have hnewlines : c'.skipNewlines = c.skipNewlines.below n k := by
    rw [hc, skipNewlines_below]
  cases heat : c.skipNewlines.eat? .rightParen with
  | some rest =>
      obtain ⟨_, heat'⟩ := eaten_below hnewlines heat
      rw [arguments_closed first heat, arguments_closed first heat']
      exact ⟨_, rfl⟩
  | none =>
      have heat' := uneaten_below hnewlines heat
      cases first with
      | true =>
          rw [arguments_first heat, arguments_first heat']
          exact (moved_argument c.skipNewlines _ hnewlines).weaken
      | false =>
          cases hcomma : c.skipNewlines.eat? .comma with
          | none =>
              have hcomma' := uneaten_below hnewlines hcomma
              rw [arguments_unmarked heat hcomma,
                arguments_unmarked heat' hcomma', hnewlines, fault_below]
              rfl
          | some rest =>
              obtain ⟨_, hcomma'⟩ := eaten_below hnewlines hcomma
              have hless := rest.2
              have hskip' := rest.1.size_skipNewlines
              have hbehind := skipNewlines_below (n := n) (k := k) rest.1
              cases hclose : rest.1.skipNewlines.eat? .rightParen with
              | some last =>
                  obtain ⟨_, hclose'⟩ := eaten_below hbehind hclose
                  obtain ⟨_, heq⟩ := arguments_trailing heat hcomma hclose
                  obtain ⟨_, heq'⟩ := arguments_trailing heat' hcomma' hclose'
                  rw [heq, heq']
                  exact ⟨_, rfl⟩
              | none =>
                  have hclose' := uneaten_below hbehind hclose
                  obtain ⟨_, heq⟩ := arguments_next heat hcomma hclose
                  obtain ⟨_, heq'⟩ := arguments_next heat' hcomma' hclose'
                  rw [heq, heq']
                  exact (moved_argument rest.1.skipNewlines _ hbehind).weaken
termination_by 20 * c.size + if first then 17 else 15
decreasing_by
  · simp only [if_false]
    omega
  · simp only [if_true]
    omega

theorem moved_argument (c c' : Cursor) (hc : c' = c.below n k) :
    (argument c).Moved n k (renumberArguments (· + k)) (argument c') := by
  have hstart : c.atValue.size ≤ c.size := length_splitName c.pending
  have hname : (splitName c'.pending).1 = (splitName c.pending).1 := by
    rw [hc]
    unfold Cursor.below
    rw [splitName_below]
  have hvalue : c'.atValue = c.atValue.below n k := by
    rw [hc, atValue_below]
  have hskip : skipArgument 0 c'.atValue.pending =
      (skipArgument 0 c.atValue.pending).map (List.map (Token.below n)) := by
    rw [hvalue]
    exact skipArgument_below 0 c.atValue.pending
  have hexpression := moved_expression c.atValue c'.atValue hvalue
  cases heq : expression c.atValue with
  | done value rest hrest =>
      rw [heq] at hexpression
      obtain ⟨_, heq'⟩ := hexpression
      obtain ⟨_, hdone⟩ := argument_done heq
      obtain ⟨_, hdone'⟩ := argument_done heq'
      rw [hdone, hdone', hname]
      apply Outcome.Moved.weaken
      exact (moved_arguments false rest _ rfl).map fun _ => rfl
  | failed fault =>
      rw [heq] at hexpression
      have heq' : expression c'.atValue = .failed (fault.below n k) :=
        hexpression
      by_cases hunexpected : fault.complaint = .unexpected
      · cases hleft : skipArgument 0 c.atValue.pending with
        | some left =>
            -- The argument is dropped at both places.
            rw [hleft] at hskip
            obtain ⟨_, hdrop⟩ := argument_dropped heq hunexpected hleft
            obtain ⟨_, hdrop'⟩ := argument_dropped heq' hunexpected hskip
            rw [hdrop, hdrop']
            apply Outcome.Moved.weaken
            refine moved_arguments false ⟨left, c.finish, fault.nextId⟩ _ ?_
            rw [hc]
            rfl
        | none =>
            rw [hleft] at hskip
            rw [argument_failed heq (Or.inr hleft),
              argument_failed heq' (Or.inr hskip)]
            rfl
      · rw [argument_failed heq (Or.inl hunexpected),
          argument_failed heq' (Or.inl hunexpected)]
        rfl
termination_by 20 * c.size + 16
decreasing_by
  · omega
  · simp only [if_false]
    omega
  · have hless : left.length ≤ c.size :=
      Nat.le_trans (length_skipArgument hleft) hstart
    simp only [if_false, Cursor.size] at *
    omega

end

/-! ## Statements -/

theorem moved_declared (c c' : Cursor) (hc : c' = c.below n k) :
    (variableDeclaration.declared c).Moved n k (Statement.below n k)
      (variableDeclaration.declared c') := by
  unfold variableDeclaration.declared
  refine (moved_expect hc .identifier "variable name").bind ?_
  intro name rest hrest _
  cases heat : rest.eat? .colonAssign with
  | some behind =>
      obtain ⟨_, heat'⟩ := eaten_below (n := n) (k := k) rfl heat
      rw [heat']
      apply Outcome.Moved.weaken
      exact (moved_expression behind.1 _ rfl).map fun _ => rfl
  | none =>
      rw [uneaten_below rfl heat]
      refine (moved_expect rfl .assign "'='").bind ?_
      intro _ rest' hrest' _
      apply Outcome.Moved.weaken
      exact (moved_expression rest' _ rfl).map fun _ => rfl

theorem moved_variableDeclaration (c c' : Cursor) (hc : c' = c.below n k) :
    (variableDeclaration c).Moved n k (Statement.below n k)
      (variableDeclaration c') := by
  have hfirst : firstKind c'.pending = firstKind c.pending := by
    rw [hc]
    exact firstKind_below c.pending
  have hsecond : firstKind c'.pending.tail = firstKind c.pending.tail := by
    rw [hc, ← firstKind_below (n := n) c.pending.tail, ← tail_below]
    rfl
  have htail : c'.leaving c'.pending.tail =
      (c.leaving c.pending.tail).below n k := by
    rw [hc]
    unfold Cursor.below Cursor.leaving
    rw [tail_below]
  unfold variableDeclaration
  by_cases htype : firstKind c.pending = .identifier ∧
      firstKind c.pending.tail = .identifier
  · rw [if_pos htype, if_pos (by rwa [hfirst, hsecond])]
    exact (moved_declared _ _ htail).weaken
  · rw [if_neg htype, if_neg (by rwa [hfirst, hsecond])]
    exact moved_declared c c' hc

theorem moved_statement {c : Cursor} {token : Token} {pending : List Token}
    (h : c.pending = token :: pending) :
    (statement token c pending h).Moved n k (Statement.below n k)
      (statement (token.below n) (c.below n k)
        (pending.map (Token.below n)) (below_cons h)) := by
  have hkind : (token.below n).kind = token.kind := rfl
  have hvalue : (token.below n).value = token.value := rfl
  have htail : (c.below n k).leaving (pending.map (Token.below n)).tail =
      (c.leaving pending.tail).below n k := by
    unfold Cursor.below Cursor.leaving
    rw [tail_below]
  have harguments : ∀ make : List (Argument Expr) → Statement,
      (∀ args, make (renumberArguments (· + k) args) =
        (make args).below n k) →
      ((callArguments (c.leaving pending)).map make).Moved n k
        (Statement.below n k)
        ((callArguments ((c.leaving pending).below n k)).map make) :=
    fun make hmake =>
      (moved_callArguments (c.leaving pending) _ rfl).map hmake
  unfold statement
  dsimp only
  rw [hkind, hvalue, firstKind_below]
  cases token.kind with
  | versionPragma => exact ⟨_, rfl⟩
  | keyword =>
      dsimp only
      split_ifs
      · exact (harguments .declaration fun _ => rfl).weaken
      · exact (moved_variableDeclaration (c.leaving pending) _ rfl).weaken
      · apply Outcome.Moved.weaken
        exact (moved_expression (c.leaving pending) _ rfl).map fun _ => rfl
      · exact ⟨_, rfl⟩
  | builtinFunction =>
      dsimp only
      split_ifs
      · exact (harguments (.input token.value) fun _ => rfl).weaken
      · exact (harguments (.order token.value) fun _ => rfl).weaken
      · exact (moved_expression c _ rfl).map fun _ => rfl
      · exact ⟨_, rfl⟩
  | identifier =>
      dsimp only
      split_ifs
      · apply Outcome.Moved.weaken
        exact (moved_expression (c.leaving pending.tail) _ htail).map
          fun _ => rfl
      · exact ⟨_, rfl⟩
  | _ => exact ⟨_, rfl⟩

/-- **A script is read the same at another place.** -/
theorem moved_statements (c : Cursor) :
    statements (c.below n k) =
      ((statements c).map (List.map (Statement.below n k))).mapError
        (Fault.below n k) := by
  cases hpending : c.pending with
  | nil =>
      rw [statements_nil hpending, statements_nil (below_nil hpending)]
      rfl
  | cons token pending =>
      have hstatement := moved_statement (n := n) (k := k) hpending
      rw [statements_cons hpending, statements_cons (below_cons hpending)]
      cases heq : statement token c pending hpending with
      | failed fault =>
          rw [heq] at hstatement
          have heq' : statement (token.below n) (c.below n k) _ _ =
            .failed (fault.below n k) := hstatement
          rw [heq']
          rfl
      | done value rest hrest =>
          rw [heq] at hstatement
          obtain ⟨_, heq'⟩ := hstatement
          rw [heq']
          dsimp only
          rw [moved_statements rest]
          cases statements rest <;> rfl
termination_by c.size

/-- What a statement contributes does not depend on its place. -/
theorem add_below (s : Strategy) (x : Statement) :
    (s.renumber (· + k)).add (x.below n k) =
      (s.add x).renumber (· + k) := by
  have hplain : x.below n k = x.renumber (· + k) ∨
      ∃ token, x = .passedOver token := by
    cases x with
    | passedOver token => exact Or.inr ⟨token, rfl⟩
    | _ => exact Or.inl rfl
  rcases hplain with hplain | ⟨token, rfl⟩
  · rw [hplain, add_renumber]
  · rfl

/-- What statements add up to does not depend on their place. -/
theorem foldl_add_below (all : List Statement) (s : Strategy) :
    (all.map (Statement.below n k)).foldl Strategy.add
        (s.renumber (· + k)) =
      (all.foldl Strategy.add s).renumber (· + k) := by
  induction all generalizing s with
  | nil => rfl
  | cons x rest ih =>
      rw [List.map_cons, List.foldl_cons, add_below, ih]
      rfl

end Barscript.Script
