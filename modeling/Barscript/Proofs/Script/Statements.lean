import Barscript.Script.Strategy
import Barscript.Proofs.Script.Phrase
import Mathlib.Tactic.SplitIfs

/-!
# Statements that were read

A script that can be read is read statement by statement
(`statements_cases`). The calls of its statements are numbered upwards through
the whole script (`numbered_statements`), and a script that cannot be read is at
fault at one of its tokens or at its end (`later_statements`).
-/

namespace Barscript.Script

/-! ## One statement after another -/

theorem statements_nil {c : Cursor} (h : c.pending = []) :
    statements c = .ok [] := by
  rw [statements]
  split
  · rfl
  · rename_i hcons
    cases h.symm.trans hcons

theorem statements_cons {c : Cursor} {token : Token} {pending : List Token}
    (h : c.pending = token :: pending) :
    statements c =
      match statement token c pending h with
      | .failed fault => .error fault
      | .done value rest _ => (statements rest).map (value :: ·) := by
  rw [statements]
  split
  · rename_i hnil
    cases h.symm.trans hnil
  · rename_i token' pending' hcons
    cases h.symm.trans hcons
    rfl

/-- Nothing is left, or one statement was read and then the others. -/
theorem statements_cases {c : Cursor} {all : List Statement}
    (h : statements c = .ok all) :
    (c.pending = [] ∧ all = []) ∨
      ∃ (token : Token) (pending : List Token)
        (hpending : c.pending = token :: pending) (value : Statement)
        (rest : Cursor) (hrest : rest.size < c.size) (others : List Statement),
        statement token c pending hpending = .done value rest hrest ∧
          statements rest = .ok others ∧ all = value :: others := by
  rw [statements] at h
  split at h
  · rename_i hnil
    cases h
    exact Or.inl ⟨hnil, rfl⟩
  · rename_i token pending hpending
    split at h
    · cases h
    · rename_i value rest hrest heq
      cases hothers : statements rest with
      | error fault =>
          rw [hothers] at h
          cases h
      | ok others =>
          rw [hothers] at h
          cases h
          exact Or.inr ⟨token, pending, hpending, value, rest, hrest, others,
            heq, hothers, rfl⟩

/-- What grows with each statement is the sum over the script. -/
theorem foldl_add {β : Type} (field : Strategy → List β)
    (part : Statement → List β)
    (h : ∀ s x, field (s.add x) = field s ++ part x)
    (all : List Statement) (s : Strategy) :
    field (all.foldl Strategy.add s) = field s ++ all.flatMap part := by
  induction all generalizing s with
  | nil => exact (List.append_nil _).symm
  | cons x rest ih =>
      rw [List.foldl_cons, ih, h, List.flatMap_cons, List.append_assoc]

/-- The statements of a script that parses. -/
theorem statements_of_parse {source : String} {s : Strategy}
    (h : Strategy.parse source = .ok s) :
    ∃ all, statements (.ofSource source) = .ok all ∧
      s = .ofStatements all := by
  unfold Strategy.parse at h
  cases hall : statementsOf source with
  | error fault =>
      rw [hall] at h
      cases h
  | ok all =>
      rw [hall] at h
      cases h
      exact ⟨all, hall, rfl⟩

/-! ## Numbers of calls -/

/-- The calls of a statement. -/
def Statement.calls : Statement → List Expr
  | .declaration args => argumentCalls args
  | .assignment _ value => value.calls
  | .condition test => test.calls
  | .input _ args => argumentCalls args
  | .order _ args => argumentCalls args
  | .indicator call => call.calls
  | .version _ => []
  | .passedOver _ => []

/-- From `c` to `rest` a statement was read: its calls are numbered, and what
is left is the end of what was left. -/
structure Stated (c : Cursor) (value : Statement) (rest : Cursor) : Prop where
  leads : c.Leads rest
  numbered : Numbered c.nextId rest.nextId value.calls

section

variable {start : Cursor} (c : Cursor)

theorem stated_expression (hleads : start.Leads c)
    (hid : c.nextId = start.nextId) {f : Expr → Statement}
    (hf : ∀ e, (f e).calls = e.calls) :
    ((expression c).map f).Meets (Stated start) (Later start) := by
  refine ((phrase_expression c).sameCount hleads hid).map ?_
  intro e rest he
  refine ⟨hleads.trans he.leads, ?_⟩
  rw [hf, ← hid]
  exact he.numbered

theorem stated_callArguments (hleads : start.Leads c)
    (hid : c.nextId = start.nextId) {f : List (Argument Expr) → Statement}
    (hf : ∀ args, (f args).calls = argumentCalls args) :
    ((callArguments c).map f).Meets (Stated start) (Later start) := by
  refine ((phrase_callArguments c).sameCount hleads hid).map ?_
  intro args rest hargs
  refine ⟨hleads.trans hargs.leads, ?_⟩
  rw [hf, ← hid]
  exact hargs.numbered

theorem stated_declared (hleads : start.Leads c)
    (hid : c.nextId = start.nextId) :
    (variableDeclaration.declared c).Meets (Stated start) (Later start) := by
  unfold variableDeclaration.declared
  refine ((meets_expect c .identifier "variable name").sameCount hleads hid).bind ?_
  intro name rest hrest hname
  have hrestLeads := hleads.trans hname.leads
  have hrestId : rest.nextId = start.nextId := hname.nextId.trans hid
  split
  · rename_i rest' _ heat
    have hsign := eaten_of_eat? heat
    apply Outcome.Meets.weaken
    exact stated_expression rest' (hrestLeads.trans hsign.leads)
      (hsign.nextId.trans hrestId) fun _ => rfl
  · refine ((meets_expect rest .assign "'='").sameCount hrestLeads hrestId).bind ?_
    intro sign rest' hrest' hsign
    apply Outcome.Meets.weaken
    exact stated_expression rest' (hrestLeads.trans hsign.leads)
      (hsign.nextId.trans hrestId) fun _ => rfl

theorem stated_variableDeclaration (hleads : start.Leads c)
    (hid : c.nextId = start.nextId) :
    (variableDeclaration c).Meets (Stated start) (Later start) := by
  unfold variableDeclaration
  split
  · exact (stated_declared _ (hleads.trans (leads_tail c)) hid).weaken _
  · exact stated_declared c hleads hid

end

theorem stated_statement {token : Token} {c : Cursor}
    {pending : List Token} (h : c.pending = token :: pending) :
    (statement token c pending h).Meets (Stated c) (Later c) := by
  have hleads : c.Leads (c.leaving pending) := leads_token h
  have hnone : ∀ (value : Statement), value.calls = [] →
      Stated c value (c.leaving pending) := by
    intro value hvalue
    refine ⟨hleads, ?_⟩
    rw [hvalue]
    exact .nil (Nat.le_refl _)
  unfold statement
  dsimp only
  split
  · exact hnone _ rfl
  · split_ifs
    · exact (stated_callArguments _ hleads rfl fun _ => rfl).weaken _
    · exact (stated_variableDeclaration _ hleads rfl).weaken _
    · exact (stated_expression _ hleads rfl fun _ => rfl).weaken _
    · exact hnone _ rfl
  · split_ifs
    · exact (stated_callArguments _ hleads rfl fun _ => rfl).weaken _
    · exact (stated_callArguments _ hleads rfl fun _ => rfl).weaken _
    · exact stated_expression _ (.refl c) rfl fun _ => rfl
    · exact hnone _ rfl
  · split_ifs
    · -- The sign behind the name is left out as well.
      have hbehind := hleads.trans (leads_tail (c.leaving pending))
      exact (stated_expression _ hbehind rfl fun _ => rfl).weaken _
    · exact hnone _ rfl
  · exact hnone _ rfl

/-- **A script fails at one of its tokens**, or at its end. -/
theorem later_statements (c : Cursor) {fault : Fault}
    (hfault : statements c = .error fault) : Later c fault := by
  cases hpending : c.pending with
  | nil =>
      rw [statements_nil hpending] at hfault
      cases hfault
  | cons token pending =>
      have hvalue := stated_statement hpending
      rw [statements_cons hpending] at hfault
      cases heq : statement token c pending hpending with
      | failed first =>
          rw [heq] at hfault hvalue
          cases hfault
          exact hvalue
      | done value rest hrest =>
          rw [heq] at hfault hvalue
          have hvalue : Stated c value rest := hvalue
          dsimp only at hfault
          cases hothers : statements rest with
          | error later =>
              rw [hothers] at hfault
              cases hfault
              exact (later_statements rest hothers).further hvalue.leads
                hvalue.numbered.le
          | ok others =>
              rw [hothers] at hfault
              cases hfault
termination_by c.size

/-- **The calls of a script are numbered upwards.** -/
theorem numbered_statements (c : Cursor) {all : List Statement}
    (hall : statements c = .ok all) :
    ∃ high, Numbered c.nextId high (all.flatMap Statement.calls) := by
  rcases statements_cases hall with ⟨_, rfl⟩ | hread
  · exact ⟨c.nextId, .nil (Nat.le_refl _)⟩
  · obtain ⟨token, pending, hpending, value, rest, hrest, others, heq,
      hothers, rfl⟩ := hread
    -- The numbers of the other statements start where these end.
    have hvalue := stated_statement hpending
    rw [heq] at hvalue
    have hvalue : Stated c value rest := hvalue
    obtain ⟨high, hnumbered⟩ := numbered_statements rest hothers
    rw [List.flatMap_cons]
    exact ⟨high, hvalue.numbered.append hnumbered⟩
termination_by c.size

/-! ## Indicator calls -/

/-- The indicator calls of a statement. -/
def Statement.indicatorCalls : Statement → List Expr
  | .declaration args => argumentIndicators args
  | .assignment _ value => value.indicatorCalls
  | .condition test => test.indicatorCalls
  | .input _ args => argumentIndicators args
  | .order _ args => argumentIndicators args
  | .indicator call => call.indicatorCalls
  | .version _ => []
  | .passedOver _ => []

/-- The indicator calls of a statement are its calls that compute an
indicator. -/
theorem filter_statementCalls (x : Statement) :
    x.calls.filter Expr.isIndicatorCall = x.indicatorCalls := by
  cases x with
  | declaration args => exact filter_argumentCalls args
  | assignment name value => exact filter_calls value
  | condition test => exact filter_calls test
  | input function args => exact filter_argumentCalls args
  | order function args => exact filter_argumentCalls args
  | indicator call => exact filter_calls call
  | version _ => rfl
  | passedOver _ => rfl

/-- The calls inside a call of a statement are calls of the statement. -/
theorem calls_statement (x : Statement) {call : Expr} (h : call ∈ x.calls) :
    call.calls ⊆ x.calls := by
  cases x with
  | declaration args => exact argumentCalls_trans args h
  | assignment name value => exact calls_trans value h
  | condition test => exact calls_trans test h
  | input function args => exact argumentCalls_trans args h
  | order function args => exact argumentCalls_trans args h
  | indicator e => exact calls_trans e h
  | version _ => cases h
  | passedOver _ => cases h

/-! ## Readings that were computed -/

/-- What is computed from the outcome of a reading is said of a reading that
succeeds. -/
theorem exists_ok_of_map {ε α β : Type} {r : Except ε α} {f : α → β}
    {value : β} (h : r.toOption.map f = some value) :
    ∃ a, r = .ok a ∧ f a = value := by
  cases r with
  | error fault => cases h
  | ok a => exact ⟨a, rfl, Option.some.inj h⟩

theorem exists_ok_of_toBool {ε α : Type} {r : Except ε α}
    (h : r.toBool = true) : ∃ a, r = .ok a := by
  cases r with
  | error fault => cases h
  | ok a => exact ⟨a, rfl⟩

end Barscript.Script
