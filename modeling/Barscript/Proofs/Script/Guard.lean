import Barscript.Proofs.Script.Slots
import Barscript.Proofs.Script.Statements
import Mathlib.Data.List.Forall2

/-!
# Guards of orders

The rules of a strategy are the orders of its script, one for one and in their
order (`guardedBy_of_parse`). A rule without a guard comes from a call in which
every argument `when` misses an operand, and so is dropped; a guard is what one
of these arguments says from its first token to its last. An argument that is
incomplete in any other way ends the reading of the script.
-/

namespace Barscript.Script

/-! ## Calls of orders -/

/-- A call of an order in a script, before its arguments are read. -/
structure OrderCall where
  function : String
  slots : List (List Token)

/-- Whether a statement that starts with `token` calls an order. -/
def startsOrder (token : Token) (pending : List Token) : Prop :=
  token.kind = .builtinFunction ∧ hasMark orderMark token.value = true ∧
    firstKind pending = .leftParen

instance (token : Token) (pending : List Token) :
    Decidable (startsOrder token pending) :=
  inferInstanceAs (Decidable (_ ∧ _ ∧ _))

/-- The orders from a cursor on. -/
def orderCalls (c : Cursor) : List OrderCall :=
  match h : c.pending with
  | [] => []
  | token :: pending =>
    match statement token c pending h with
    | .failed _ => []
    | .done _ rest _ =>
      if startsOrder token pending then
        ⟨token.value, argumentSlots pending.tail⟩ :: orderCalls rest
      else orderCalls rest
termination_by c.size

/-- The orders of a source that are rules of one kind. -/
def ruleCalls (kind : OrderKind) (source : String) : List OrderCall :=
  (orderCalls (.ofSource source)).filter fun call =>
    OrderKind.of? call.function = some kind

/-- What a guard has to do with the arguments `when` of a call. -/
structure OrderCall.GuardedBy (call : OrderCall) (guard : Option Expr) :
    Prop where
  /-- Reading stops at what is neither complete nor without an operand. -/
  settled : ∀ slot ∈ call.slots,
    (∃ value, Complete slot value) ∨ OperandMissing slot
  absent : guard = none → ∀ slot ∈ call.slots,
    (splitName slot).1 = some "when" → OperandMissing slot
  present : ∀ value, guard = some value → ∃ slot ∈ call.slots,
    (splitName slot).1 = some "when" ∧ Complete slot value

/-! ## Arguments -/

theorem SlotsRead.settled {slots : List (List Token)}
    {args : List (Argument Expr)} (h : SlotsRead slots args) :
    ∀ slot ∈ slots, (∃ value, Complete slot value) ∨ OperandMissing slot := by
  induction h with
  | nil =>
      intro slot hslot
      cases hslot
  | complete hslot _ ih =>
      rw [List.forall_mem_cons]
      exact ⟨Or.inl ⟨_, hslot⟩, ih⟩
  | dropped hslot _ ih =>
      rw [List.forall_mem_cons]
      exact ⟨Or.inr hslot, ih⟩

/-- An argument that no name is found for was dropped. -/
theorem SlotsRead.absent {slots : List (List Token)}
    {args : List (Argument Expr)} (h : SlotsRead slots args) {name : String}
    (hnone : Argument.named? args name = none) :
    ∀ slot ∈ slots, (splitName slot).1 = some name → OperandMissing slot := by
  unfold Argument.named? at hnone
  rw [Option.map_eq_none_iff, List.find?_eq_none] at hnone
  induction h with
  | nil =>
      intro slot hslot
      cases hslot
  | complete hslot _ ih =>
      rw [List.forall_mem_cons] at hnone ⊢
      refine ⟨?_, ih hnone.2⟩
      intro hname
      rw [hname] at hnone
      exact absurd (beq_self_eq_true _) hnone.1
  | dropped hslot _ ih =>
      rw [List.forall_mem_cons]
      exact ⟨fun _ => hslot, ih hnone⟩

/-- An argument that is found stands in a slot. -/
theorem SlotsRead.present {slots : List (List Token)}
    {args : List (Argument Expr)} (h : SlotsRead slots args) {name : String}
    {value : Expr} (hsome : Argument.named? args name = some value) :
    ∃ slot ∈ slots, (splitName slot).1 = some name ∧ Complete slot value := by
  unfold Argument.named? at hsome
  obtain ⟨arg, harg, rfl⟩ := Option.map_eq_some_iff.mp hsome
  have hname : arg.name = some name := by
    simpa using List.find?_some harg
  have hmem := List.mem_of_find?_eq_some harg
  clear harg hsome
  induction h with
  | nil => cases hmem
  | complete hslot _ ih =>
      rcases List.mem_cons.mp hmem with rfl | hmem
      · exact ⟨_, List.mem_cons_self, hname, hslot⟩
      · obtain ⟨slot, hslot, hread⟩ := ih hmem
        exact ⟨slot, List.mem_cons_of_mem _ hslot, hread⟩
  | dropped _ _ ih =>
      obtain ⟨slot, hslot, hread⟩ := ih hmem
      exact ⟨slot, List.mem_cons_of_mem _ hslot, hread⟩

/-- The argument `when` of a call that was read is its guard. -/
theorem SlotsRead.guardedBy {call : OrderCall} {args : List (Argument Expr)}
    (h : SlotsRead call.slots args) :
    call.GuardedBy (Argument.named? args "when") :=
  ⟨h.settled, fun hnone => h.absent hnone, fun _ hsome => h.present hsome⟩

/-! ## Statements -/

/-- The order that a statement is. -/
def Statement.order? : Statement → Option (String × List (Argument Expr))
  | .order function args => some (function, args)
  | _ => none

/-- The arguments of an order were read from its call. -/
def OrderCall.Reads (call : OrderCall)
    (order : String × List (Argument Expr)) : Prop :=
  order.1 = call.function ∧ SlotsRead call.slots order.2

/-- No name is of an input and of an order. -/
theorem hasMark_order {name : String} (h : hasMark orderMark name = true) :
    hasMark inputMark name = false := by
  unfold hasMark at *
  cases hname : name.toList with
  | nil => rfl
  | cons first rest =>
      rw [hname] at h
      rw [Bool.eq_false_iff]
      intro hinput
      have horder : orderMark <+: first :: rest := List.isPrefixOf_iff_prefix.mp h
      have hboth : inputMark <+: first :: rest :=
        List.isPrefixOf_iff_prefix.mp hinput
      have hs := (List.cons_prefix_cons.mp horder).1
      have hi := (List.cons_prefix_cons.mp hboth).1
      -- The marks differ in their first characters.
      rw [← hs] at hi
      exact absurd hi (by decide)

/-- The statement is no order. -/
def NoOrder (value : Statement) (_rest : Cursor) : Prop :=
  value.order? = none

theorem noOrder_map {α : Type} {n : Nat} (x : Outcome α n)
    {f : α → Statement} (hf : ∀ a, (f a).order? = none) :
    (x.map f).Meets NoOrder fun _ => True := by
  cases x with
  | done a rest _ => exact hf a
  | failed fault => exact trivial

theorem noOrder_variableDeclaration (c : Cursor) :
    (variableDeclaration c).Meets NoOrder fun _ => True := by
  have hdeclared : ∀ c, (variableDeclaration.declared c).Meets NoOrder
      fun _ => True := by
    intro c
    unfold variableDeclaration.declared
    cases c.expect .identifier "variable name" with
    | failed fault => exact trivial
    | done name rest h =>
        rw [Outcome.bind_done]
        split
        · exact (noOrder_map _ fun _ => rfl).weaken _
        · cases rest.expect .assign "'='" with
          | failed fault => exact trivial
          | done sign rest' h' =>
            rw [Outcome.bind_done]
            exact (noOrder_map _ fun _ => rfl).weaken _
  unfold variableDeclaration
  split
  · exact (hdeclared _).weaken _
  · exact hdeclared _

section

variable {token : Token} {c : Cursor} {pending : List Token}
  (h : c.pending = token :: pending)

/-- Where no call of an order starts, the statement is none. -/
theorem noOrder_statement (hno : ¬ startsOrder token pending) :
    (statement token c pending h).Meets NoOrder fun _ => True := by
  unfold statement
  dsimp only
  split
  · exact rfl
  · split_ifs
    · exact (noOrder_map _ fun _ => rfl).weaken _
    · exact (noOrder_variableDeclaration _).weaken _
    · exact (noOrder_map _ fun _ => rfl).weaken _
    · exact rfl
  · rename_i hkind
    split_ifs with _ horder
    · exact (noOrder_map _ fun _ => rfl).weaken _
    · exact absurd ⟨hkind, horder⟩ hno
    · exact noOrder_map _ fun _ => rfl
    · exact rfl
  · split_ifs
    · exact (noOrder_map _ fun _ => rfl).weaken _
    · exact rfl
  · exact rfl

/-- A call of an order is read slot by slot. -/
theorem order_statement (horder : startsOrder token pending) :
    (statement token c pending h).Meets
      (fun value _ => ∃ args, value = .order token.value args ∧
        SlotsRead (argumentSlots pending.tail) args)
      fun _ => True := by
  obtain ⟨hkind, hmark, hopen⟩ := horder
  unfold statement
  rw [hkind]
  show Outcome.Meets (if _ then _ else if _ then _ else _) _ _
  rw [if_neg (by rw [hasMark_order hmark]; simp), if_pos ⟨hmark, hopen⟩]
  apply Outcome.Meets.weaken
  refine (slotsRead_callArguments (c.leaving pending)).map ?_
  intro args rest hargs
  exact ⟨args, rfl, hargs⟩

end

theorem orderCalls_nil {c : Cursor} (h : c.pending = []) :
    orderCalls c = [] := by
  rw [orderCalls]
  split
  · rfl
  · rename_i hcons
    rw [h] at hcons
    cases hcons

theorem orderCalls_done {token : Token} {c rest : Cursor}
    {pending : List Token} {value : Statement} {hrest : rest.size < c.size}
    (h : c.pending = token :: pending)
    (heq : statement token c pending h = .done value rest hrest) :
    orderCalls c = if startsOrder token pending
      then ⟨token.value, argumentSlots pending.tail⟩ :: orderCalls rest
      else orderCalls rest := by
  rw [orderCalls]
  split
  · rename_i hnil
    rw [h] at hnil
    cases hnil
  · rename_i token' pending' hcons
    cases h.symm.trans hcons
    rw [heq]

/-- The orders among the statements are read from the calls of orders. -/
theorem reads_statements (c : Cursor) {all : List Statement}
    (hall : statements c = .ok all) :
    List.Forall₂ OrderCall.Reads (orderCalls c)
      (all.filterMap Statement.order?) := by
  rcases statements_cases hall with ⟨hnil, rfl⟩ | hread
  · rw [orderCalls_nil hnil]
    exact .nil
  · obtain ⟨token, pending, hpending, value, rest, hrest, others, heq,
      hothers, rfl⟩ := hread
    have ih := reads_statements rest hothers
    rw [orderCalls_done hpending heq]
    by_cases hstarts : startsOrder token pending
    · have hvalue := order_statement hpending hstarts
      rw [heq] at hvalue
      obtain ⟨args, rfl, hargs⟩ := hvalue
      rw [if_pos hstarts]
      exact .cons ⟨rfl, hargs⟩ ih
    · have hvalue := noOrder_statement hpending hstarts
      rw [heq] at hvalue
      have hnone : value.order? = none := hvalue
      rw [if_neg hstarts, List.filterMap_cons, hnone]
      exact ih
termination_by c.size

/-! ## Rules -/

/-- The orders of one kind among some orders. -/
def ofKind (kind : OrderKind)
    (orders : List (String × List (Argument Expr))) :
    List (String × List (Argument Expr)) :=
  orders.filter fun order => OrderKind.of? order.1 = some kind

theorem getElem?_insert_name {α : Type} (bindings : Bindings α)
    (name other : String) (value : α) :
    (bindings.insert name value)[other]? =
      if other = name then some value else bindings[other]? := by
  rw [Std.ExtTreeMap.getElem?_insert]
  by_cases h : other = name
  · rw [if_pos h, if_pos (Std.LawfulEqCmp.compare_eq_iff_eq.mpr h.symm)]
  · rw [if_neg h, if_neg fun heq => h (Std.LawfulEqCmp.eq_of_compare heq).symm]

/-- A definition changes the definitions, and at most the input of its
name. -/
theorem define_eq (s : Strategy) (name : String) (value : Expr) :
    ∃ inputs : Bindings Input,
      s.define name value =
        { s with definitions := s.definitions.insert name value
                 inputs := inputs } ∧
      ∀ other, other ≠ name → inputs[other]? = s.inputs[other]? := by
  unfold Strategy.define
  cases value with
  | call id function args =>
      by_cases hinput : hasMark inputMark function = true
      · simp only [hinput, if_true]
        refine ⟨_, rfl, fun other hne => ?_⟩
        exact (getElem?_insert_name _ _ _ _).trans (if_neg hne)
      · simp only [hinput]
        exact ⟨s.inputs, rfl, fun _ _ => rfl⟩
  | _ => exact ⟨s.inputs, rfl, fun _ _ => rfl⟩

/-- The rules that a statement adds. -/
theorem rules_add (s : Strategy) (x : Statement) :
    (s.add x).entries = s.entries ++
        (ofKind .entry x.order?.toList).map
          (fun order => Entry.ofCall order.1 order.2) ∧
      (s.add x).exits = s.exits ++
        (ofKind .exit x.order?.toList).map
          (fun order => Exit.ofCall order.1 order.2) := by
  cases x with
  | order function args =>
      have hadd : s.add (.order function args) =
          (s.withIndicators (argumentIndicators args)).withOrder
            function args := rfl
      have horder : (Statement.order function args).order?.toList =
          [(function, args)] := rfl
      rw [hadd, horder]
      unfold Strategy.withOrder ofKind
      rw [List.filter_singleton, List.filter_singleton]
      cases hkind : OrderKind.of? function with
      | none => simp [Strategy.withIndicators]
      | some kind => cases kind <;> simp [Strategy.withIndicators]
  | version digits =>
      rw [Strategy.add]
      cases Decimal.readNat? digits.toList with
      | none => exact ⟨(List.append_nil _).symm, (List.append_nil _).symm⟩
      | some version =>
          dsimp only
          split <;>
            exact ⟨(List.append_nil _).symm, (List.append_nil _).symm⟩
  | assignment name value =>
      obtain ⟨inputs, hdefine, -⟩ :=
        define_eq (s.withIndicators value.indicatorCalls) name value
      show (Strategy.define _ name value).entries = _ ∧
        (Strategy.define _ name value).exits = _
      rw [hdefine]
      exact ⟨(List.append_nil _).symm, (List.append_nil _).symm⟩
  | _ => exact ⟨(List.append_nil _).symm, (List.append_nil _).symm⟩

/-- The rules of a strategy are the orders among its statements. -/
theorem rules_ofStatements (all : List Statement) :
    (Strategy.ofStatements all).entries =
        (ofKind .entry (all.filterMap Statement.order?)).map
          (fun order => Entry.ofCall order.1 order.2) ∧
      (Strategy.ofStatements all).exits =
        (ofKind .exit (all.filterMap Statement.order?)).map
          (fun order => Exit.ofCall order.1 order.2) := by
  unfold Strategy.ofStatements
  rw [foldl_add Strategy.entries _ fun s x => (rules_add s x).1,
    foldl_add Strategy.exits _ fun s x => (rules_add s x).2,
    List.filterMap_eq_flatMap_toList]
  unfold ofKind
  rw [List.filter_flatMap, List.filter_flatMap, List.map_flatMap,
    List.map_flatMap]
  exact ⟨List.nil_append _, List.nil_append _⟩

/-- Calls and orders of one kind agree as all of them do. -/
theorem reads_ofKind (kind : OrderKind) {calls : List OrderCall}
    {orders : List (String × List (Argument Expr))}
    (h : List.Forall₂ OrderCall.Reads calls orders) :
    List.Forall₂ OrderCall.Reads
      (calls.filter fun call => OrderKind.of? call.function = some kind)
      (ofKind kind orders) := by
  refine List.rel_filter ?_ h
  rintro call order ⟨hfunction, _⟩
  dsimp only
  rw [hfunction]

/-- **The guards of a script are those of its orders.** The rules for entering
and for leaving come from the calls of such orders, one for one; a rule
without a guard comes from a call whose every argument `when` misses an
operand, and no other incomplete argument stands in a script that parses. -/
theorem guardedBy_of_parse {source : String} {s : Strategy}
    (h : Strategy.parse source = .ok s) :
    List.Forall₂
        (fun call (entry : Entry) => entry.function = call.function ∧
          call.GuardedBy entry.guard)
        (ruleCalls .entry source) s.entries ∧
      List.Forall₂
        (fun call (exit : Exit) => exit.function = call.function ∧
          call.GuardedBy exit.guard)
        (ruleCalls .exit source) s.exits := by
  obtain ⟨all, hall, rfl⟩ := statements_of_parse h
  have hreads := reads_statements _ hall
  obtain ⟨hentries, hexits⟩ := rules_ofStatements all
  rw [hentries, hexits, List.forall₂_map_right_iff,
    List.forall₂_map_right_iff]
  constructor
  · refine (reads_ofKind .entry hreads).imp ?_
    rintro call order ⟨hfunction, hargs⟩
    exact ⟨hfunction, hargs.guardedBy⟩
  · refine (reads_ofKind .exit hreads).imp ?_
    rintro call order ⟨hfunction, hargs⟩
    exact ⟨hfunction, hargs.guardedBy⟩

/-- A script with a rule for entering and one for leaving. -/
def guardedScript : String :=
  "strategy.entry(\"L\", strategy.long, when=close > open)\nstrategy.close_all()"

/-- Both of its rules, of which only the first has an argument `when`. -/
theorem guardedBy_of_parse_guardedScript :
    ∃ s, Strategy.parse guardedScript = .ok s ∧ s.entries.length = 1 ∧
      s.exits.length = 1 ∧
      List.Forall₂
          (fun call (entry : Entry) => entry.function = call.function ∧
            call.GuardedBy entry.guard)
          (ruleCalls .entry guardedScript) s.entries ∧
        List.Forall₂
          (fun call (exit : Exit) => exit.function = call.function ∧
            call.GuardedBy exit.guard)
          (ruleCalls .exit guardedScript) s.exits := by
  have hlengths : (Strategy.parse guardedScript).toOption.map
      (fun s => (s.entries.length, s.exits.length)) = some (1, 1) := by
    decide +kernel
  obtain ⟨s, hs, hpair⟩ := exists_ok_of_map hlengths
  exact ⟨s, hs, congrArg Prod.fst hpair, congrArg Prod.snd hpair,
    guardedBy_of_parse hs⟩

/-! ## A lost guard -/

/-- A guard with nothing behind its last operator. -/
def unfinishedGuard : String :=
  "strategy.entry(\"L\", strategy.long, when=close >)"

/-- **A guard can be lost.** Its argument is dropped, and the rule applies at
every bar. -/
theorem guard_lost :
    ¬ ∀ (source : String) (s : Strategy), Strategy.parse source = .ok s →
      List.Forall₂
        (fun call (entry : Entry) => entry.guard = none →
          ∀ slot ∈ call.slots, (splitName slot).1 ≠ some "when")
        (ruleCalls .entry source) s.entries := by
  intro hclaim
  -- The strategy shows that the guard is missing, the text that it was there.
  have hguards : (Strategy.parse unfinishedGuard).toOption.map
      (fun s => s.entries.map fun entry => entry.guard.isNone) =
        some [true] := by
    decide +kernel
  have hnames : (ruleCalls .entry unfinishedGuard).map
      (fun call => call.slots.map fun slot => (splitName slot).1) =
        [[none, none, some "when"]] := by
    decide +kernel
  obtain ⟨s, hs, hguards⟩ := exists_ok_of_map hguards
  have hall := hclaim _ _ hs
  obtain ⟨entry, hentries, hnone⟩ := List.map_eq_singleton_iff.mp hguards
  obtain ⟨call, hcalls, hslots⟩ := List.map_eq_singleton_iff.mp hnames
  rw [hentries, hcalls, List.forall₂_cons] at hall
  have hmem : some "when" ∈ call.slots.map fun slot =>
      (splitName slot).1 := by
    rw [hslots]
    decide
  obtain ⟨slot, hslot, hname⟩ := List.mem_map.mp hmem
  exact hall.1 (Option.isNone_iff_eq_none.mp hnone) slot hslot hname

end Barscript.Script
