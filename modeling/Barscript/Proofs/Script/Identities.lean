import Barscript.Proofs.Script.Guard

/-!
# Identities of indicator calls

A strategy lists every indicator call of its script, wherever it stands
(`listed_ofStatements`), and no two calls on the list have one identity
(`identified_of_parse`). So a value that is kept under the identity of a call
is a value of that call.
-/

namespace Barscript.Script

/-! ## The list of a strategy -/

/-- An expression that a rule for entering states. -/
def Entry.States (entry : Entry) (e : Expr) : Prop :=
  some e ∈ [entry.guard, entry.quantity, entry.stop, entry.target]

/-- The expressions that a strategy states. -/
inductive Strategy.States (s : Strategy) : Expr → Prop where
  | indicator {e : Expr} (h : e ∈ s.indicators) : States s e
  | definition {name : String} {e : Expr}
      (h : s.definitions[name]? = some e) : States s e
  | condition {key : String} {e : Expr}
      (h : s.conditions[key]? = some e) : States s e
  | entry {entry : Entry} (h : entry ∈ s.entries) {e : Expr}
      (he : entry.States e) : States s e
  | exit {exit : Exit} (h : exit ∈ s.exits) {e : Expr}
      (he : exit.guard = some e) : States s e

/-- Every indicator call in what a strategy states is on its list. -/
def Listed (s : Strategy) : Prop :=
  ∀ e, s.States e → e.indicatorCalls ⊆ s.indicators

/-- The empty strategy states nothing. -/
theorem not_states_empty (e : Expr) : ¬ Strategy.empty.States e := by
  intro he
  cases he with
  | indicator h => cases h
  | @definition name _ h =>
      have hnone : (Strategy.empty.definitions)[name]? = none :=
        Std.ExtTreeMap.getElem?_empty
      rw [hnone] at h
      cases h
  | @condition key _ h =>
      have hnone : (Strategy.empty.conditions)[key]? = none :=
        Std.ExtTreeMap.getElem?_empty
      rw [hnone] at h
      cases h
  | entry h _ => cases h
  | exit h _ => cases h

/-- The calls of a statement join the list. -/
theorem indicators_add (s : Strategy) (x : Statement) :
    (s.add x).indicators = s.indicators ++ x.indicatorCalls := by
  cases x with
  | version digits =>
      rw [Strategy.add]
      cases Decimal.readNat? digits.toList with
      | none => exact (List.append_nil _).symm
      | some version =>
          dsimp only
          split <;> exact (List.append_nil _).symm
  | assignment name value =>
      obtain ⟨inputs, hdefine, -⟩ :=
        define_eq (s.withIndicators value.indicatorCalls) name value
      show (Strategy.define _ name value).indicators = _
      rw [hdefine]
      rfl
  | order function args =>
      show (Strategy.withOrder _ function args).indicators = _
      unfold Strategy.withOrder
      split <;> rfl
  | passedOver token => exact (List.append_nil _).symm
  | _ => rfl

/-- The list of a strategy are the calls of its statements. -/
theorem indicators_ofStatements (all : List Statement) :
    (Strategy.ofStatements all).indicators =
      all.flatMap Statement.indicatorCalls := by
  unfold Strategy.ofStatements
  rw [foldl_add Strategy.indicators _ indicators_add]
  exact List.nil_append _

/-- The expressions that a statement adds to what a strategy states. -/
inductive Statement.Adds : Statement → Expr → Prop where
  | indicator {x : Statement} {e : Expr} (h : e ∈ x.indicatorCalls) : Adds x e
  | definition {name : String} {e : Expr} : Adds (.assignment name e) e
  | condition {e : Expr} : Adds (.condition e) e
  | argument {function : String} {args : List (Argument Expr)}
      {a : Argument Expr} (h : a ∈ args) : Adds (.order function args) a.value

/-- The calls of what a statement adds are calls of the statement. -/
theorem Statement.Adds.calls {x : Statement} {e : Expr} (h : x.Adds e) :
    e.calls ⊆ x.calls := by
  cases h with
  | indicator h =>
      rw [← filter_statementCalls] at h
      exact calls_statement x (List.mem_filter.mp h).1
  | definition => exact List.Subset.refl _
  | condition => exact List.Subset.refl _
  | argument h => exact calls_subset h

theorem Statement.Adds.indicatorCalls {x : Statement} {e : Expr}
    (h : x.Adds e) : e.indicatorCalls ⊆ x.indicatorCalls := by
  rw [← filter_calls, ← filter_statementCalls]
  exact filter_isIndicatorCall_subset h.calls

/-- An assignment defines its name. -/
theorem definitions_assignment (s : Strategy) (name : String) (value : Expr) :
    (s.add (.assignment name value)).definitions =
      s.definitions.insert name value := by
  obtain ⟨inputs, hdefine, -⟩ :=
    define_eq (s.withIndicators value.indicatorCalls) name value
  show (Strategy.define _ name value).definitions = _
  rw [hdefine]
  rfl

/-- Only assignments define names. -/
theorem assignment_or_definitions (x : Statement) :
    (∃ name value, x = .assignment name value) ∨
      ∀ s : Strategy, (s.add x).definitions = s.definitions := by
  cases x with
  | assignment name value => exact Or.inl ⟨name, value, rfl⟩
  | version digits =>
      refine Or.inr fun s => ?_
      rw [Strategy.add]
      cases Decimal.readNat? digits.toList with
      | none => rfl
      | some version =>
          dsimp only
          split <;> rfl
  | order function args =>
      refine Or.inr fun s => ?_
      show (Strategy.withOrder _ function args).definitions = _
      unfold Strategy.withOrder
      split <;> rfl
  | _ => exact Or.inr fun _ => rfl

theorem definitions_add (s : Strategy) (x : Statement) {name : String}
    {e : Expr} (h : (s.add x).definitions[name]? = some e) :
    s.definitions[name]? = some e ∨ x = .assignment name e := by
  rcases assignment_or_definitions x with ⟨key, value, rfl⟩ | hsame
  · rw [definitions_assignment, getElem?_insert_name] at h
    split at h
    · rename_i heq
      cases h
      rw [heq]
      exact Or.inr rfl
    · exact Or.inl h
  · rw [hsame] at h
    exact Or.inl h

theorem conditions_add (s : Strategy) (x : Statement) {key : String}
    {e : Expr} (h : (s.add x).conditions[key]? = some e) :
    s.conditions[key]? = some e ∨ x.Adds e := by
  cases x with
  | version digits =>
      rw [Strategy.add] at h
      cases hread : Decimal.readNat? digits.toList with
      | none =>
          rw [hread] at h
          exact Or.inl h
      | some version =>
          rw [hread] at h
          dsimp only at h
          split at h <;> exact Or.inl h
  | assignment name value =>
      have hsame : (s.add (.assignment name value)).conditions =
          s.conditions := by
        obtain ⟨inputs, hdefine, -⟩ :=
          define_eq (s.withIndicators value.indicatorCalls) name value
        show (Strategy.define _ name value).conditions = _
        rw [hdefine]
        rfl
      rw [hsame] at h
      exact Or.inl h
  | condition test =>
      have hinsert : (s.add (.condition test)).conditions =
          s.conditions.insert ("condition_" ++ toString s.conditions.size)
            test := rfl
      rw [hinsert, Std.ExtTreeMap.getElem?_insert] at h
      split at h
      · cases h
        exact Or.inr .condition
      · exact Or.inl h
  | order function args =>
      have hsame : (s.add (.order function args)).conditions =
          s.conditions := by
        show (Strategy.withOrder _ function args).conditions = _
        unfold Strategy.withOrder
        split <;> rfl
      rw [hsame] at h
      exact Or.inl h
  | _ => exact Or.inl h

section

variable {args : List (Argument Expr)} {name : String} {e : Expr}

theorem mem_of_named? (h : Argument.named? args name = some e) :
    ∃ a ∈ args, a.value = e := by
  obtain ⟨a, hfind, rfl⟩ := Option.map_eq_some_iff.mp h
  exact ⟨a, List.mem_of_find?_eq_some hfind, rfl⟩

theorem mem_of_pick? {index : Nat}
    (h : Argument.pick? args name index = some e) :
    ∃ a ∈ args, a.value = e := by
  rcases Option.or_eq_some_iff.mp h with h | ⟨_, h⟩
  · exact mem_of_named? h
  · obtain ⟨a, ha, rfl⟩ := List.mem_map.mp (List.mem_of_getElem? h)
    exact ⟨a, (List.mem_filter.mp ha).1, rfl⟩

/-- What a rule for entering states are arguments of its order. -/
theorem mem_of_ofCall {function : String}
    (h : (Entry.ofCall function args).States e) : ∃ a ∈ args, a.value = e := by
  rcases List.mem_cons.mp h with h | h
  · exact mem_of_named? h.symm
  · rcases List.mem_cons.mp h with h | h
    · exact mem_of_pick? h.symm
    · rcases List.mem_cons.mp h with h | h
      · exact mem_of_pick? h.symm
      · exact mem_of_pick? (List.mem_singleton.mp h).symm

end

/-- The order that a rule comes from is the statement. -/
theorem eq_order {x : Statement} {kind : OrderKind}
    {order : String × List (Argument Expr)}
    (h : order ∈ ofKind kind x.order?.toList) :
    x = .order order.1 order.2 := by
  have hmem := (List.mem_filter.mp h).1
  rw [Option.mem_toList] at hmem
  cases x with
  | order function args =>
      cases hmem
      rfl
  | _ => cases hmem

/-- What a strategy states was stated before or comes from the statement. -/
theorem states_add {s : Strategy} {x : Statement} {e : Expr}
    (h : (s.add x).States e) : s.States e ∨ x.Adds e := by
  obtain ⟨hentries, hexits⟩ := rules_add s x
  cases h with
  | indicator h =>
      rw [indicators_add] at h
      exact (List.mem_append.mp h).imp .indicator .indicator
  | definition h =>
      rcases definitions_add s x h with h | rfl
      · exact Or.inl (.definition h)
      · exact Or.inr .definition
  | condition h => exact (conditions_add s x h).imp_left .condition
  | entry h he =>
      rw [hentries] at h
      rcases List.mem_append.mp h with h | h
      · exact Or.inl (.entry h he)
      · obtain ⟨order, horder, rfl⟩ := List.mem_map.mp h
        obtain ⟨a, ha, rfl⟩ := mem_of_ofCall he
        rw [eq_order horder]
        exact Or.inr (.argument ha)
  | exit h he =>
      rw [hexits] at h
      rcases List.mem_append.mp h with h | h
      · exact Or.inl (.exit h he)
      · obtain ⟨order, horder, rfl⟩ := List.mem_map.mp h
        obtain ⟨a, ha, rfl⟩ := mem_of_named? he
        rw [eq_order horder]
        exact Or.inr (.argument ha)

/-- What a strategy states comes from one of its statements. -/
theorem states_ofStatements {all : List Statement} {e : Expr}
    (h : (Strategy.ofStatements all).States e) : ∃ x ∈ all, x.Adds e := by
  have hfold : ∀ s : Strategy, (all.foldl Strategy.add s).States e →
      s.States e ∨ ∃ x ∈ all, x.Adds e := by
    clear h
    induction all with
    | nil => exact fun s h => Or.inl h
    | cons x rest ih =>
        intro s h
        rcases ih (s.add x) h with h | ⟨y, hy, hadds⟩
        · rcases states_add h with h | h
          · exact Or.inl h
          · exact Or.inr ⟨x, List.mem_cons_self .., h⟩
        · exact Or.inr ⟨y, List.mem_cons_of_mem _ hy, hadds⟩
  rcases hfold _ h with h | h
  · exact absurd h (not_states_empty e)
  · exact h

/-- The list of any script is complete. -/
theorem listed_ofStatements (all : List Statement) :
    Listed (.ofStatements all) := by
  intro e he
  obtain ⟨x, hx, hadds⟩ := states_ofStatements he
  rw [indicators_ofStatements]
  intro call hcall
  exact List.mem_flatMap.mpr ⟨x, hx, hadds.indicatorCalls hcall⟩

/-! ## Identities -/

/-- Calls with increasing identities are told apart by them. -/
theorem eq_of_callId {calls : List Expr}
    (h : calls.Pairwise fun a b => callId a < callId b) {a b : Expr}
    (ha : a ∈ calls) (hb : b ∈ calls) (heq : callId a = callId b) : a = b := by
  induction h with
  | nil => cases ha
  | cons hfirst _ ih =>
      rcases List.mem_cons.mp ha with rfl | ha'
      · rcases List.mem_cons.mp hb with rfl | hb'
        · rfl
        · exact absurd heq (Nat.ne_of_lt (hfirst b hb'))
      · rcases List.mem_cons.mp hb with rfl | hb'
        · exact absurd heq.symm (Nat.ne_of_lt (hfirst a ha'))
        · exact ih ha' hb'

/-- The list of a strategy are the calls that compute an indicator, among all
calls of its statements. -/
theorem indicators_eq_filter (all : List Statement) :
    (Strategy.ofStatements all).indicators =
      (all.flatMap Statement.calls).filter Expr.isIndicatorCall := by
  rw [indicators_ofStatements, List.filter_flatMap]
  simp only [filter_statementCalls]

/-- The calls in what a strategy states are calls of its statements. -/
theorem calls_ofStatements {all : List Statement} {e : Expr}
    (h : (Strategy.ofStatements all).States e) :
    e.calls ⊆ all.flatMap Statement.calls := by
  obtain ⟨x, hx, hadds⟩ := states_ofStatements h
  intro call hcall
  exact List.mem_flatMap.mpr ⟨x, hx, hadds.calls hcall⟩

/-- The calls in what a strategy states are told apart by their identities. -/
theorem identified_calls {source : String} {s : Strategy}
    (h : Strategy.parse source = .ok s) {e e' a b : Expr} (he : s.States e)
    (he' : s.States e') (ha : a ∈ e.calls) (hb : b ∈ e'.calls)
    (heq : callId a = callId b) : a = b := by
  obtain ⟨all, hall, rfl⟩ := statements_of_parse h
  obtain ⟨high, hnumbered⟩ := numbered_statements _ hall
  exact eq_of_callId hnumbered.increasing (calls_ofStatements he ha)
    (calls_ofStatements he' hb) heq

/-- The identities along the list of a strategy increase. -/
theorem indicators_increasing {source : String} {s : Strategy}
    (h : Strategy.parse source = .ok s) :
    s.indicators.Pairwise fun a b => callId a < callId b := by
  obtain ⟨all, hall, rfl⟩ := statements_of_parse h
  obtain ⟨high, hnumbered⟩ := numbered_statements _ hall
  rw [indicators_eq_filter]
  exact hnumbered.increasing.filter _

/-- **No two indicator calls of a script have one identity**, and the strategy
lists all of them. -/
theorem identified_of_parse {source : String} {s : Strategy}
    (h : Strategy.parse source = .ok s) :
    Listed s ∧ ∀ a ∈ s.indicators, ∀ b ∈ s.indicators,
      callId a = callId b → a = b := by
  have hincreasing := indicators_increasing h
  obtain ⟨all, _, rfl⟩ := statements_of_parse h
  exact ⟨listed_ofStatements all,
    fun a ha b hb heq => eq_of_callId hincreasing ha hb heq⟩

end Barscript.Script
