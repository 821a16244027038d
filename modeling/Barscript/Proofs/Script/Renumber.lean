import Barscript.Script.Strategy

/-!
# Other identities for calls

What a statement contributes to a strategy does not depend on the identities
of the calls in it: a strategy built from statements with other identities is
the same strategy with these identities (`add_renumber`).
-/

namespace Barscript.Script

mutual

/-- The expression with other identities of its calls. -/
def Expr.renumber (f : Nat → Nat) : Expr → Expr
  | .literal value => .literal value
  | .ref name => .ref name
  | .call id name args => .call (f id) name (renumberArguments f args)
  | .binary op left right => .binary op (left.renumber f) (right.renumber f)
  | .unary op operand => .unary op (operand.renumber f)
  | .ternary condition whenTrue whenFalse =>
    .ternary (condition.renumber f) (whenTrue.renumber f)
      (whenFalse.renumber f)
  | .indexed name offset => .indexed name (offset.renumber f)

def renumberArguments (f : Nat → Nat) :
    List (Argument Expr) → List (Argument Expr)
  | [] => []
  | ⟨name, value⟩ :: rest => ⟨name, value.renumber f⟩ ::
      renumberArguments f rest

end

/-- The argument with other identities of its calls. -/
def Argument.renumber (f : Nat → Nat) (a : Argument Expr) : Argument Expr :=
  ⟨a.name, a.value.renumber f⟩

def Entry.renumber (f : Nat → Nat) (e : Entry) : Entry :=
  { e with
    guard := e.guard.map (Expr.renumber f)
    quantity := e.quantity.map (Expr.renumber f)
    stop := e.stop.map (Expr.renumber f)
    target := e.target.map (Expr.renumber f) }

def Exit.renumber (f : Nat → Nat) (e : Exit) : Exit :=
  { e with guard := e.guard.map (Expr.renumber f) }

/-- The strategy with other identities of the calls in it. -/
def Strategy.renumber (f : Nat → Nat) (s : Strategy) : Strategy :=
  { s with
    definitions := s.definitions.map fun _ e => e.renumber f
    indicators := s.indicators.map (Expr.renumber f)
    entries := s.entries.map (Entry.renumber f)
    exits := s.exits.map (Exit.renumber f)
    conditions := s.conditions.map fun _ e => e.renumber f }

/-- The statement with other identities of the calls in it. -/
def Statement.renumber (f : Nat → Nat) : Statement → Statement
  | .declaration args => .declaration (renumberArguments f args)
  | .assignment name value => .assignment name (value.renumber f)
  | .condition test => .condition (test.renumber f)
  | .input function args => .input function (renumberArguments f args)
  | .order function args => .order function (renumberArguments f args)
  | .indicator call => .indicator (call.renumber f)
  | .version digits => .version digits
  | .passedOver token => .passedOver token

/-! ## The same identities -/

mutual

theorem renumber_id (e : Expr) : e.renumber id = e := by
  match e with
  | .literal _ => rfl
  | .ref _ => rfl
  | .call _ _ args => rw [Expr.renumber, renumberArguments_id args, id]
  | .binary _ left right =>
      rw [Expr.renumber, renumber_id left, renumber_id right]
  | .unary _ operand => rw [Expr.renumber, renumber_id operand]
  | .ternary condition whenTrue whenFalse =>
      rw [Expr.renumber, renumber_id condition, renumber_id whenTrue,
        renumber_id whenFalse]
  | .indexed _ offset => rw [Expr.renumber, renumber_id offset]

theorem renumberArguments_id (args : List (Argument Expr)) :
    renumberArguments id args = args := by
  match args with
  | [] => rfl
  | ⟨_, value⟩ :: rest =>
      rw [renumberArguments, renumber_id value, renumberArguments_id rest]

end

theorem map_renumber_id (e : Option Expr) : e.map (Expr.renumber id) = e := by
  cases e with
  | none => rfl
  | some e => exact congrArg some (renumber_id e)

theorem bindings_renumber_id (bindings : Bindings Expr) :
    bindings.map (fun _ e => e.renumber id) = bindings := by
  apply Std.ExtTreeMap.ext_getElem?
  intro key
  rw [Std.ExtTreeMap.getElem?_map]
  exact map_renumber_id _

theorem strategy_renumber_id (s : Strategy) : s.renumber id = s := by
  have hexpr : Expr.renumber id = id := funext renumber_id
  have hentry : Entry.renumber id = id := by
    funext entry
    unfold Entry.renumber
    simp only [map_renumber_id]
    rfl
  have hexit : Exit.renumber id = id := by
    funext exit
    unfold Exit.renumber
    rw [map_renumber_id]
    rfl
  unfold Strategy.renumber
  rw [bindings_renumber_id, bindings_renumber_id, hexpr, hentry, hexit,
    List.map_id, List.map_id, List.map_id]

/-- Nothing has to be renumbered in the strategy of an empty script. -/
theorem empty_renumber (f : Nat → Nat) :
    Strategy.empty.renumber f = Strategy.empty := by
  have hempty : (∅ : Bindings Expr).map (fun _ e => e.renumber f) = ∅ := by
    apply Std.ExtTreeMap.ext_getElem?
    intro key
    rw [Std.ExtTreeMap.getElem?_map, Std.ExtTreeMap.getElem?_empty]
    rfl
  unfold Strategy.empty Strategy.renumber
  dsimp only
  rw [hempty]
  rfl

variable (f : Nat → Nat)

theorem renumberArguments_eq_map (args : List (Argument Expr)) :
    renumberArguments f args = args.map (Argument.renumber f) := by
  induction args with
  | nil => rfl
  | cons a rest ih =>
      rw [renumberArguments, ih]
      rfl

/-! ## Constants -/

theorem text?_renumber (e : Expr) : (e.renumber f).text? = e.text? := by
  cases e <;> rfl

theorem constant?_renumber (e : Expr) :
    (e.renumber f).constant? = e.constant? := by
  cases e with
  | unary op operand => cases operand <;> cases op <;> rfl
  | _ => rfl

theorem directionOf_renumber (e : Expr) :
    directionOf (e.renumber f) = directionOf e := by
  cases e <;> rfl

theorem map_renumber_bind {β : Type} {g : Expr → Option β}
    (hg : ∀ e, g (e.renumber f) = g e) (e : Option Expr) :
    (e.map (Expr.renumber f)).bind g = e.bind g := by
  cases e with
  | none => rfl
  | some e => exact hg e

/-! ## Arguments -/

section

variable (args : List (Argument Expr))

theorem named?_renumber (name : String) :
    Argument.named? (renumberArguments f args) name =
      (Argument.named? args name).map (Expr.renumber f) := by
  unfold Argument.named?
  rw [renumberArguments_eq_map, List.find?_map, Option.map_map, Option.map_map]
  rfl

theorem positional_renumber :
    Argument.positional (renumberArguments f args) =
      (Argument.positional args).map (Expr.renumber f) := by
  unfold Argument.positional
  rw [renumberArguments_eq_map, List.filter_map, List.map_map, List.map_map]
  rfl

theorem pick?_renumber (name : String) (index : Nat) :
    Argument.pick? (renumberArguments f args) name index =
      (Argument.pick? args name index).map (Expr.renumber f) := by
  unfold Argument.pick?
  rw [named?_renumber, positional_renumber, List.getElem?_map, Option.map_or]

theorem declaredName?_renumber :
    declaredName? (renumberArguments f args) = declaredName? args := by
  unfold declaredName?
  rw [renumberArguments_eq_map, List.filter_map, List.findSome?_map]
  congr 1
  funext a
  exact text?_renumber f a.value

theorem ofCall_renumber_input (kind : String) :
    Input.ofCall kind (renumberArguments f args) = Input.ofCall kind args := by
  have hparams : ∀ g : Argument Expr → Option (String × Literal),
      (∀ a, g (a.renumber f) = g a) →
        (renumberArguments f args).filterMap g = args.filterMap g := by
    intro g hg
    rw [renumberArguments_eq_map, List.filterMap_map]
    exact congrArg (args.filterMap ·) (funext hg)
  have hdefault : ((Argument.positional args).map
      (Expr.renumber f)).findSome? Expr.constant? =
        (Argument.positional args).findSome? Expr.constant? := by
    rw [List.findSome?_map]
    exact congrArg ((Argument.positional args).findSome? ·)
      (funext (constant?_renumber f))
  unfold Input.ofCall
  dsimp only
  rw [named?_renumber, named?_renumber, positional_renumber,
    List.getElem?_map, ← Option.map_or,
    map_renumber_bind f (constant?_renumber f),
    map_renumber_bind f (text?_renumber f), hdefault, hparams]
  intro a
  simp only [Argument.renumber, constant?_renumber]

theorem ofCall_renumber_entry (function : String) :
    Entry.ofCall function (renumberArguments f args) =
      (Entry.ofCall function args).renumber f := by
  unfold Entry.ofCall Entry.renumber
  simp only [pick?_renumber, named?_renumber,
    map_renumber_bind f (text?_renumber f), Option.map_map]
  congr 2
  congr 1
  funext e
  exact directionOf_renumber f e

theorem ofCall_renumber_exit (function : String) :
    Exit.ofCall function (renumberArguments f args) =
      (Exit.ofCall function args).renumber f := by
  unfold Exit.ofCall Exit.renumber
  simp only [pick?_renumber, named?_renumber,
    map_renumber_bind f (text?_renumber f)]

end

/-! ## Indicator calls -/

mutual

theorem indicatorCalls_renumber (e : Expr) :
    (e.renumber f).indicatorCalls =
      e.indicatorCalls.map (Expr.renumber f) := by
  match e with
  | .literal _ => rfl
  | .ref _ => rfl
  | .call id name args =>
      have hargs := argumentIndicators_renumber args
      rw [Expr.renumber, Expr.indicatorCalls, Expr.indicatorCalls, hargs,
        List.map_append]
      cases isIndicatorName name <;> rfl
  | .binary _ left right =>
      rw [Expr.renumber, Expr.indicatorCalls, Expr.indicatorCalls,
        indicatorCalls_renumber left, indicatorCalls_renumber right,
        List.map_append]
  | .unary _ operand => exact indicatorCalls_renumber operand
  | .ternary condition whenTrue whenFalse =>
      rw [Expr.renumber, Expr.indicatorCalls, Expr.indicatorCalls,
        indicatorCalls_renumber condition, indicatorCalls_renumber whenTrue,
        indicatorCalls_renumber whenFalse, List.map_append, List.map_append]
  | .indexed _ offset => exact indicatorCalls_renumber offset

theorem argumentIndicators_renumber (args : List (Argument Expr)) :
    argumentIndicators (renumberArguments f args) =
      (argumentIndicators args).map (Expr.renumber f) := by
  match args with
  | [] => rfl
  | ⟨_, value⟩ :: rest =>
      rw [renumberArguments, argumentIndicators, argumentIndicators,
        indicatorCalls_renumber value, argumentIndicators_renumber rest,
        List.map_append]

end

/-! ## Statements -/

theorem insert_renumber (bindings : Bindings Expr) (name : String)
    (e : Expr) :
    (bindings.insert name e).map (fun _ e => e.renumber f) =
      (bindings.map fun _ e => e.renumber f).insert name (e.renumber f) := by
  apply Std.ExtTreeMap.ext_getElem?
  intro key
  rw [Std.ExtTreeMap.getElem?_map, Std.ExtTreeMap.getElem?_insert,
    Std.ExtTreeMap.getElem?_insert, Std.ExtTreeMap.getElem?_map]
  split <;> rfl

variable (s : Strategy)

theorem withIndicators_renumber (calls : List Expr) :
    (s.renumber f).withIndicators (calls.map (Expr.renumber f)) =
      (s.withIndicators calls).renumber f := by
  unfold Strategy.withIndicators Strategy.renumber
  rw [List.map_append]

theorem define_renumber (name : String) (value : Expr) :
    (s.renumber f).define name (value.renumber f) =
      (s.define name value).renumber f := by
  have hplain : ∀ s : Strategy,
      { s.renumber f with
          definitions :=
            (s.renumber f).definitions.insert name (value.renumber f) } =
        Strategy.renumber f
          { s with definitions := s.definitions.insert name value } := by
    intro s
    unfold Strategy.renumber
    rw [insert_renumber]
  cases value with
  | call id function args =>
      unfold Strategy.define
      rw [Expr.renumber]
      dsimp only
      rw [ofCall_renumber_input]
      -- The input that a call declares is the same.
      cases hasMark inputMark function with
      | false => exact hplain s
      | true => exact hplain (s.withInput name (Input.ofCall function args))
  | _ => exact hplain s

theorem withOrder_renumber (function : String)
    (args : List (Argument Expr)) :
    (s.renumber f).withOrder function (renumberArguments f args) =
      (s.withOrder function args).renumber f := by
  unfold Strategy.withOrder
  cases OrderKind.of? function with
  | none => rfl
  | some kind =>
      cases kind with
      | entry =>
          dsimp only
          rw [ofCall_renumber_entry]
          unfold Strategy.renumber
          rw [List.map_append]
          rfl
      | exit =>
          dsimp only
          rw [ofCall_renumber_exit]
          unfold Strategy.renumber
          rw [List.map_append]
          rfl

/-- **Identities do not matter to what a statement contributes.** -/
theorem add_renumber (x : Statement) :
    (s.renumber f).add (x.renumber f) = (s.add x).renumber f := by
  cases x with
  | version digits =>
      rw [Statement.renumber, Strategy.add, Strategy.add]
      cases Decimal.readNat? digits.toList with
      | none => rfl
      | some version =>
          dsimp only
          split <;> rfl
  | declaration args =>
      rw [Statement.renumber, Strategy.add, Strategy.add,
        argumentIndicators_renumber, withIndicators_renumber,
        declaredName?_renumber, named?_renumber,
        map_renumber_bind f (text?_renumber f)]
      rfl
  | assignment name value =>
      rw [Statement.renumber, Strategy.add, Strategy.add,
        indicatorCalls_renumber, withIndicators_renumber, define_renumber]
  | condition test =>
      rw [Statement.renumber, Strategy.add, Strategy.add,
        indicatorCalls_renumber, withIndicators_renumber]
      unfold Strategy.renumber
      dsimp only
      rw [Std.ExtTreeMap.size_map, insert_renumber]
  | input function args =>
      rw [Statement.renumber, Strategy.add, Strategy.add,
        argumentIndicators_renumber, withIndicators_renumber,
        ofCall_renumber_input]
      rfl
  | order function args =>
      rw [Statement.renumber, Strategy.add, Strategy.add,
        argumentIndicators_renumber, withIndicators_renumber,
        withOrder_renumber]
  | indicator call =>
      rw [Statement.renumber, Strategy.add, Strategy.add,
        indicatorCalls_renumber, withIndicators_renumber]
  | passedOver token => rfl

end Barscript.Script
