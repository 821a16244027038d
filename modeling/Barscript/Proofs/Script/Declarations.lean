import Barscript.Proofs.Script.Defaults

/-!
# The last declaration of a name

A variable is declared by its assignment, an input without a variable by its
title or, if it has none, by its number. A later declaration of a name replaces
what the strategy has under it, and nothing else does. So what a strategy says
of a name in the end is what it said behind the last declaration of the name
(`said_of_lastDeclaration?`).
-/

namespace Barscript.Script

/-- The name that a statement declares behind the statements of a strategy. -/
def Statement.declares? (s : Strategy) : Statement → Option String
  | .assignment name _ => some name
  | .input function args =>
    some ((Input.ofCall function args).title.getD
      ("input_" ++ toString s.inputs.size))
  | _ => none

/-- The last statement that declares a name, behind the statements of a
strategy. -/
def lastDeclaration? (x : String) (s : Strategy) :
    List Statement → Option Statement
  | [] => none
  | st :: rest =>
    (lastDeclaration? x (s.add st) rest).or
      (if st.declares? s = some x then some st else none)

/-- The call of an input function that a statement is, or that it binds a
variable to. -/
def Statement.inputCall? : Statement → Option (String × List (Argument Expr))
  | .assignment _ (.call _ function args) =>
    if hasMark inputMark function then some (function, args) else none
  | .input function args => some (function, args)
  | _ => none

/-- Two strategies say the same of a name: its definition and its input. -/
def Strategy.SaysSame (s t : Strategy) (x : String) : Prop :=
  s.definitions[x]? = t.definitions[x]? ∧ s.inputs[x]? = t.inputs[x]?

section

variable {s : Strategy} {st : Statement} {x : String}

/-- A statement changes nothing of the names that it does not declare. -/
theorem saysSame_add (h : st.declares? s ≠ some x) :
    (s.add st).SaysSame s x := by
  cases st with
  | version digits =>
      rw [Strategy.add]
      cases Decimal.readNat? digits.toList with
      | none => exact ⟨rfl, rfl⟩
      | some version =>
          dsimp only
          split <;> exact ⟨rfl, rfl⟩
  | assignment name value =>
      have hne : x ≠ name := fun heq => h (congrArg some heq.symm)
      obtain ⟨inputs, hdefine, hothers⟩ :=
        define_eq (s.withIndicators value.indicatorCalls) name value
      show (Strategy.define _ name value).SaysSame s x
      rw [hdefine]
      exact ⟨(getElem?_insert_name _ _ _ _).trans (if_neg hne), hothers x hne⟩
  | input function args =>
      have hne : x ≠ (Input.ofCall function args).title.getD
          ("input_" ++ toString s.inputs.size) :=
        fun heq => h (congrArg some heq.symm)
      exact ⟨rfl, (getElem?_insert_name _ _ _ _).trans (if_neg hne)⟩
  | order function args =>
      show (Strategy.withOrder _ function args).SaysSame s x
      unfold Strategy.withOrder
      split <;> exact ⟨rfl, rfl⟩
  | _ => exact ⟨rfl, rfl⟩

/-- A statement that declares an input by a call adds the input of the
call. -/
theorem inputs_add {function : String} {args : List (Argument Expr)}
    (h : st.declares? s = some x)
    (hcall : st.inputCall? = some (function, args)) :
    (s.add st).inputs[x]? = some (Input.ofCall function args) := by
  unfold Statement.inputCall? at hcall
  split at hcall
  · obtain ⟨hmark, heq⟩ := Option.ite_none_right_eq_some.mp hcall
    cases heq
    cases h
    simp only [Strategy.add, Strategy.define, hmark, if_true]
    exact (getElem?_insert_name _ _ _ _).trans (if_pos rfl)
  · cases hcall
    cases h
    exact (getElem?_insert_name _ _ _ _).trans (if_pos rfl)
  · cases hcall

end

/-! ## The whole script -/

section

variable {x : String} {all : List Statement} {s : Strategy}

theorem Strategy.SaysSame.trans {s t u : Strategy} (h : s.SaysSame t x)
    (h' : t.SaysSame u x) : s.SaysSame u x :=
  ⟨h.1.trans h'.1, h.2.trans h'.2⟩

/-- Statements that do not declare a name change nothing of it. -/
theorem saysSame_of_undeclared (h : lastDeclaration? x s all = none) :
    (all.foldl Strategy.add s).SaysSame s x := by
  induction all generalizing s with
  | nil => exact ⟨rfl, rfl⟩
  | cons st rest ih =>
      obtain ⟨hrest, hst⟩ := Option.or_eq_none_iff.mp h
      have hother : st.declares? s ≠ some x := fun heq => by
        rw [if_pos heq] at hst
        cases hst
      exact (ih hrest).trans (saysSame_add hother)

/-- **The last declaration of a name counts.** What a strategy says of a name
in the end is what it said behind the last statement that declares the name. -/
theorem said_of_lastDeclaration? {st : Statement}
    (h : lastDeclaration? x s all = some st) :
    ∃ before : Strategy, st.declares? before = some x ∧
      (all.foldl Strategy.add s).SaysSame (before.add st) x := by
  induction all generalizing s with
  | nil => cases h
  | cons next rest ih =>
      rw [lastDeclaration?] at h
      cases hrest : lastDeclaration? x (s.add next) rest with
      | some later =>
          rw [hrest, Option.some_or] at h
          cases h
          exact ih hrest
      | none =>
          rw [hrest, Option.none_or] at h
          obtain ⟨hdeclares, heq⟩ := Option.ite_none_right_eq_some.mp h
          cases heq
          exact ⟨s, hdeclares, saysSame_of_undeclared hrest⟩

/-- The input under a name is the one of the last declaration, if that is a
call of an input function. -/
theorem inputs_of_lastDeclaration? {st : Statement} {function : String}
    {args : List (Argument Expr)}
    (h : lastDeclaration? x .empty all = some st)
    (hcall : st.inputCall? = some (function, args)) :
    (Strategy.ofStatements all).inputs[x]? =
      some (Input.ofCall function args) := by
  obtain ⟨before, hdeclares, hsame⟩ := said_of_lastDeclaration? h
  exact hsame.2.trans (inputs_add hdeclares hcall)

/-- The definition of a variable is the one of its last assignment, if no input
is declared under its name behind it. -/
theorem definitions_of_lastDeclaration? {name : String} {e : Expr}
    (h : lastDeclaration? x .empty all = some (.assignment name e)) :
    name = x ∧ (Strategy.ofStatements all).definitions[x]? = some e := by
  obtain ⟨before, hdeclares, hsame⟩ := said_of_lastDeclaration? h
  obtain rfl := Option.some.inj hdeclares
  refine ⟨rfl, hsame.1.trans ?_⟩
  rw [definitions_assignment]
  exact (getElem?_insert_name _ _ _ _).trans (if_pos rfl)

end

/-! ## Defaults -/

/-- The default of an input is the constant that states it, if the argument
that a call of the input evaluates to is a constant. -/
theorem default_ofCall {function : String} {args : List (Argument Expr)}
    {value : Literal}
    (h : (Argument.default? args).bind Expr.constant? = some value) :
    (Input.ofCall function args).default = some value := by
  obtain ⟨e, he, hconstant⟩ := Option.bind_eq_some_iff.mp h
  show ((Argument.named? args "defval").bind Expr.constant?).or
    ((Argument.positional args).findSome? Expr.constant?) = some value
  unfold Argument.default? Argument.pick? at he
  cases hnamed : Argument.named? args "defval" with
  | some f =>
      rw [hnamed, Option.some_or] at he
      cases he
      rw [Option.bind_some, hconstant, Option.some_or]
  | none =>
      rw [hnamed, Option.none_or] at he
      rw [Option.bind_none, Option.none_or]
      cases hpositional : Argument.positional args with
      | nil =>
          rw [hpositional] at he
          cases he
      | cons f rest =>
          rw [hpositional] at he
          cases he
          rw [List.findSome?_cons, hconstant]

end Barscript.Script
