import Barscript.Proofs.Script.Declarations
import Barscript.Proofs.Session.Overriding

/-!
# What an input evaluates to

A strategy reports a default with each of its inputs, and a session that has no
value set for the input reads one. The report looks for a constant among the
arguments of the declaration, the evaluation takes the argument in the place of
the default and looks up the name before it looks for inputs. Both give the
same value when the argument in that place is a constant and the name belongs
to the input alone (`resolveName_default`). Otherwise they need not
(`resolveName_strays`): a source in the place of the default is passed over by
the report, a price or a variable stands in front of an input with its name,
and a function whose name only begins like that of an input has no value.
-/

namespace Barscript.Session

open Barscript.Script Barscript.Series Barscript.Market Barscript.Builtin

/-- A statement declares the input `x`, and what the script evaluates under
that name is the default of the declaration. -/
inductive AnswersDefault (s : Strategy) (x : String) : Statement → Prop where
  /-- The variable is bound to an input function whose default is a
  constant. -/
  | assigned {name : String} {id : Nat} {function : String}
      {args : List (Argument Expr)}
      (hfunction : isInputName function = true)
      (hdefault : ((Argument.default? args).bind Expr.constant?).isSome = true) :
      AnswersDefault s x (.assignment name (.call id function args))
  /-- No variable has the name, and no price or builtin. -/
  | alone {function : String} {args : List (Argument Expr)}
      (hvariable : s.definitions[x]? = none) (hprice : priceOf? x = none)
      (hbuiltin : builtinNames.contains x = false) :
      AnswersDefault s x (.input function args)

section

variable {source x : String} {all : List Statement} {s : Session}

theorem hasMark_of_isInputName {name : String} (h : isInputName name = true) :
    hasMark inputMark name = true := by
  unfold isInputName at h
  unfold hasMark
  rcases Bool.or_eq_true_iff.mp h with h | h
  · rw [eq_of_beq h]
    decide
  · have hdotted := List.isPrefixOf_iff_prefix.mp h
    have hword : inputMark <+: typedInputMark := by decide
    exact List.isPrefixOf_iff_prefix.mpr (hword.trans hdotted)

theorem resolveName_fst (s : Session) (x : String) :
    (s.resolveName x).1 =
      (readName s.toWorld s.definitions s.bars.length x s.cache).1 :=
  rfl

/-- A variable that is bound to an input function has the constant that states
the default as its value. -/
theorem resolveName_assigned (hparse : Strategy.parse source = .ok s.strategy)
    (hoverrides : s.overrides.contains x = false) {id : Nat}
    {function : String} {args : List (Argument Expr)}
    (hx : s.strategy.definitions[x]? = some (.call id function args))
    (hfunction : isInputName function = true) {value : Literal}
    (hdefault : (Argument.default? args).bind Expr.constant? = some value) :
    (s.resolveName x).1 = .ofLiteral value := by
  have hfixed : s.toWorld.isFixed x = false :=
    (isFixed_of_parse hparse hx).trans hoverrides
  have hcontains : s.strategy.definitions.contains x = true := by
    rw [Std.ExtTreeMap.contains_eq_isSome_getElem?, hx]
    rfl
  obtain ⟨left, hreleased⟩ := release?_definitions (w := s.toWorld) hx
  rw [resolveName_fst, readName_named (by rw [hcontains, Bool.or_true]),
    readDefined_entered hfixed hreleased]
  exact evaluate_input hfunction hdefault _ _ _ _

/-- An input whose name belongs to nothing else has its default as its
value. -/
theorem resolveName_alone (hoverrides : s.overrides.contains x = false)
    (hvariable : s.strategy.definitions[x]? = none)
    (hprice : priceOf? x = none) (hbuiltin : builtinNames.contains x = false)
    {input : Input} (hinput : s.strategy.inputs[x]? = some input) :
    (s.resolveName x).1 = inputDefault input := by
  have hfree : (s.toWorld.isFixed x ||
      s.strategy.definitions.contains x) = false := by
    rw [World.isFixed, hoverrides, hprice, hbuiltin,
      Std.ExtTreeMap.contains_eq_isSome_getElem?, hvariable]
    rfl
  rw [resolveName_fst, readName_input hfree hinput]
  rfl

/-- **An input has its default as its value.** Whatever bars a session has,
whatever it holds and remembers: without values set from outside, a name whose
last declaration is an input evaluates to the default that the strategy reports
for it, if the argument that the declaration evaluates to is a constant and, for
an input that no variable is bound to, the name is one of no variable, price or
builtin. -/
theorem resolveName_default (hparse : Strategy.parse source = .ok s.strategy)
    (hall : statementsOf source = .ok all) (hoverrides : s.overrides = ∅)
    {st : Statement} (hlast : lastDeclaration? x .empty all = some st)
    (hanswers : AnswersDefault s.strategy x st) {input : Input}
    {value : Literal} (hinput : s.strategy.inputs[x]? = some input)
    (hdefault : input.default = some value) :
    (s.resolveName x).1 = .ofLiteral value := by
  have hstrategy : s.strategy = .ofStatements all := by
    rw [Strategy.parse, hall] at hparse
    exact (Except.ok.inj hparse).symm
  have hset : s.overrides.contains x = false := by
    rw [hoverrides]
    exact Std.ExtTreeMap.contains_empty
  cases hanswers with
  | assigned hfunction hconstant =>
      obtain ⟨other, hother⟩ := Option.isSome_iff_exists.mp hconstant
      obtain ⟨-, hx⟩ := definitions_of_lastDeclaration? hlast
      rw [← hstrategy] at hx
      -- The report and the evaluation find the same constant.
      have hsame : other = value := by
        have hreported := inputs_of_lastDeclaration? hlast
          (if_pos (hasMark_of_isInputName hfunction))
        rw [← hstrategy, hinput] at hreported
        cases hreported
        exact Option.some.inj ((default_ofCall hother).symm.trans hdefault)
      rw [← hsame]
      exact resolveName_assigned hparse hset hx hfunction hother
  | alone hvariable hprice hbuiltin =>
      rw [resolveName_alone hset hvariable hprice hbuiltin hinput, inputDefault,
        hdefault]
      rfl

end

/-- A script whose input has a negative default behind its title. -/
def inputScript : String :=
  "length = input.int(title=\"Length\", defval=-2)"

/-- Whether a statement binds a variable to an input function with a constant
as its default. -/
def assignsConstant : Statement → Bool
  | .assignment _ (.call _ function args) =>
    isInputName function &&
      ((Argument.default? args).bind Expr.constant?).isSome
  | _ => false

theorem answersDefault_of_assignsConstant {s : Strategy} {x : String}
    {st : Statement} (h : assignsConstant st = true) :
    AnswersDefault s x st := by
  unfold assignsConstant at h
  split at h
  · obtain ⟨hfunction, hdefault⟩ := Bool.and_eq_true_iff.mp h
    exact .assigned hfunction hdefault
  · cases h

/-- The length is reported as `-2` and evaluates to that. -/
theorem resolveName_default_length :
    ∃ strategy input value, Strategy.parse inputScript = .ok strategy ∧
      strategy.inputs["length"]? = some input ∧
      input.default = some value ∧ value.render = "-2" ∧
      ((start strategy "").resolveName "length").1 = .ofLiteral value := by
  have hshape : (statementsOf inputScript).toOption.map (fun all =>
      ((lastDeclaration? "length" .empty all).map assignsConstant,
        ((Strategy.ofStatements all).inputs["length"]?.bind
          Input.default).map Literal.render)) =
      some (some true, some "-2") := by
    decide +kernel
  cases hall : statementsOf inputScript with
  | error fault =>
      rw [hall] at hshape
      cases hshape
  | ok all =>
      rw [hall] at hshape
      have hpair := Option.some.inj hshape
      obtain ⟨st, hlast, hassigns⟩ :=
        Option.map_eq_some_iff.mp (congrArg Prod.fst hpair)
      obtain ⟨value, hvalue, hrender⟩ :=
        Option.map_eq_some_iff.mp (congrArg Prod.snd hpair)
      obtain ⟨input, hinput, hdefault⟩ := Option.bind_eq_some_iff.mp hvalue
      have hparse : Strategy.parse inputScript = .ok (.ofStatements all) := by
        rw [Strategy.parse, hall]
      refine ⟨_, input, value, hparse, hinput, hdefault, hrender, ?_⟩
      exact resolveName_default (s := start (.ofStatements all) "") hparse hall
        rfl hlast (answersDefault_of_assignsConstant hassigns) hinput hdefault

/-! ## Where the report strays -/

/-- The last declaration of `x` in the source is an input, and the name does
not evaluate to the default that is reported for it. -/
def Strays (source x : String) : Prop :=
  ∃ strategy all st call input value,
    Strategy.parse source = .ok strategy ∧ statementsOf source = .ok all ∧
      lastDeclaration? x .empty all = some st ∧ st.inputCall? = some call ∧
      strategy.inputs[x]? = some input ∧ input.default = some value ∧
      ((start strategy "").resolveName x).1 ≠ .ofLiteral value

/-- Whether a value is of the kind of a constant. -/
def isOfKind : Literal → Value → Bool
  | .number _, .number _ => true
  | .text _, .text _ => true
  | .bool _, .bool _ => true
  | _, _ => false

theorem isOfKind_ofLiteral (value : Literal) :
    isOfKind value (.ofLiteral value) = true := by
  cases value <;> rfl

/-- Whether the name of an input evaluates to a value of another kind than the
default that is reported for it, if its last declaration is the input. -/
def straysInKind (source x : String) : Option Bool := do
  let all ← (statementsOf source).toOption
  let st ← lastDeclaration? x .empty all
  let _ ← st.inputCall?
  let input ← (Strategy.ofStatements all).inputs[x]?
  let value ← input.default
  return !isOfKind value
    ((start (.ofStatements all) "").resolveName x).1

theorem strays_of_straysInKind {source x : String}
    (h : straysInKind source x = some true) : Strays source x := by
  unfold straysInKind at h
  simp only [Option.bind_eq_bind, Option.pure_def, Option.bind_eq_some_iff,
    Option.some.injEq] at h
  obtain ⟨all, hall, st, hlast, call, hcall, input, hinput, value, hdefault,
    hkind⟩ := h
  have hstatements : statementsOf source = .ok all := by
    cases hs : statementsOf source with
    | error fault =>
        rw [hs] at hall
        cases hall
    | ok other =>
        rw [hs] at hall
        cases hall
        rfl
  have hparse : Strategy.parse source = .ok (.ofStatements all) := by
    rw [Strategy.parse, hstatements]
  refine ⟨_, all, st, call, input, value, hparse, hstatements, hlast, hcall,
    hinput, hdefault, fun heq => ?_⟩
  rw [heq, isOfKind_ofLiteral] at hkind
  cases hkind

/-- A source in the place of the default is passed over by the report, and the
title is taken. A price and a variable are found in front of an input with
their name. A function that is no input function has no value. -/
theorem resolveName_strays :
    Strays "x = input.source(close, \"Source\")" "x" ∧
      Strays "input(5, title=\"close\")" "close" ∧
      Strays "x = true\ninput(5, title=\"x\")" "x" ∧
      Strays "x = inputs(5)" "x" :=
  ⟨strays_of_straysInKind (by decide +kernel),
    strays_of_straysInKind (by decide +kernel),
    strays_of_straysInKind (by decide +kernel),
    strays_of_straysInKind (by decide +kernel)⟩

end Barscript.Session
