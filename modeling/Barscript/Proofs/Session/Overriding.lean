import Barscript.Proofs.Script.Origin
import Barscript.Proofs.Script.Words
import Barscript.Proofs.Session.History
import Barscript.Proofs.Session.Literals
import Barscript.Proofs.Session.Sharing

/-!
# Setting an input and editing its default

A value that is set for an input stands for the declaration of the input. If the
script declared that value as the default, it would give the same reports and
signals (`override_eq_edit`), because the declaration then evaluates to it.
Evaluating the declaration also keeps the values of the indicator calls in it.
That shows on calls that are read elsewhere, too, and whose values do not last
(`editing_shows`).
-/

namespace Barscript.Session

open Barscript.Script Barscript.Series Barscript.Builtin Barscript.Market
open Barscript.Trading

/-! ## Declarations -/

/-- The expression declares an input with a literal as its default. -/
inductive DeclaresDefault (value : Literal) : Expr → Prop where
  | call {id : Nat} {function : String} {args : List (Argument Expr)}
      (hfunction : isInputName function = true)
      (hdefault : Argument.default? args = some (.literal value)) :
      DeclaresDefault value (.call id function args)

section

variable {name : String} {old value : Literal} {d : Expr}
  {args args' : List (Argument Expr)}

/-- The default of an edited declaration is the new one. -/
theorem DeclaresDefault.withDefault (h : DeclaresDefault old d)
    (value : Literal) : DeclaresDefault value (d.withDefault value) := by
  obtain ⟨hfunction, hdefault⟩ := h
  exact .call hfunction (default?_withDefault hdefault)

theorem isIndicatorName_of_isInputName (h : isInputName name = true) :
    isIndicatorName name = false := by
  unfold isInputName at h
  unfold isIndicatorName
  rcases Bool.or_eq_true_iff.mp h with h | h
  · rw [eq_of_beq h]
    decide
  · cases htext : name.toList with
    | nil => rfl
    | cons c rest =>
        rw [htext] at h
        obtain ⟨hc, -⟩ := Bool.and_eq_true_iff.mp h
        obtain rfl := eq_of_beq hc
        rfl

/-- An input function gives its default. -/
theorem function?_of_isInputName (h : isInputName name = true)
    (args : Arguments) :
    function? name args = some ((args.get? 0 ["defval"]).getD .na) := by
  unfold function?
  split
  all_goals first | exact absurd h (by decide) | rw [if_pos h]

/-- The slot of the default selects the argument that states it. -/
theorem argumentAt?_default (args : List (Argument Expr)) :
    argumentAt? args (0, ["defval"]) = Argument.default? args := by
  unfold argumentAt? Argument.default? Argument.pick? Argument.named?
  congr 1
  induction args with
  | nil => rfl
  | cons a rest ih =>
      obtain ⟨key, e⟩ := a
      cases key with
      | none => exact ih
      | some key =>
          have hkey : ["defval"].contains key =
              (some key == some "defval") := by
            rw [List.contains_cons, List.contains_nil, Bool.or_false]
            rfl
          simp only [List.filterMap_cons, Option.map_some, List.find?_cons,
            hkey]
          split
          · rfl
          · exact ih

/-- A constant has its value in every evaluation. -/
theorem evaluate_constant {e : Expr} (h : e.constant? = some value) (w : World)
    (available : Definitions) (shown : Nat) (c : Cache) :
    (evaluate w available shown e c).1 = .ofLiteral value := by
  unfold Expr.constant? at h
  split at h
  · cases h
    rw [evaluate]
    rfl
  · cases h
    rw [evaluate, evaluate]
    rfl
  · cases h

/-- Evaluated arguments keep their names, and constants their values. -/
theorem evaluateArguments_constants (w : World) (available : Definitions)
    (shown : Nat) (args : List (Argument Expr)) (c : Cache) :
    List.Forall₂ (fun a u => a.name = u.name ∧
        ∀ l, a.value.constant? = some l → u.value = .ofLiteral l)
      args (evaluateArguments w available shown args c).1 := by
  induction args generalizing c with
  | nil =>
      rw [evaluateArguments]
      exact .nil
  | cons a rest ih =>
      obtain ⟨name, e⟩ := a
      rw [evaluateArguments]
      exact .cons ⟨rfl, fun l hl => evaluate_constant hl w available shown c⟩
        (ih _)

/-- An input function has the constant that states its default as its value in
every evaluation. -/
theorem evaluate_input {id : Nat} {function : String}
    (hfunction : isInputName function = true)
    (hdefault : (Argument.default? args).bind Expr.constant? = some value)
    (w : World) (available : Definitions) (shown : Nat) (c : Cache) :
    (evaluate w available shown (.call id function args) c).1 =
      .ofLiteral value := by
  obtain ⟨e, he, hconstant⟩ := Option.bind_eq_some_iff.mp hdefault
  have hselected := rel_argumentAt?
    (R := fun e u => ∀ l, Expr.constant? e = some l → u = Value.ofLiteral l)
    (evaluateArguments_constants w available shown args c) (0, ["defval"])
  rw [argumentAt?_default, he] at hselected
  rw [evaluate_function (isIndicatorName_of_isInputName hfunction)]
  show (function? function (.ofList
    (evaluateArguments w available shown args c).1)).getD .na = _
  rw [function?_of_isInputName hfunction]
  show (argumentAt? _ (0, ["defval"])).getD Value.na = _
  cases hvalue : argumentAt? (evaluateArguments w available shown args c).1
      (0, ["defval"]) with
  | none =>
      rw [hvalue] at hselected
      cases hselected
  | some u =>
      rw [hvalue] at hselected
      cases hselected with
      | some hu => exact hu value hconstant

/-- **A declaration has its default as its value in every evaluation.** -/
theorem evaluate_declaration (h : DeclaresDefault value d) (w : World)
    (available : Definitions) (shown : Nat) (c : Cache) :
    (evaluate w available shown d c).1 = .ofLiteral value := by
  obtain ⟨hfunction, hdefault⟩ := h
  exact evaluate_input hfunction (by rw [hdefault]; rfl) w available shown c

/-! ## The view of a declaration -/

theorem argumentsReadView_resembles
    (h : List.Forall₂ Argument.Resembles args args') :
    argumentsReadView args' = argumentsReadView args := by
  induction h with
  | nil => rfl
  | cons hab _ ih =>
      cases hab with
      | same => rw [argumentsReadView, argumentsReadView, ih]
      | literal name old value =>
          rw [argumentsReadView, argumentsReadView, ih]
          rfl

theorem argumentNamesInView_resembles
    (h : List.Forall₂ Argument.Resembles args args') :
    argumentNamesInView args' = argumentNamesInView args := by
  induction h with
  | nil => rfl
  | cons hab _ ih =>
      cases hab with
      | same => rw [argumentNamesInView, argumentNamesInView, ih]
      | literal name old value =>
          rw [argumentNamesInView, argumentNamesInView, ih]
          rfl

/-- Another default changes neither the calls of a declaration nor what it looks
at in the view. -/
theorem DeclaresDefault.edited (h : DeclaresDefault old d) (value : Literal) :
    (d.withDefault value).indicatorCalls = d.indicatorCalls ∧
      readsView (d.withDefault value) = readsView d ∧
      namesInView (d.withDefault value) = namesInView d := by
  obtain ⟨hfunction, hdefault⟩ := h
  have hresembles : List.Forall₂ Argument.Resembles _
      (Argument.withDefault value _) := resembles_withDefault hdefault
  have hname := isIndicatorName_of_isInputName hfunction
  unfold Expr.withDefault
  dsimp only
  rw [Expr.indicatorCalls, Expr.indicatorCalls, readsView, readsView,
    namesInView, namesInView, argumentIndicators_resembles hresembles,
    argumentsReadView_resembles hresembles,
    argumentNamesInView_resembles hresembles, hname]
  exact ⟨rfl, rfl, rfl⟩

end

/-! ## Names of variables -/

theorem ofWord_builtin {name : String}
    (h : builtinNames.contains name = true) :
    TokenKind.ofWord name ≠ .identifier := by
  have hall : ∀ name ∈ builtinNames, TokenKind.ofWord name ≠ .identifier := by
    decide +kernel
  exact hall name (List.contains_iff_mem.mp h)

theorem ofWord_price {name : String} (h : (priceOf? name).isSome = true) :
    TokenKind.ofWord name ≠ .identifier := by
  unfold priceOf? at h
  split at h
  all_goals first | decide +kernel | cases h

/-- A variable of a script has no value that the script cannot define, unless
one was set. -/
theorem isFixed_of_parse {source : String} {w : World}
    (hparse : Strategy.parse source = .ok w.strategy) {x : String} {d : Expr}
    (hx : w.strategy.definitions[x]? = some d) :
    w.isFixed x = w.overrides.contains x := by
  obtain ⟨token, hlexed, hkind, rfl⟩ :=
    identifier_of_parse hparse (fun _ => lexed_tokens) hx
  have hword := (hlexed.word (by
    show token.kind.isNaming = true
    rw [hkind]
    rfl)).2
  have hfree := hword.symm.trans hkind
  have hprice : (priceOf? token.value).isSome = false :=
    Bool.eq_false_iff.mpr fun h => ofWord_price h hfree
  have hbuiltin : builtinNames.contains token.value = false :=
    Bool.eq_false_iff.mpr fun h => ofWord_builtin h hfree
  rw [World.isFixed, hprice, hbuiltin, Bool.or_false, Bool.or_false]

/-! ## Two sessions -/

/-- A session with some values set and with a value for an input on top. -/
def overridden (strategy : Strategy) (symbol : String)
    (values : List (String × Value)) (x : String) (value : Literal) : Session :=
  ((start strategy symbol).setInputs values).setInput x (.ofLiteral value)

/-- A session with some values set, whose script declares the input with
another default. -/
def edited (strategy : Strategy) (symbol : String)
    (values : List (String × Value)) (x : String) (value : Literal) : Session :=
  (start (strategy.withDefault x value) symbol).setInputs values

/-- Values by the names that they are set for. -/
def assigned (values : List (String × Value)) : Bindings Value :=
  values.foldl (fun bindings entry => bindings.insert entry.1 entry.2) ∅

theorem start_setInputs (strategy : Strategy) (symbol : String)
    (values : List (String × Value)) :
    (start strategy symbol).setInputs values =
      { start strategy symbol with overrides := assigned values } := by
  have hfold : ∀ bindings : Bindings Value,
      ({ start strategy symbol with overrides := bindings } :
        Session).setInputs values =
      { start strategy symbol with
          overrides := values.foldl
            (fun bindings entry => bindings.insert entry.1 entry.2)
            bindings } := by
    induction values with
    | nil => exact fun _ => rfl
    | cons entry rest ih => exact fun _ => ih _
  exact hfold ∅

/-- A name that no entry has is not assigned. -/
theorem contains_assigned {values : List (String × Value)} {x : String}
    (hvalues : ∀ entry ∈ values, entry.1 ≠ x) :
    (assigned values).contains x = false := by
  have hfold : ∀ bindings : Bindings Value, bindings[x]? = none →
      (values.foldl (fun bindings entry => bindings.insert entry.1 entry.2)
        bindings)[x]? = none := by
    induction values with
    | nil => exact fun _ h => h
    | cons entry rest ih =>
        intro bindings h
        rw [List.forall_mem_cons] at hvalues
        refine ih hvalues.2 _ ?_
        rw [getElem?_insert_name, if_neg hvalues.1.symm]
        exact h
  rw [Std.ExtTreeMap.contains_eq_isSome_getElem?, assigned,
    hfold ∅ Std.ExtTreeMap.getElem?_empty]
  rfl

section

variable {source : String} {strategy : Strategy} {symbol x : String}
  {values : List (String × Value)} {old value : Literal} {d : Expr}

theorem overridden_eq : overridden strategy symbol values x value =
    ({ start strategy symbol with overrides := assigned values } :
      Session).setInput x (.ofLiteral value) := by
  rw [overridden, start_setInputs]

theorem edited_eq (hx : strategy.definitions[x]? = some d) :
    edited strategy symbol values x value =
      { start (strategy.define x (d.withDefault value)) symbol with
          overrides := assigned values } := by
  rw [edited, start_setInputs, withDefault_eq_define hx]

theorem pinned_overridden (hparse : Strategy.parse source = .ok strategy)
    (hx : strategy.definitions[x]? = some d)
    (hvalue : ∀ s, value = .text s → priceOf? s = none)
    (hvalues : ∀ entry ∈ values, entry.1 ≠ x) :
    Pinned (overridden strategy symbol values x value).toWorld
      (edited strategy symbol values x value).toWorld x (.ofLiteral value)
      (d.withDefault value) := by
  rw [overridden_eq, edited_eq hx]
  constructor
  case world => rfl
  case overrides => rfl
  case defined =>
    show strategy.definitions.contains x = true
    rw [Std.ExtTreeMap.contains_eq_isSome_getElem?, hx]
    rfl
  case unfixed =>
    have hfixed := isFixed_of_parse (w :=
      { (start strategy symbol).toWorld with overrides := assigned values })
      hparse hx
    exact hfixed.trans (contains_assigned hvalues)
  case plain =>
    intro s hs
    cases value with
    | text _ =>
        cases hs
        exact hvalue s rfl
    | _ => cases hs

theorem Identified.define (hs : Identified strategy)
    (hx : strategy.definitions[x]? = some d) {e : Expr}
    (hcalls : e.indicatorCalls = d.indicatorCalls) :
    Identified (strategy.define x e) := by
  refine ⟨hs.listed.define hx hcalls, ?_⟩
  obtain ⟨inputs, hdefine, -⟩ := define_eq strategy x e
  rw [hdefine]
  exact hs.distinct

theorem Pinned.showing {w w' : World} {v : Value} (h : Pinned w w' x v d)
    (bars : List Bar) (p : Position) :
    Pinned (w.showing bars p) (w'.showing bars p) x v d where
  world := congrArg (World.showing · bars p) h.world
  overrides := h.overrides
  defined := h.defined
  unfixed := h.unfixed
  plain := h.plain

/-- **Setting an input is editing its default.** A session with a value set for
an input gives the reports and the signals of a session without it whose script
declares the value as the default, over any bars. The indicator calls that the
declaration shares with the rest of the script have to be ones whose values can
be kept. -/
theorem override_eq_edit (hparse : Strategy.parse source = .ok strategy)
    (symbol : String) (hx : strategy.definitions[x]? = some d)
    (hd : DeclaresDefault old d)
    (hvalue : ∀ s, value = .text s → priceOf? s = none)
    (hvalues : ∀ entry ∈ values, entry.1 ≠ x)
    (hshared : ∀ call,
      Shared (overridden strategy symbol values x value).toWorld
        (edited strategy symbol values x value).toWorld
        (d.withDefault value) call →
      (edited strategy symbol values x value).Keepable call) :
    (∀ bars config,
      (((overridden strategy symbol values x value).loadBars bars).runBacktest
          config).1 =
        (((edited strategy symbol values x value).loadBars bars).runBacktest
          config).1) ∧
    ∀ warmup index bars,
      ((overridden strategy symbol values x value).loadBars warmup).signals
          index bars =
        ((edited strategy symbol values x value).loadBars warmup).signals
          index bars := by
  have hpinned : Pinned (overridden strategy symbol values x value).toWorld
      (edited strategy symbol values x value).toWorld x _ _ :=
    pinned_overridden hparse hx hvalue hvalues
  obtain ⟨hcalls, hview, hnames⟩ := hd.edited value
  obtain ⟨hlisted, hids⟩ := identified_of_parse hparse
  have hs : Identified strategy := ⟨hlisted, hids⟩
  rw [overridden_eq, edited_eq hx] at hpinned hshared ⊢
  -- Over any bars and in any position the two worlds are alike.
  have halike := fun bars p => Overridden.alike
    { pinned := hpinned.showing bars p
      identified := hs
      identified' := hs.define hx hcalls
      keepable := fun call hcall => by
        have hkeep := hshared call
          ⟨hcall.indicator, hcall.declared, hcall.apart⟩
        exact ⟨hkeep.unlooped, hkeep.positionFree⟩
      value := fun p available shown c =>
        evaluate_declaration (hd.withDefault value) _ available shown c }
    hx hview hnames
  refine ⟨fun bars config => ?_, fun warmup index bars => ?_⟩
  · exact (halike bars .flat).runBacktest (.empty _ _ _ _) config
  · apply signals_alike
    case h => exact fun bars p => ⟨_, .empty _ _ _ _, halike bars p⟩
    case hbars => rfl
    case hposition => rfl
    case hquantity => rfl

end

/-- A call of literals and price columns can be kept. -/
theorem keepable_of_isLeaf {w : World} {id : Nat} {name : String}
    {args : List (Argument Expr)} (hargs : ∀ a ∈ args, isLeaf a.value = true) :
    w.Keepable (.call id name args) where
  unlooped f hf := by
    rintro ⟨key, value, hkey, hentered, -⟩
    have hpart : Part w.entered? true f value := .definition hkey hentered
    rcases reads_call_of_isLeaf hargs hf with rfl | hleaf
    · cases hkey
    · exact not_part_of_isLeaf hleaf hpart
  positionFree key other inner hname hcall a ha f hf hposition := by
    rcases reads_call_of_isLeaf hargs hcall with heq | hleaf
    · cases heq
      have hleaf := hargs a ha
      rcases hf.cases_head with rfl | ⟨g, hpart, _⟩
      · cases hvalue : a.value with
        | ref word =>
            rw [hvalue] at hleaf hposition
            cases hposition.1
            cases hleaf
        | literal _ =>
            rw [hvalue] at hposition
            cases hposition.1
        | _ =>
            rw [hvalue] at hleaf
            cases hleaf
      · exact not_part_of_isLeaf hleaf hpart
    · cases hleaf

/-- A script whose declaration reads a call that its guard reads, too. -/
def boundedScript : String :=
  "step = ta.change(close)\nlength = input.int(1, minval=step)\nstrategy.entry(\"L\", strategy.long, when=ta.change(close, length) > step)"

/-- Whether an expression is the declaration in the script. -/
def isBounded : Expr → Bool
  | .call _ "input.int" [⟨none, .literal _⟩, ⟨some "minval", .ref "step"⟩] =>
    true
  | _ => false

/-- Whether an expression is the call that the declaration reads. -/
def isStep : Expr → Bool
  | .call _ "ta.change" [⟨none, .ref "close"⟩] => true
  | _ => false

theorem isBounded_cases {d : Expr} (h : isBounded d = true) :
    ∃ id value, d = .call id "input.int"
      [⟨none, .literal value⟩, ⟨some "minval", .ref "step"⟩] := by
  unfold isBounded at h
  split at h
  · exact ⟨_, _, rfl⟩
  · cases h

theorem isStep_cases {e : Expr} (h : isStep e = true) :
    ∃ id, e = .call id "ta.change" [⟨none, .ref "close"⟩] := by
  unfold isStep at h
  split at h
  · exact ⟨_, rfl⟩
  · cases h

/-- The one indicator call that such a declaration reads is its bound. -/
theorem reads_of_isBounded {w : World} {d step f : Expr}
    (hd : isBounded d = true) (hstep : isStep step = true)
    (hdefined : w.strategy.definitions["step"]? = some step)
    (h : Reads w true d f) (hcall : f.isIndicatorCall = true) :
    isStep f = true := by
  have hread : isBounded f = true ∨ f = .ref "step" ∨ isStep f = true ∨
      isLeaf f = true := by
    refine Reads.within (S := fun f => isBounded f = true ∨ f = .ref "step" ∨
      isStep f = true ∨ isLeaf f = true) ?_ (Or.inl hd) h
    rintro e g (he | rfl | he | he) hpart
    · obtain ⟨id, value, rfl⟩ := isBounded_cases he
      cases hpart with
      | definition hname _ => cases hname
      | argument _ ha =>
          rcases List.mem_pair.mp ha with rfl | rfl
          · exact Or.inr (Or.inr (Or.inr rfl))
          · exact Or.inr (Or.inl rfl)
    · cases hpart with
      | definition hname hentered =>
          cases hname
          have hg := getElem?_of_entered? hentered
          rw [variableOf_named hdefined, hdefined] at hg
          cases hg
          exact Or.inr (Or.inr (Or.inl hstep))
    · obtain ⟨id, rfl⟩ := isStep_cases he
      cases hpart with
      | definition hname _ => cases hname
      | argument _ ha =>
          obtain rfl := List.mem_singleton.mp ha
          exact Or.inr (Or.inr (Or.inr rfl))
    · exact absurd hpart (not_part_of_isLeaf he)
  rcases hread with hf | rfl | hf | hf
  · obtain ⟨id, value, rfl⟩ := isBounded_cases hf
    exact absurd (show isIndicatorName "input.int" = true from hcall)
      (by decide)
  · cases hcall
  · exact hf
  · cases f with
    | call _ _ _ => cases hf
    | _ => cases hcall

/-- The script gives with the value `2` what it gives with `2` as the default,
though its guard reads the bound, too. -/
theorem override_eq_edit_bounded :
    ∃ strategy, Strategy.parse boundedScript = .ok strategy ∧
      (∀ bars config,
        (((overridden strategy "" [] "length" (.number 2.0)).loadBars
            bars).runBacktest config).1 =
          (((edited strategy "" [] "length" (.number 2.0)).loadBars
            bars).runBacktest config).1) ∧
      ∀ warmup index bars,
        ((overridden strategy "" [] "length" (.number 2.0)).loadBars
            warmup).signals index bars =
          ((edited strategy "" [] "length" (.number 2.0)).loadBars
            warmup).signals index bars := by
  have hshape : (Strategy.parse boundedScript).toOption.map (fun s =>
      (s.definitions["length"]?.map isBounded,
        s.definitions["step"]?.map isStep)) = some (some true, some true) := by
    decide +kernel
  obtain ⟨s, hparse, hpair⟩ := exists_ok_of_map hshape
  obtain ⟨d, hx, hbounded⟩ :=
    Option.map_eq_some_iff.mp (congrArg Prod.fst hpair)
  obtain ⟨step, hdefined, hstep⟩ :=
    Option.map_eq_some_iff.mp (congrArg Prod.snd hpair)
  obtain ⟨id, old, rfl⟩ := isBounded_cases hbounded
  refine ⟨s, hparse, override_eq_edit hparse "" hx (.call rfl rfl)
    (fun _ h => by cases h) (fun _ h => by cases h) ?_⟩
  rintro call ⟨hcall, hdeclared, -⟩
  have hstays : (edited s "" [] "length"
      (.number 2.0)).strategy.definitions["step"]? = some step := by
    show (s.withDefault "length" (.number 2.0)).definitions["step"]? = _
    obtain ⟨inputs, hdefine, -⟩ := define_eq s "length" _
    rw [withDefault_eq_define hx, hdefine, getElem?_insert_name,
      if_neg (by decide)]
    exact hdefined
  obtain ⟨other, rfl⟩ := isStep_cases
    (reads_of_isBounded rfl hstep hstays hdeclared hcall)
  refine keepable_of_isLeaf fun a ha => ?_
  obtain rfl := List.mem_singleton.mp ha
  rfl

/-! ## Where it shows -/

/-- A script whose declaration reads a call on the position, which a guard
reads, too. -/
def heldBoundScript : String :=
  "held = ta.ema(strategy.position_size)\nx = input.int(5, minval=held)\nstrategy.entry(\"L\", strategy.long, when=x > 0)\nstrategy.exit(\"X\", when=held > 0)"

/-- A script of a declaration and a call that reach each other. -/
def loopBoundScript : String :=
  "y = ta.ema(nz(x, 0))\nx = input.int(5, minval=y)\nstrategy.entry(\"L\", strategy.long, when=x > 0)\nstrategy.exit(\"X\", when=y > 0)"

/-- Whether an expression declares an input with a literal as its default. -/
def declaresDefault : Expr → Bool
  | .call _ function args =>
    isInputName function &&
      match Argument.default? args with
      | some (.literal _) => true
      | _ => false
  | _ => false

theorem exists_of_declaresDefault {d : Expr} (h : declaresDefault d = true) :
    ∃ old, DeclaresDefault old d := by
  unfold declaresDefault at h
  split at h
  · obtain ⟨hfunction, hdefault⟩ := Bool.and_eq_true_iff.mp h
    split at hdefault
    · exact ⟨_, .call hfunction ‹_›⟩
    · cases hdefault
  · cases h

/-- How many trades a backtest takes with the value set for `x` and with the
value as its default, if the script declares a default for it. -/
def tradeCounts (source : String) (value : Literal) (bars : List Bar) :
    Option (Nat × Nat) :=
  (Strategy.parse source).toOption.bind fun strategy =>
    if (strategy.definitions["x"]?.map declaresDefault) = some true then
      let count (s : Session) :=
        ((s.loadBars bars).runBacktest .default).1.trades.length
      some (count (overridden strategy "" [] "x" value),
        count (edited strategy "" [] "x" value))
    else none

theorem exists_of_tradeCounts {source : String} {value : Literal}
    {bars : List Bar} {left right : Nat}
    (h : tradeCounts source value bars = some (left, right))
    (hne : left ≠ right) :
    ∃ strategy d old, Strategy.parse source = .ok strategy ∧
      strategy.definitions["x"]? = some d ∧ DeclaresDefault old d ∧
      (((overridden strategy "" [] "x" value).loadBars bars).runBacktest
          .default).1 ≠
        (((edited strategy "" [] "x" value).loadBars bars).runBacktest
          .default).1 := by
  unfold tradeCounts at h
  cases hparse : Strategy.parse source with
  | error fault =>
      rw [hparse] at h
      cases h
  | ok strategy =>
      rw [hparse] at h
      obtain ⟨hdeclared, h⟩ := (Option.ite_none_right_eq_some).mp h
      obtain ⟨d, hx, hd⟩ := Option.map_eq_some_iff.mp hdeclared
      obtain ⟨old, hd⟩ := exists_of_declaresDefault hd
      refine ⟨strategy, d, old, rfl, hx, hd, fun heq => hne ?_⟩
      have hleft := congrArg Prod.fst (Option.some.inj h)
      have hright := congrArg Prod.snd (Option.some.inj h)
      refine hleft.symm.trans (Eq.trans ?_ hright)
      exact congrArg (fun report => report.trades.length) heq

/-- Editing shows on a call that reads the position, and on a call inside of
variables that reach each other: the declaration keeps it before the guard of
the exit reads it. -/
theorem editing_shows :
    (∃ strategy d old, Strategy.parse heldBoundScript = .ok strategy ∧
      strategy.definitions["x"]? = some d ∧ DeclaresDefault old d ∧
      (((overridden strategy "" [] "x" (.number 3.0)).loadBars
          [stillBar 3.0, stillBar 3.0, stillBar 3.0]).runBacktest .default).1 ≠
        (((edited strategy "" [] "x" (.number 3.0)).loadBars
          [stillBar 3.0, stillBar 3.0, stillBar 3.0]).runBacktest
            .default).1) ∧
    ∃ strategy d old, Strategy.parse loopBoundScript = .ok strategy ∧
      strategy.definitions["x"]? = some d ∧ DeclaresDefault old d ∧
      (((overridden strategy "" [] "x" (.number 3.0)).loadBars
          [stillBar 3.0, stillBar 3.0, stillBar 3.0]).runBacktest .default).1 ≠
        (((edited strategy "" [] "x" (.number 3.0)).loadBars
          [stillBar 3.0, stillBar 3.0, stillBar 3.0]).runBacktest
            .default).1 := by
  have hheld : tradeCounts heldBoundScript (.number 3.0)
      [stillBar 3.0, stillBar 3.0, stillBar 3.0] = some (2, 1) := by
    decide +kernel
  have hloop : tradeCounts loopBoundScript (.number 3.0)
      [stillBar 3.0, stillBar 3.0, stillBar 3.0] = some (2, 1) := by
    decide +kernel
  exact ⟨exists_of_tradeCounts hheld (by decide),
    exists_of_tradeCounts hloop (by decide)⟩

end Barscript.Session
