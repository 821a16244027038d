import Barscript.Proofs.Script.Defaults
import Barscript.Proofs.Session.Evaluation
import Barscript.Proofs.Session.Together

/-!
# A variable that is pinned to a value

In one world a value is set for a variable, in another one the variable is
defined. `Pinned` says that the worlds differ in nothing else. Every other name
reads the same in both, so two evaluations of an expression run side by side,
up to the places where the variable itself is read (`Pinned.together`). What
happens there and at indicator calls depends on the caches and is left to the
relation between them.
-/

namespace Barscript.Session

open Barscript.Script Barscript.Series Barscript.Builtin Barscript.Market
open Barscript.Trading

/-- The first world is the second one with the value `v` set for the variable
`x`, which the second one defines as `d`. -/
structure Pinned (w w' : World) (x : String) (v : Value) (d : Expr) :
    Prop where
  world : w' = { w with strategy := w.strategy.define x d
                        overrides := w'.overrides }
  overrides : w.overrides = w'.overrides.insert x v
  defined : w.strategy.definitions.contains x = true
  /-- The variable reads as it is defined in the second world. -/
  unfixed : w'.isFixed x = false
  /-- The value is no text that stands for a price column. -/
  plain : ∀ s, v = .text s → priceOf? s = none

section

variable {w w' : World} {x name : String} {v : Value} {d : Expr}

/-! ## Names -/

theorem Pinned.bars (h : Pinned w w' x v d) : w'.bars = w.bars := by
  rw [h.world]

theorem Pinned.strategy (h : Pinned w w' x v d) :
    w'.strategy = w.strategy.define x d := by
  rw [h.world]

theorem Pinned.holding (h : Pinned w w' x v d) (p : Position) :
    Pinned (w.holding p) (w'.holding p) x v d where
  world := congrArg (World.holding · p) h.world
  overrides := h.overrides
  defined := h.defined
  unfixed := h.unfixed
  plain := h.plain

theorem Pinned.getElem? (h : Pinned w w' x v d) (name : String) :
    w'.strategy.definitions[name]? =
      if name = x then some d else w.strategy.definitions[name]? := by
  obtain ⟨inputs, hdefine, -⟩ := define_eq w.strategy x d
  rw [h.strategy, hdefine]
  exact getElem?_insert_name _ _ _ _

theorem Pinned.contains (h : Pinned w w' x v d) (name : String) :
    w'.strategy.definitions.contains name =
      w.strategy.definitions.contains name := by
  rw [Std.ExtTreeMap.contains_eq_isSome_getElem?, h.getElem?]
  split
  · rename_i heq
    rw [heq, h.defined]
    rfl
  · rw [Std.ExtTreeMap.contains_eq_isSome_getElem?]

theorem Pinned.inputs (h : Pinned w w' x v d) (hne : name ≠ x) :
    w'.strategy.inputs[name]? = w.strategy.inputs[name]? := by
  obtain ⟨inputs, hdefine, hinputs⟩ := define_eq w.strategy x d
  rw [h.strategy, hdefine]
  exact hinputs name hne

theorem Pinned.set (h : Pinned w w' x v d) (name : String) :
    w.overrides.contains name =
      (decide (name = x) || w'.overrides.contains name) := by
  rw [Std.ExtTreeMap.contains_eq_isSome_getElem?, h.overrides,
    getElem?_insert_name, Std.ExtTreeMap.contains_eq_isSome_getElem?]
  by_cases heq : name = x
  · simp [heq]
  · simp [heq]

/-- The variable is the only name that is fixed in the first world alone. -/
theorem Pinned.isFixed (h : Pinned w w' x v d) (name : String) :
    w.isFixed name = (decide (name = x) || w'.isFixed name) := by
  unfold World.isFixed
  rw [h.set, Bool.or_assoc, Bool.or_assoc, Bool.or_assoc]

/-- The same names stand for themselves in both worlds. -/
theorem Pinned.named (h : Pinned w w' x v d) (name : String) :
    (w'.isFixed name || w'.strategy.definitions.contains name) =
      (w.isFixed name || w.strategy.definitions.contains name) := by
  rw [h.isFixed, h.contains]
  by_cases hname : name = x
  · rw [hname, h.defined, Bool.or_true, Bool.or_true]
  · rw [decide_eq_false hname, Bool.false_or]

theorem Pinned.fixed?_self (h : Pinned w w' x v d) (shown : Nat) :
    w.fixed? x shown = some v := by
  have hset : w.overrides[x]? = some v := by
    rw [h.overrides, getElem?_insert_name, if_pos rfl]
  have hvalue : w.override? x shown = some v := by
    unfold World.override?
    rw [hset]
    split
    · rename_i s heq
      cases heq
      rw [World.price?, Market.column?, h.plain s rfl]
      rfl
    · rfl
  rw [World.fixed?, hvalue, Option.some_or]

theorem Pinned.fixed?_ne (h : Pinned w w' x v d) (hne : name ≠ x)
    (shown : Nat) : w'.fixed? name shown = w.fixed? name shown := by
  have hset : w.overrides[name]? = w'.overrides[name]? := by
    rw [h.overrides, getElem?_insert_name, if_neg hne]
  have hprice : ∀ column, w'.price? column shown = w.price? column shown := by
    intro column
    unfold World.price?
    rw [h.bars]
  have hbuiltin : w'.builtin? name shown = w.builtin? name shown := by
    rw [h.world]
    rfl
  unfold World.fixed? World.override?
  rw [hset, hbuiltin]
  simp only [hprice]

theorem Pinned.hasLines (h : Pinned w w' x v d) (base : String) :
    w'.hasLines base = w.hasLines base := by
  unfold World.hasLines
  rw [h.contains, h.set]
  by_cases heq : base = x
  · rw [heq, h.defined]
    rfl
  · simp [heq]

theorem Pinned.variableOf_eq (h : Pinned w w' x v d) (name : String) :
    variableOf w'.strategy name = variableOf w.strategy name := by
  unfold variableOf
  rw [h.contains]

theorem Pinned.variableOf_self (h : Pinned w w' x v d) :
    variableOf w.strategy x = x := by
  unfold variableOf
  rw [if_pos h.defined]

/-- The first world enters what the second one enters, but never the
variable. -/
theorem Pinned.entered? (h : Pinned w w' x v d) (name : String) :
    w.entered? name =
      if variableOf w.strategy name = x then none
      else w'.entered? name := by
  unfold World.entered?
  rw [h.isFixed, h.isFixed, h.variableOf_eq, h.getElem?]
  by_cases hvariable : variableOf w.strategy name = x
  · simp [hvariable]
  · have hname : name ≠ x := by
      rintro rfl
      exact hvariable h.variableOf_self
    simp [hvariable, hname]

/-- What a name is read as in the second world. -/
theorem Pinned.entered?_self (h : Pinned w w' x v d) :
    w'.entered? x = some d :=
  entered?_named h.unfixed (by rw [h.getElem?, if_pos rfl])

/-! ## Definitions that are left -/

/-- The definitions with another one for the variable. -/
def redefine (x : String) (d : Expr) (available : Definitions) :
    Definitions :=
  available.map fun entry => (entry.1, if entry.1 = x then d else entry.2)

theorem release?_redefine (x : String) (d : Expr) (name : String)
    (available : Definitions) :
    release? name (redefine x d available) =
      (release? name available).map fun found =>
        (if name = x then d else found.1, redefine x d found.2) := by
  induction available with
  | nil => rfl
  | cons entry rest ih =>
      obtain ⟨key, value⟩ := entry
      unfold redefine at ih ⊢
      rw [List.map_cons, release?, release?]
      split
      · rename_i heq
        obtain rfl : key = name := heq
        rfl
      · rw [ih, Option.map_map, Option.map_map]
        rfl

theorem Pinned.definitions (h : Pinned w w' x v d) :
    w'.definitions = redefine x d w.definitions := by
  have hmap : w'.strategy.definitions =
      w.strategy.definitions.map fun key value =>
        if key = x then d else value := by
    refine Std.ExtTreeMap.ext_getElem? fun name => ?_
    rw [h.getElem?, Std.ExtTreeMap.getElem?_map]
    split
    · rename_i heq
      obtain ⟨value, hvalue⟩ := Option.isSome_iff_exists.mp
        (Std.ExtTreeMap.contains_eq_isSome_getElem?.symm.trans h.defined)
      rw [heq, hvalue]
      simp
    · cases w.strategy.definitions[name]? <;> rfl
  unfold World.definitions
  rw [hmap, Std.ExtTreeMap.toList_map]
  rfl

end

/-! ## Two evaluations side by side -/

section

variable {w w' : World} {x : String} {v : Value} {d : Expr} {scope : Scope w}
  {p : Position} {R : Cache → Cache → Prop}

/-- Every indicator call in the scope has one value in both worlds if its
arguments have. -/
def AlikeAtCalls (w' : World) (x : String) (d : Expr) (scope : Scope w)
    (p : Position) (R : Cache → Cache → Prop) : Prop :=
  ∀ {available : Definitions} {id : Nat} {name : String}
    {args : List (Argument Expr)}, isIndicatorName name = true →
    scope.contains available (.call id name args) →
    Together R Eq
      (evaluateArguments (w.holding p) available w.bars.length args)
      (evaluateArguments (w'.holding p) (redefine x d available)
        w.bars.length args) →
    ∀ shown, Together R Eq
      (evaluate (w.holding p) available shown (.call id name args))
      (evaluate (w'.holding p) (redefine x d available) shown
        (.call id name args))

/-- Where an expression in the scope reads the variable, its definition has
the value in the second world. -/
def AlikeAtVariable (w' : World) (x : String) (v : Value) (d : Expr)
    (scope : Scope w) (p : Position) (R : Cache → Cache → Prop) : Prop :=
  ∀ {available : Definitions} {e : Expr} {name : String},
    scope.contains available e → nameRead? e = some name →
    variableOf w.strategy name = x → w'.entered? name = some d → ∀ shown,
    Together R Eq (pure v : Evaluating Value)
      (readDefined (w'.holding p) (redefine x d available) shown x)

mutual

/-- **Evaluations in both worlds run side by side** when they do so at indicator
calls and where the variable is read. -/
theorem Pinned.together (h : Pinned w w' x v d)
    (hcalls : AlikeAtCalls w' x d scope p R)
    (hvariable : AlikeAtVariable w' x v d scope p R)
    {available : Definitions} (shown : Nat) (e : Expr)
    (he : scope.contains available e) :
    Together R Eq (evaluate (w.holding p) available shown e)
      (evaluate (w'.holding p) (redefine x d available) shown e) := by
  have hsub := scope.sublist he
  match e with
  | .literal value =>
      rw [evaluate, evaluate]
      exact .pure rfl
  | .ref name =>
      rw [evaluate, evaluate]
      exact Pinned.togetherName h hcalls hvariable shown hsub name
        (fun hentered hr => scope.definition he rfl hentered hr)
        fun hx hentered => hvariable he rfl hx hentered shown
  | .call id name args =>
      have hargs : ∀ shown, Together R Eq
          (evaluateArguments (w.holding p) available shown args)
          (evaluateArguments (w'.holding p) (redefine x d available) shown
            args) :=
        fun shown => Pinned.togetherArguments h hcalls hvariable shown args
          fun a ha => scope.piece he (.argument (Or.inl rfl) ha)
      cases hname : isIndicatorName name with
      | true => exact hcalls hname he (hargs w.bars.length) shown
      | false =>
          rw [evaluate_function hname, evaluate_function hname]
          refine (hargs shown).bind ?_
          rintro values _ rfl
          exact .pure rfl
  | .binary op left right =>
      rw [evaluate, evaluate]
      refine (Pinned.together h hcalls hvariable shown left
        (scope.piece he .left)).bind ?_
      rintro a _ rfl
      refine (Pinned.together h hcalls hvariable shown right
        (scope.piece he .right)).bind ?_
      rintro b _ rfl
      exact .pure rfl
  | .unary op operand =>
      rw [evaluate, evaluate]
      refine (Pinned.together h hcalls hvariable shown operand
        (scope.piece he .operand)).bind ?_
      rintro a _ rfl
      exact .pure rfl
  | .ternary condition whenTrue whenFalse =>
      rw [evaluate, evaluate]
      refine (Pinned.together h hcalls hvariable shown condition
        (scope.piece he .condition)).bind ?_
      rintro c _ rfl
      split
      · exact Pinned.together h hcalls hvariable shown whenTrue
          (scope.piece he .whenTrue)
      · exact Pinned.together h hcalls hvariable shown whenFalse
          (scope.piece he .whenFalse)
  | .indexed name offset =>
      rw [evaluate, evaluate]
      have hbase := Pinned.togetherName h hcalls hvariable shown hsub name
        (fun hentered hr => scope.definition he rfl hentered hr)
        fun hx hentered => hvariable he rfl hx hentered shown
      refine hbase.bind ?_
      rintro base _ rfl
      refine (Pinned.together h hcalls hvariable shown offset
        (scope.piece he .offset)).bind ?_
      rintro k _ rfl
      exact .pure rfl
termination_by weightDefinitions available + weight e
decreasing_by all_goals simp only [weight]; omega

theorem Pinned.togetherArguments (h : Pinned w w' x v d)
    (hcalls : AlikeAtCalls w' x d scope p R)
    (hvariable : AlikeAtVariable w' x v d scope p R)
    {available : Definitions} (shown : Nat) (args : List (Argument Expr))
    (hargs : ∀ a ∈ args, scope.contains available a.value) :
    Together R Eq (evaluateArguments (w.holding p) available shown args)
      (evaluateArguments (w'.holding p) (redefine x d available) shown
        args) := by
  match args with
  | [] =>
      rw [evaluateArguments, evaluateArguments]
      exact .pure rfl
  | ⟨name, value⟩ :: rest =>
      rw [evaluateArguments, evaluateArguments]
      refine (Pinned.together h hcalls hvariable shown value
        (hargs _ List.mem_cons_self)).bind ?_
      rintro first _ rfl
      refine (Pinned.togetherArguments h hcalls hvariable shown rest
        fun a ha => hargs a (List.mem_cons_of_mem _ ha)).bind ?_
      rintro others _ rfl
      exact .pure rfl
termination_by weightDefinitions available + weightArguments args
decreasing_by all_goals simp only [weightArguments]; omega

theorem Pinned.togetherName (h : Pinned w w' x v d)
    (hcalls : AlikeAtCalls w' x d scope p R)
    (hvariable : AlikeAtVariable w' x v d scope p R)
    {available : Definitions} (shown : Nat)
    (hsub : available.Sublist w.definitions) (name : String)
    (hentered : ∀ {f left}, w.entered? name = some f →
      release? (variableOf w.strategy name) available =
        some (f, left) → scope.contains left f)
    (hself : variableOf w.strategy name = x →
      w'.entered? name = some d →
      Together R Eq (pure v : Evaluating Value)
        (readDefined (w'.holding p) (redefine x d available) shown x)) :
    Together R Eq (readName (w.holding p) available shown name)
      (readName (w'.holding p) (redefine x d available) shown name) := by
  have hfixed : readDefined (w.holding p) available shown x = pure v :=
    readDefined_fixed ((h.holding p).fixed?_self shown)
  have hnamed := h.named name
  -- A name that is neither fixed nor defined is not the variable.
  have hother : (w.isFixed name || w.strategy.definitions.contains name) =
      false → name ≠ x := by
    rintro hn rfl
    rw [h.defined, Bool.or_true] at hn
    cases hn
  cases nameReading w name with
  | named hn =>
      rw [readName_named (w := w.holding p) hn,
        readName_named (w := w'.holding p) (hnamed.trans hn)]
      by_cases hname : name = x
      · subst hname
        rw [hfixed]
        exact hself h.variableOf_self h.entered?_self
      · refine Pinned.togetherDefined h hcalls hvariable shown hname ?_
        intro f left hf hr
        have hdef := (definition_of_release? hsub hr).1
        refine hentered (entered?_named hf hdef) ?_
        rw [variableOf_named hdef]
        exact hr
  | input hn hi =>
      rw [readName_input (w := w.holding p) hn hi,
        readName_input (w := w'.holding p) (hnamed.trans hn)
          ((h.inputs (hother hn)).trans hi)]
      exact .pure rfl
  | @line hn hi base line hs hb =>
      rw [readName_line (w := w.holding p) hn hi hs hb,
        readName_line (w := w'.holding p) (hnamed.trans hn)
          ((h.inputs (hother hn)).trans hi) hs ((h.hasLines base).trans hb)]
      refine Together.bind (V := Eq) ?_ ?_
      · by_cases hbase : base = x
        · subst hbase
          rw [hfixed]
          refine hself (variableOf_line hn hs) ?_
          exact entered?_line (hnamed.trans hn) hs h.unfixed
            (by rw [h.getElem?, if_pos rfl])
        · refine Pinned.togetherDefined h hcalls hvariable shown hbase ?_
          intro f left hf hr
          have hdef := (definition_of_release? hsub hr).1
          refine hentered (entered?_line hn hs hf hdef) ?_
          rw [variableOf_line hn hs]
          exact hr
      · rintro u _ rfl
        exact .pure rfl
  | unknown hn hi hs =>
      rw [readName_unknown (w := w.holding p) hn hi hs,
        readName_unknown (w := w'.holding p) (hnamed.trans hn)
          ((h.inputs (hother hn)).trans hi)
          fun base line hsplit => (h.hasLines base).trans (hs base line hsplit)]
      exact .pure rfl
termination_by weightDefinitions available + 1
decreasing_by all_goals omega

theorem Pinned.togetherDefined (h : Pinned w w' x v d)
    (hcalls : AlikeAtCalls w' x d scope p R)
    (hvariable : AlikeAtVariable w' x v d scope p R)
    {available : Definitions} (shown : Nat) {name : String} (hne : name ≠ x)
    (hdefined : ∀ {f left}, w.isFixed name = false →
      release? name available = some (f, left) → scope.contains left f) :
    Together R Eq (readDefined (w.holding p) available shown name)
      (readDefined (w'.holding p) (redefine x d available) shown name) := by
  have hfixed' : w'.isFixed name = w.isFixed name := by
    rw [h.isFixed, decide_eq_false hne, Bool.false_or]
  have hreleased := release?_redefine x d name available
  cases hf : w.isFixed name with
  | true =>
      obtain ⟨u, hu⟩ := Option.isSome_iff_exists.mp
        ((isSome_fixed? (w.holding p) name shown).trans hf)
      rw [readDefined_fixed hu,
        readDefined_fixed (((h.holding p).fixed?_ne hne shown).trans hu)]
      exact .pure rfl
  | false =>
      cases hr : release? name available with
      | some found =>
          obtain ⟨f, left⟩ := found
          rw [hr, Option.map_some, if_neg hne] at hreleased
          rw [readDefined_entered (w := w.holding p) hf hr,
            readDefined_entered (w := w'.holding p) (hfixed'.trans hf)
              hreleased]
          exact Pinned.together h hcalls hvariable shown f (hdefined hf hr)
      | none =>
          rw [hr, Option.map_none] at hreleased
          rw [readDefined_absent (w := w.holding p) hf hr,
            readDefined_absent (w := w'.holding p) (hfixed'.trans hf)
              hreleased]
          exact .pure rfl
termination_by weightDefinitions available
decreasing_by
  have hweight := weight_release? hr
  omega

end

end

/-! ## Dependence on the view -/

theorem reachesView_absent {s : Strategy} {available : Definitions}
    {name : String} {rest : List String}
    (hr : release? (variableOf s name) available = none) :
    reachesView s available (name :: rest) = reachesView s available rest := by
  rw [reachesView]
  split
  · rfl
  · rename_i heq
    rw [hr] at heq
    cases heq

theorem reachesView_entered {s : Strategy} {available left : Definitions}
    {name : String} {rest : List String} {value : Expr}
    (hr : release? (variableOf s name) available = some (value, left)) :
    reachesView s available (name :: rest) =
      (readsView value ||
        reachesView s left (namesInView value ++ rest)) := by
  rw [reachesView]
  split
  · rename_i heq
    rw [hr] at heq
    cases heq
  · rename_i heq
    rw [hr] at heq
    cases heq
    rfl

section

variable {w w' : World} {x : String} {v : Value} {d old : Expr}

/-- What can be reached depends on the view alike if the two definitions of the
variable do. -/
theorem Pinned.reachesView_eq (h : Pinned w w' x v d)
    (hold : w.strategy.definitions[x]? = some old)
    (hview : readsView d = readsView old)
    (hnames : namesInView d = namesInView old) {available : Definitions}
    (ha : available.Sublist w.definitions) (names : List String) :
    reachesView w'.strategy (redefine x d available) names =
      reachesView w.strategy available names := by
  induction available, names using reachesView.induct w.strategy with
  | case1 available => rw [reachesView, reachesView]
  | case2 available name rest hr ih =>
      have hr' : release? (variableOf w'.strategy name)
          (redefine x d available) = none := by
        rw [h.variableOf_eq, release?_redefine, hr]
        rfl
      rw [reachesView_absent hr, reachesView_absent hr']
      exact ih ha
  | case3 available name rest value left hr ih =>
      have hr' := release?_redefine x d
        (variableOf w.strategy name) available
      rw [hr, ← h.variableOf_eq, Option.map_some] at hr'
      obtain ⟨hvalue, hleft⟩ := definition_of_release? ha hr
      rw [reachesView_entered hr, reachesView_entered hr']
      split
      · -- The variable itself is entered.
        rename_i hvariable
        rw [h.variableOf_eq] at hvariable
        rw [hvariable, hold] at hvalue
        cases hvalue
        rw [hview, hnames, ih hleft]
      · rw [ih hleft]

theorem Pinned.dependsOnView_eq (h : Pinned w w' x v d)
    (hold : w.strategy.definitions[x]? = some old)
    (hview : readsView d = readsView old)
    (hnames : namesInView d = namesInView old) (e : Expr) :
    dependsOnView w'.strategy e = dependsOnView w.strategy e := by
  have hreaches := h.reachesView_eq hold hview hnames (List.Sublist.refl _)
    (namesInView e)
  rw [← h.definitions] at hreaches
  unfold dependsOnView
  exact congrArg (readsView e || ·) hreaches

end

end Barscript.Session
