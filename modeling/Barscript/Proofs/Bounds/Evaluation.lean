import Barscript.Proofs.Bounds.Calls
import Barscript.Proofs.Session.Literals
import Barscript.Proofs.Session.Sound

/-!
# Evaluation with checks

The evaluation of an expression with every access checked: names cut their
columns to the view, operators and calls are the checked ones. Where no input
is replaced by a column and every cached value fits the bars, the checked
evaluation succeeds with the value of the one without checks, which fits the
view. This holds in every session that operations lead to.
-/

namespace Barscript.Bounds

open Barscript.Script Barscript.Series Barscript.Builtin Barscript.Market
open Barscript.Session

/-! ## Names -/

/-- A price column on the oldest `shown` bars. -/
def price? (w : World) (name : String) (shown : Nat) :
    Checked (Option Value) :=
  (column? w.bars name).mapM fun xs => do
    let ys ← slice xs 0 shown
    .ok (.series ys)

/-- The value set for a name. -/
def override? (w : World) (name : String) (shown : Nat) :
    Checked (Option Value) :=
  match w.overrides[name]? with
  | some (.text s) => do
    let column ← price? w s shown
    .ok (some (column.getD (.text s)))
  | other => .ok other

/-- The names that every script may read. Times and indicators are the ones that
reach for bars. -/
def builtin? (w : World) (name : String) (shown : Nat) :
    Checked (Option Value) :=
  match name with
  | "time" => do
    let seen ← slice w.bars 0 shown
    .ok (some (.series (seen.map fun b => Float.ofInt b.time.milliseconds)))
  | "ta.tr" | "ta.obv" | "ta.vwap" => do
    let v ← indicator? name .empty w.bars
    .ok (some ((v.map (Value.truncate shown)).getD .na))
  | _ => .ok (w.builtin? name shown)

/-- The value of a name that the script does not define. -/
def fixed? (w : World) (name : String) (shown : Nat) :
    Checked (Option Value) := do
  let override ← override? w name shown
  let price ← price? w name shown
  let builtin ← builtin? w name shown
  .ok (override.or (price.or builtin))

section

variable {w : World} {shown : Nat}

theorem price?_ok (hs : shown ≤ w.bars.length) (name : String) :
    price? w name shown = .ok (w.price? name shown) := by
  refine mapM_ok fun xs hxs => ?_
  obtain ⟨price, _, rfl⟩ := Option.map_eq_some_iff.mp hxs
  rw [slice_ok (Nat.zero_le _) (by rw [List.length_map]; exact hs), ok_bind,
    List.drop_zero]

theorem override?_ok (hs : shown ≤ w.bars.length) (name : String) :
    override? w name shown = .ok (w.override? name shown) := by
  unfold override? World.override?
  cases w.overrides[name]? with
  | none => rfl
  | some v =>
      cases v with
      | text s =>
          dsimp only
          rw [price?_ok hs, ok_bind]
      | _ => rfl

theorem builtin?_ok (hs : shown ≤ w.bars.length) (name : String) :
    builtin? w name shown = .ok (w.builtin? name shown) := by
  unfold builtin?
  split
  · rw [slice_ok (Nat.zero_le _) hs, ok_bind, List.drop_zero]
    rfl
  · rw [indicator?_ok _ .empty, ok_bind]
    rfl
  · rw [indicator?_ok _ .empty, ok_bind]
    rfl
  · rw [indicator?_ok _ .empty, ok_bind]
    rfl
  · rfl

theorem fixed?_ok (hs : shown ≤ w.bars.length) (name : String) :
    fixed? w name shown = .ok (w.fixed? name shown) := by
  rw [fixed?, override?_ok hs, ok_bind, price?_ok hs, ok_bind,
    builtin?_ok hs, ok_bind]
  rfl

theorem fits_price? (hs : shown ≤ w.bars.length) {name : String} {v : Value}
    (hv : w.price? name shown = some v) : v.Fits shown := by
  obtain ⟨xs, hxs, rfl⟩ := Option.map_eq_some_iff.mp hv
  obtain ⟨price, _, rfl⟩ := Option.map_eq_some_iff.mp hxs
  exact Begins.length_prefix (begins_take (List.length_map _) hs)

theorem fits_override? (ho : w.PlainOverrides) (hs : shown ≤ w.bars.length)
    {name : String} {v : Value} (hv : w.override? name shown = some v) :
    v.Fits shown := by
  unfold World.override? at hv
  split at hv
  · rename_i s _
    cases hv
    cases hprice : w.price? s shown with
    | none => exact trivial
    | some column => exact fits_price? hs hprice
  · exact Value.fits_of_isColumn (ho name v hv)

theorem fits_indicatorVariable (hs : shown ≤ w.bars.length) (name : String) :
    (((Builtin.indicator? name .empty w.bars).map
      (Value.truncate shown)).getD .na).Fits shown := by
  have hfull : ((Builtin.indicator? name .empty w.bars).getD .na).Fits
      w.bars.length := fits_indicator? name .empty
  cases hv : Builtin.indicator? name .empty w.bars with
  | none => exact trivial
  | some v =>
      rw [hv] at hfull
      exact hfull.truncate hs

theorem fits_builtin? (hs : shown ≤ w.bars.length) {name : String}
    {v : Value} (hv : w.builtin? name shown = some v) : v.Fits shown := by
  unfold World.builtin? at hv
  split at hv
  case h_11 =>
    split at hv
    · cases hv
      exact fits_indicatorVariable hs name
    · cases hv
  all_goals
    cases hv
    simp [Value.Fits, hs]

theorem fits_fixed? (ho : w.PlainOverrides) (hs : shown ≤ w.bars.length)
    {name : String} {v : Value} (hv : w.fixed? name shown = some v) :
    v.Fits shown := by
  rcases Option.or_eq_some_iff.mp hv with hv | ⟨_, hv⟩
  · exact fits_override? ho hs hv
  · rcases Option.or_eq_some_iff.mp hv with hv | ⟨_, hv⟩
    · exact fits_price? hs hv
    · exact fits_builtin? hs hv

end

/-! ## Expressions -/

/-- Evaluation that may breach its bounds. -/
abbrev Checking := StateT Cache Checked

mutual

/-- The value of an expression on the oldest `shown` bars. -/
def evaluate (w : World) (available : Definitions) (shown : Nat) :
    Expr → Checking Value
  | .literal value => pure (.ofLiteral value)
  | .ref name => readName w available shown name
  | .call id name args => do
    if isIndicatorName name then
      match (← get).lookup id with
      | some value => pure (value.truncate shown)
      | none =>
        let values ← evaluateArguments w available w.bars.length args
        let value ← indicator? name (.ofList values) w.bars
        modify fun cache => (id, value.getD .na) :: cache
        pure ((value.getD .na).truncate shown)
    else
      let values ← evaluateArguments w available shown args
      let value ← function? name (.ofList values)
      pure (value.getD .na)
  | .binary op left right => do
    let a ← evaluate w available shown left
    let b ← evaluate w available shown right
    binary op a b
  | .unary op operand => do
    let a ← evaluate w available shown operand
    pure (.unary op a)
  | .ternary condition whenTrue whenFalse => do
    let c ← evaluate w available shown condition
    if c.isTruthy then evaluate w available shown whenTrue
    else evaluate w available shown whenFalse
  | .indexed name offset => do
    let base ← readName w available shown name
    let k ← evaluate w available shown offset
    lagBy base k
termination_by e => weightDefinitions available + weight e
decreasing_by all_goals simp only [weight]; omega

/-- The values of arguments, from left to right. -/
def evaluateArguments (w : World) (available : Definitions) (shown : Nat) :
    List (Argument Expr) → Checking (List (Argument Value))
  | [] => pure []
  | ⟨name, value⟩ :: rest => do
    let first ← evaluate w available shown value
    let others ← evaluateArguments w available shown rest
    pure (⟨name, first⟩ :: others)
termination_by args => weightDefinitions available + weightArguments args
decreasing_by all_goals simp only [weightArguments]; omega

/-- The value of a name. -/
def readName (w : World) (available : Definitions) (shown : Nat)
    (name : String) : Checking Value := do
  let fixed ← fixed? w name shown
  if fixed.isSome || w.strategy.definitions.contains name then
    readDefined w available shown name
  else
    match w.strategy.inputs[name]? with
    | some input => pure (inputDefault input)
    | none =>
      match splitLast name with
      | none => pure .na
      | some (base, line) =>
        if w.strategy.definitions.contains base ||
            w.overrides.contains base then
          let value ← readDefined w available shown base
          pure ((value.component? line).getD .na)
        else pure .na
termination_by weightDefinitions available + 1
decreasing_by all_goals omega

/-- The value of a name that is fixed or defined by the script. -/
def readDefined (w : World) (available : Definitions) (shown : Nat)
    (name : String) : Checking Value := do
  match ← fixed? w name shown with
  | some value => pure value
  | none =>
    match _h : release? name available with
    | some (value, left) => evaluate w left shown value
    | none => pure .na
termination_by weightDefinitions available
decreasing_by
  have := weight_release? _h
  omega

end

/-! ## Checked and unchecked side by side -/

section

variable {α β : Type} {P : Cache → Prop} {V : α → Prop} {W : β → Prop}

/-- From caches with the property the checked computation succeeds with what
the other one gives, and that has the two properties. -/
def Follows (P : Cache → Prop) (V : α → Prop) (x : Checking α)
    (y : Evaluating α) : Prop :=
  ∀ c, P c → x c = .ok (y c) ∧ V (y c).1 ∧ P (y c).2

theorem Follows.pure {a : α} (ha : V a) :
    Follows P V (pure a) (pure a) :=
  fun _ hc => ⟨rfl, ha, hc⟩

theorem Follows.bind {x : Checking α} {y : Evaluating α}
    {f : α → Checking β} {g : α → Evaluating β} (h : Follows P V x y)
    (hfg : ∀ a, V a → Follows P W (f a) (g a)) :
    Follows P W (x >>= f) (y >>= g) := by
  intro c hc
  obtain ⟨hxy, hv, hp⟩ := h c hc
  obtain ⟨hfollow, hrest⟩ := hfg _ hv _ hp
  refine ⟨?_, hrest⟩
  show (x c >>= fun r => f r.1 r.2) = _
  rw [hxy]
  exact hfollow

theorem access_ok {a : α} {f : α → Checking β} :
    (liftM (.ok a : Checked α) >>= f) = f a :=
  rfl

/-- An access within bounds leaves no trace. -/
theorem Follows.access {x : Checked α} {a : α} (hx : x = .ok a)
    {f : α → Checking β} {y : Evaluating β} (h : Follows P W (f a) y) :
    Follows P W (liftM x >>= f) y := by
  rw [hx]
  exact h

theorem Follows.last {x : Checked α} {a : α} (hx : x = .ok a) (ha : V a) :
    Follows P V (liftM x) (Pure.pure a) := by
  rw [hx]
  exact .pure ha

theorem Follows.get : Follows P P get get :=
  fun _ hc => ⟨rfl, hc, hc⟩

theorem Follows.modify {f : Cache → Cache} (hf : ∀ c, P c → P (f c)) :
    Follows P (fun _ => True) (modify f) (modify f) :=
  fun c hc => ⟨rfl, trivial, hf c hc⟩

end

/-! ## Evaluation stays in bounds -/

/-- Every cached value fits `m` bars. -/
def FitCache (m : Nat) (c : Cache) : Prop :=
  ∀ id v, c.lookup id = some v → v.Fits m

theorem FitCache.empty (m : Nat) : FitCache m [] := by
  intro id v hv
  cases hv

theorem FitCache.cons {m : Nat} {c : Cache} (h : FitCache m c) (id : Nat)
    {v : Value} (hv : v.Fits m) : FitCache m ((id, v) :: c) := by
  intro other u hu
  rw [List.lookup_cons] at hu
  split at hu
  · cases hu
    exact hv
  · exact h other u hu

/-- Without a fixed value a definition is entered and given up. -/
theorem readDefined_released {w : World} {available : Definitions}
    {shown : Nat} {name : String} (hs : shown ≤ w.bars.length)
    (hv : w.fixed? name shown = none) {value : Expr} {left : Definitions}
    (hr : release? name available = some (value, left)) :
    readDefined w available shown name = evaluate w left shown value := by
  rw [readDefined, fixed?_ok hs, hv, access_ok]
  dsimp only
  split
  · rename_i hsame
    cases hr.symm.trans hsame
    rfl
  · rename_i hnone
    cases hr.symm.trans hnone

theorem readDefined_nothing {w : World} {available : Definitions}
    {shown : Nat} {name : String} (hs : shown ≤ w.bars.length)
    (hv : w.fixed? name shown = none) (hr : release? name available = none) :
    readDefined w available shown name = pure .na := by
  rw [readDefined, fixed?_ok hs, hv, access_ok]
  dsimp only
  split
  · rename_i hsome
    cases hr.symm.trans hsome
  · rfl

theorem fits_lagBy {n : Nat} {v : Value} (h : v.Fits n) (offset : Value) :
    (Session.lagBy v offset).Fits n := by
  unfold Session.lagBy
  split
  · split
    · exact h.lag _
    · exact trivial
  · exact trivial

section

variable {w : World}

mutual

theorem follows_evaluate (ho : w.PlainOverrides) {shown : Nat}
    (hs : shown ≤ w.bars.length) (available : Definitions) (e : Expr) :
    Follows (FitCache w.bars.length) (Value.Fits shown)
      (evaluate w available shown e)
      (Session.evaluate w available shown e) := by
  match e with
  | .literal value =>
      rw [evaluate, Session.evaluate]
      exact .pure (Value.fits_of_isColumn (isColumn_ofLiteral value))
  | .ref name =>
      rw [evaluate, Session.evaluate]
      exact follows_readName ho hs available name
  | .call id name args =>
      rw [evaluate, Session.evaluate]
      split
      · refine Follows.get.bind fun c hc => ?_
        cases hv : c.lookup id with
        | some value => exact .pure ((hc id value hv).truncate hs)
        | none =>
            refine (follows_arguments ho (Nat.le_refl _) available args).bind
              fun values hvalues => ?_
            have hfit : (Arguments.ofList values).Fit w.bars.length :=
              .ofList hvalues
            have hvalue := fits_indicator? name hfit
            refine .access (indicator?_ok name hfit) ?_
            refine (Follows.modify fun c hc => hc.cons id hvalue).bind
              fun _ _ => ?_
            exact .pure (hvalue.truncate hs)
      · refine (follows_arguments ho hs available args).bind
          fun values hvalues => ?_
        refine .access (function?_ok name _) ?_
        exact .pure (fits_function? name (.ofList hvalues))
  | .binary op left right =>
      rw [evaluate, Session.evaluate]
      refine (follows_evaluate ho hs available left).bind fun a ha => ?_
      refine (follows_evaluate ho hs available right).bind fun b hb => ?_
      exact .last (binary_ok op a b) (ha.binary op hb)
  | .unary op operand =>
      rw [evaluate, Session.evaluate]
      refine (follows_evaluate ho hs available operand).bind fun a ha => ?_
      exact .pure (ha.unary op)
  | .ternary condition whenTrue whenFalse =>
      rw [evaluate, Session.evaluate]
      refine (follows_evaluate ho hs available condition).bind
        fun c _ => ?_
      split
      · exact follows_evaluate ho hs available whenTrue
      · exact follows_evaluate ho hs available whenFalse
  | .indexed name offset =>
      rw [evaluate, Session.evaluate]
      refine (follows_readName ho hs available name).bind fun v hv => ?_
      refine (follows_evaluate ho hs available offset).bind fun k _ => ?_
      exact .last (lagBy_ok v k) (fits_lagBy hv k)
termination_by weightDefinitions available + weight e
decreasing_by all_goals simp only [weight]; omega

theorem follows_arguments (ho : w.PlainOverrides) {shown : Nat}
    (hs : shown ≤ w.bars.length) (available : Definitions)
    (args : List (Argument Expr)) :
    Follows (FitCache w.bars.length)
      (fun values => ∀ a ∈ values, a.value.Fits shown)
      (evaluateArguments w available shown args)
      (Session.evaluateArguments w available shown args) := by
  match args with
  | [] =>
      rw [evaluateArguments, Session.evaluateArguments]
      exact .pure fun a ha => absurd ha List.not_mem_nil
  | ⟨name, value⟩ :: rest =>
      rw [evaluateArguments, Session.evaluateArguments]
      refine (follows_evaluate ho hs available value).bind fun v hv => ?_
      refine (follows_arguments ho hs available rest).bind fun vs hvs => ?_
      refine .pure fun a ha => ?_
      rcases List.mem_cons.mp ha with rfl | ha
      · exact hv
      · exact hvs a ha
termination_by weightDefinitions available + weightArguments args
decreasing_by all_goals simp only [weightArguments]; omega

theorem follows_readName (ho : w.PlainOverrides) {shown : Nat}
    (hs : shown ≤ w.bars.length) (available : Definitions) (name : String) :
    Follows (FitCache w.bars.length) (Value.Fits shown)
      (readName w available shown name)
      (Session.readName w available shown name) := by
  rw [readName, Session.readName]
  refine .access (fixed?_ok hs name) ?_
  split
  · exact follows_readDefined ho hs available name
  · cases w.strategy.inputs[name]? with
    | some input =>
        exact .pure (Value.fits_of_isColumn (isColumn_inputDefault input))
    | none =>
        cases splitLast name with
        | none => exact .pure (V := Value.Fits shown) trivial
        | some parts =>
            obtain ⟨base, line⟩ := parts
            dsimp only
            split
            · refine (follows_readDefined ho hs available base).bind
                fun v hv => ?_
              exact .pure (hv.component? line)
            · exact .pure (V := Value.Fits shown) trivial
termination_by weightDefinitions available + 1
decreasing_by all_goals omega

theorem follows_readDefined (ho : w.PlainOverrides) {shown : Nat}
    (hs : shown ≤ w.bars.length) (available : Definitions) (name : String) :
    Follows (FitCache w.bars.length) (Value.Fits shown)
      (readDefined w available shown name)
      (Session.readDefined w available shown name) := by
  cases hv : w.fixed? name shown with
  | some v =>
      rw [readDefined, readDefined_fixed hv]
      refine .access (fixed?_ok hs name) ?_
      rw [hv]
      exact .pure (fits_fixed? ho hs hv)
  | none =>
      have hfixed : w.isFixed name = false := by
        rw [← isSome_fixed? w name shown, hv]
        rfl
      cases hr : release? name available with
      | some found =>
          obtain ⟨value, left⟩ := found
          have hweight := weight_release? hr
          rw [readDefined_released hs hv hr, readDefined_entered hfixed hr]
          exact follows_evaluate ho hs left value
      | none =>
          rw [readDefined_nothing hs hv hr, readDefined_absent hfixed hr]
          exact .pure (V := Value.Fits shown) trivial
termination_by weightDefinitions available
decreasing_by omega

end

end

/-! ## Sessions -/

/-- The value of an expression on the oldest `shown` bars. -/
def valueOn (w : World) (shown : Nat) (e : Expr) : Checking Value :=
  evaluate w w.definitions shown e

/-- Every reached cache fits the bars. -/
theorem fitCache_of_reached {strategy : Strategy} {symbol : String}
    {s : Session} (h : Reached strategy symbol s) :
    s.PlainOverrides ∧ FitCache s.bars.length s.cache :=
  h.kept FitCache.empty fun w ho {_} hs e c hc =>
    (follows_evaluate ho hs w.definitions e c hc).2.2

/-- **Evaluation stays in bounds.** In every session that operations lead to,
every expression evaluates in every view of the bars without an access out of
bounds, a negative count or an empty window, and its value fits the view. -/
theorem valueOn_inBounds {strategy : Strategy} {symbol : String}
    {s : Session} (h : Reached strategy symbol s) {shown : Nat}
    (hs : shown ≤ s.bars.length) (e : Expr) :
    valueOn s.toWorld shown e s.cache =
        .ok (s.toWorld.valueOn shown e s.cache) ∧
      (s.toWorld.valueOn shown e s.cache).1.Fits shown := by
  obtain ⟨hplain, hcache⟩ := fitCache_of_reached h
  obtain ⟨hok, hfits, _⟩ :=
    follows_evaluate hplain hs s.toWorld.definitions e s.cache hcache
  exact ⟨hok, hfits⟩

/-- An average of a source that is chosen by an input, one bar back, read over
the oldest of two bars. -/
theorem valueOn_inBounds_chosenSource :
    ∃ v cache, v.Fits 1 ∧
      valueOn (((start .empty "").setInput "src" (.text "hl2")).loadBars
          [flatBar 1.0, flatBar 2.0]).toWorld 1
        (.binary .sub (.ref "close")
          (.call 0 "ta.sma" [⟨none, .ref "src"⟩, ⟨none, .literal (.number 2.0)⟩]))
        [] = .ok (v, cache) := by
  have hreached : Reached .empty ""
      (((start .empty "").setInput "src" (.text "hl2")).loadBars
        [flatBar 1.0, flatBar 2.0]) :=
    .loadBars (.setInput .start "src" rfl) _
  obtain ⟨hok, hfits⟩ := valueOn_inBounds hreached (by decide : 1 ≤ 2) _
  exact ⟨_, _, hfits, hok⟩

end Barscript.Bounds
