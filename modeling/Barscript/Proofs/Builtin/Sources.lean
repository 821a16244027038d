import Barscript.Builtin.Indicators

/-!
# Sources without a numeric reading

A source is given by a name or in its place, and what the indicator finds there
may be nothing that it can compute from: the absent value, or a text. Such a
source is not one that was left out. The answer is absent, and no price takes
the place of the source.

The stochastic oscillator alone looks away. It counts its sources before it
reads them, and it counts only those that stand in front without a name: with
none it takes all three prices, with one or two it takes two of them. What
stands in a source that it does not look at does not show.
-/

namespace Barscript.Builtin

open Barscript.Series Barscript.Market

/-- Values that are given and cannot be read as numbers. -/
inductive Unreadable : Value → Prop where
  | na : Unreadable .na
  | text (s : String) : Unreadable (.text s)

/-- The sources of an indicator, by position and names. Up to three unnamed
arguments in front of a stochastic oscillator are sources. -/
def sourceSlots (name : String) (args : Arguments) :
    List (Nat × List String) :=
  match name with
  | "ta.sma" | "ta.ema" | "ta.rma" | "ta.wma" | "ta.vwma" | "ta.rsi"
  | "ta.macd" | "ta.bb" | "ta.cci" | "ta.highest" | "ta.lowest"
  | "ta.change" | "ta.mom" | "ta.roc" | "ta.mfi" => [(0, sourceNames)]
  | "ta.stoch" =>
    [(0, sourceNames), (1, sourceNames), (2, sourceNames)].take
      (max 1 args.leadingSources)
  | "ta.crossover" | "ta.crossunder" => [(0, ["source1"]), (1, ["source2"])]
  | _ => []

/-- The indicator looks at the source in a place. Only the stochastic
oscillator does not always: at the close when some source stands in front
without a name, at the other two when there are three of them. -/
def Arguments.LooksAt (args : Arguments) (name : String) (index : Nat) : Prop :=
  name = "ta.stoch" →
    3 ≤ args.leadingSources ∨ index = 0 ∧ 1 ≤ args.leadingSources

instance (args : Arguments) (name : String) (index : Nat) :
    Decidable (args.LooksAt name index) := by
  unfold Arguments.LooksAt
  infer_instance

variable {args : Arguments} {bars : List Bar} {v : Value}

/-! ## What is given is found -/

theorem Unreadable.column? (h : Unreadable v) (length : Nat) :
    v.column? length = none := by
  cases h <;> rfl

/-- A value without a numeric reading is no length, so that in front it counts
as a source. -/
theorem Unreadable.isNumber (h : Unreadable v) : isNumber v = false := by
  cases h <;> rfl

theorem leadingSources_pos (h : Unreadable v)
    (hfront : args.positional[0]? = some v) : 1 ≤ args.leadingSources := by
  obtain ⟨positional, named⟩ := args
  obtain ⟨rest, rfl⟩ : ∃ rest, positional = v :: rest := by
    cases positional with
    | nil => cases hfront
    | cons w rest => exact ⟨rest, by cases hfront; rfl⟩
  simp only [Arguments.leadingSources, List.takeWhile_cons, h.isNumber,
    Bool.not_false, if_true, List.length_cons]
  omega

/-- An optional source is not taken for one that was left out. -/
theorem hasSource_of_unreadable (h : Unreadable v)
    (hv : args.get? 0 sourceNames = some v) : args.hasSource = true := by
  unfold Arguments.hasSource
  cases hnamed : args.named? sourceNames with
  | some w => rfl
  | none =>
    have hfront : args.positional[0]? = some v := by
      rwa [Arguments.get?, hnamed, Option.none_or] at hv
    simp only [leadingSources_pos h hfront, decide_true, Bool.or_true]

/-! ## It makes the answer absent -/

theorem source?_eq_none {index : Nat} (h : Unreadable v)
    (hv : args.get? index sourceNames = some v) :
    source? args bars index = none := by
  simp only [source?, hv, h.column?]

theorem sourceOr?_eq_none (h : Unreadable v)
    (hv : args.get? 0 sourceNames = some v) (price : Bar → Float) :
    sourceOr? args bars price = none := by
  rw [sourceOr?, if_pos (hasSource_of_unreadable h hv), source?_eq_none h hv]

theorem ofSource_eq_none (h : Unreadable v)
    (hv : args.get? 0 sourceNames = some v) (default : Nat)
    (compute : Column → Nat → Column) :
    ofSource args bars default compute = none := by
  rw [ofSource, source?_eq_none h hv, Option.map_none]

theorem ofOptionalSource_eq_none (h : Unreadable v)
    (hv : args.get? 0 sourceNames = some v) (price : Bar → Float)
    (default : Nat) (compute : Column → Nat → Column) :
    ofOptionalSource args bars price default compute = none := by
  rw [ofOptionalSource, sourceOr?_eq_none h hv, Option.map_none]

theorem column?_eq_none {index : Nat} {names : List String} (h : Unreadable v)
    (hv : args.get? index names = some v) (length : Nat) :
    args.column? index names length = none := by
  rw [Arguments.column?, hv, Option.bind_some, h.column?]

theorem ofPair_eq_none {slot : Nat × List String} (h : Unreadable v)
    (hslot : slot ∈ [(0, ["source1"]), (1, ["source2"])])
    (hv : args.get? slot.1 slot.2 = some v)
    (compute : Column → Column → Column) :
    ofPair args bars compute = none := by
  simp only [List.mem_cons, List.not_mem_nil, or_false] at hslot
  rcases hslot with rfl | rfl
  · simp only [ofPair, column?_eq_none h hv, Option.bind_eq_bind,
      Option.bind_none]
  · simp only [ofPair, column?_eq_none h hv, Option.bind_eq_bind,
      Option.bind_none, Option.bind_fun_none]

theorem stochasticSources?_eq_none {index : Nat} (hindex : index < 3)
    (hlook : args.LooksAt "ta.stoch" index)
    (hnone : source? args bars index = none) :
    stochasticSources? args bars = none := by
  rcases hlook rfl with hthree | ⟨rfl, hone⟩
  · -- All three are read, so that any of them stops the answer.
    rw [stochasticSources?, if_pos hthree]
    obtain rfl | rfl | rfl : index = 0 ∨ index = 1 ∨ index = 2 := by omega
    all_goals simp only [hnone, Option.bind_eq_bind, Option.bind_none,
      Option.bind_fun_none]
  · simp only [stochasticSources?, hnone, hone, if_true, Option.map_none,
      Option.bind_eq_bind, Option.bind_none, ite_self]

theorem mem_stochasticSlots {slot : Nat × List String}
    (hslot : slot ∈ sourceSlots "ta.stoch" args) :
    slot.1 < 3 ∧ slot.2 = sourceNames := by
  have hmem := List.mem_of_mem_take hslot
  simp only [List.mem_cons, List.not_mem_nil, or_false] at hmem
  rcases hmem with rfl | rfl | rfl <;> exact ⟨by decide, rfl⟩

/-! ## Every indicator -/

theorem compute?_eq_none {name : String} {slot : Nat × List String}
    (hslot : slot ∈ sourceSlots name args)
    (hv : args.get? slot.1 slot.2 = some v) (h : Unreadable v)
    (hlook : args.LooksAt name slot.1) : compute? name args bars = none := by
  unfold compute?
  split
  -- The places of the stochastic oscillator depend on its arguments.
  case h_11 =>
    obtain ⟨hindex, hnames⟩ := mem_stochasticSlots hslot
    rw [hnames] at hv
    rw [stochasticSources?_eq_none hindex hlook (source?_eq_none h hv),
      Option.map_none]
  all_goals first
    | rfl
    | exact absurd hslot List.not_mem_nil
    | exact ofPair_eq_none h hslot hv _
    | obtain rfl := List.mem_singleton.mp hslot
      first
        | exact ofSource_eq_none h hv _ _
        | exact ofOptionalSource_eq_none h hv _ _ _
        | rw [source?_eq_none h hv, Option.map_none]

/-- Only an indicator has sources. -/
theorem mem_indicatorNames {name : String} {slot : Nat × List String}
    (hslot : slot ∈ sourceSlots name args) : name ∈ indicatorNames := by
  unfold sourceSlots at hslot
  split at hslot
  all_goals first
    | exact absurd hslot List.not_mem_nil
    | decide

/-- **A source that is given and absent makes the answer absent.** Whatever the
indicator, its bars and its other arguments: where it looks at a source that is
given, by name or in its place, and finds no numeric reading, it answers with
the absent value. -/
theorem indicator?_absentSource {name : String} {slot : Nat × List String}
    (hslot : slot ∈ sourceSlots name args)
    (hv : args.get? slot.1 slot.2 = some v) (h : Unreadable v)
    (hlook : args.LooksAt name slot.1) :
    indicator? name args bars = some .na := by
  have hname : indicatorNames.contains name = true :=
    List.contains_iff_mem.mpr (mem_indicatorNames hslot)
  rw [indicator?, if_pos hname, compute?_eq_none hslot hv h hlook,
    Option.getD_none]

/-- The last of three sources. -/
theorem indicator?_absentSource_third :
    (2, sourceNames) ∈ sourceSlots "ta.stoch"
        ⟨[.series [3.0], .series [4.0], .text "low"], []⟩ ∧
      indicator? "ta.stoch" ⟨[.series [3.0], .series [4.0], .text "low"], []⟩
        [] = some .na := by
  have hslot : (2, sourceNames) ∈ sourceSlots "ta.stoch"
      ⟨[.series [3.0], .series [4.0], .text "low"], []⟩ := by decide
  exact ⟨hslot, indicator?_absentSource hslot rfl (.text "low") (by decide)⟩

/-! ## Where the stochastic oscillator looks away -/

theorem source?_eq_none_iff {index : Nat} :
    source? args bars index = none ↔
      ∃ v, args.get? index sourceNames = some v ∧
        v.column? bars.length = none := by
  unfold source?
  cases args.get? index sourceNames with
  | none => simp only [reduceCtorEq, false_and, exists_false]
  | some w => simp only [Option.some.injEq, exists_eq_left']

theorem stochasticSources?_eq_none_iff :
    stochasticSources? args bars = none ↔
      ∃ index < 3, args.LooksAt "ta.stoch" index ∧
        source? args bars index = none := by
  constructor
  · intro hnone
    refine Classical.byContradiction fun hall => ?_
    have hread : ∀ index < 3, args.LooksAt "ta.stoch" index →
        ∃ column, source? args bars index = some column := by
      intro index hindex hlook
      refine Option.ne_none_iff_exists'.mp fun hnone => ?_
      exact hall ⟨index, hindex, hlook, hnone⟩
    unfold stochasticSources? at hnone
    split at hnone
    next hthree =>
      obtain ⟨close, hclose⟩ := hread 0 (by omega) fun _ => .inl hthree
      obtain ⟨high, hhigh⟩ := hread 1 (by omega) fun _ => .inl hthree
      obtain ⟨low, hlow⟩ := hread 2 (by omega) fun _ => .inl hthree
      rw [hclose, hhigh, hlow] at hnone
      cases hnone
    next =>
      split at hnone
      next hone =>
        obtain ⟨close, hclose⟩ :=
          hread 0 (by omega) fun _ => .inr ⟨rfl, hone⟩
        rw [hclose] at hnone
        cases hnone
      next => cases hnone
  · rintro ⟨index, hindex, hlook, hnone⟩
    exact stochasticSources?_eq_none hindex hlook hnone

/-- **The stochastic oscillator misses no other source.** It answers with the
absent value exactly if one of the sources that it looks at is given and has no
numeric reading. With none in front without a name it looks at none. -/
theorem indicator?_stochastic_absent_iff :
    indicator? "ta.stoch" args bars = some .na ↔
      ∃ index < 3, args.LooksAt "ta.stoch" index ∧
        ∃ v, args.get? index sourceNames = some v ∧
          v.column? bars.length = none := by
  have hanswer : indicator? "ta.stoch" args bars = some .na ↔
      stochasticSources? args bars = none := by
    rw [indicator?, if_pos (by decide), compute?]
    cases stochasticSources? args bars with
    | none => simp only [Option.map_none, Option.getD_none]
    | some sources =>
      simp only [Option.map_some, Option.getD_some, Option.some.injEq,
        reduceCtorEq]
  rw [hanswer, stochasticSources?_eq_none_iff]
  simp only [source?_eq_none_iff]

/-- Without a source in front it looks at none, so that a source that is named
may be absent and the answer is still there. -/
theorem indicator?_stochastic_ne_na (hnone : args.leadingSources = 0) :
    indicator? "ta.stoch" args bars ≠ some .na := by
  rw [ne_eq, indicator?_stochastic_absent_iff]
  rintro ⟨index, -, hlook, -⟩
  rcases hlook rfl with hthree | ⟨-, hone⟩ <;> omega

example : indicator? "ta.stoch" ⟨[], [("source", .na)]⟩ [] ≠ some .na :=
  indicator?_stochastic_ne_na rfl

end Barscript.Builtin
