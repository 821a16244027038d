import Barscript.Builtin.Indicators

/-!
# Styles of an indicator call

An indicator of a source and a length is called with both in their places, or
with one or both of them named. The style of the call does not show in the
answer as long as the indicator finds the source and the length where the style
puts them. Two slots are not found. A source that is named leaves the first
place free, but only the indicators whose source is optional look for the
length there; the others look in the second place and take their default.
The stochastic oscillator counts its unnamed sources, so that it takes the
close for a source that is named.
-/

namespace Barscript.Builtin

open Barscript.Series Barscript.Indicator Barscript.Market Barscript.Script

/-- The indicators of a source and a length. -/
def windowIndicators : List String :=
  ["ta.sma", "ta.ema", "ta.rma", "ta.wma", "ta.vwma", "ta.rsi", "ta.bb",
   "ta.stoch", "ta.cci", "ta.highest", "ta.lowest", "ta.change", "ta.mom",
   "ta.roc", "ta.mfi"]

/-- Those of them that can be called with a length alone. -/
def optionalSourceIndicators : List String :=
  ["ta.cci", "ta.highest", "ta.lowest", "ta.mfi"]

/-- How a call hands over its source `s` and its length `n`. -/
inductive CallStyle where
  /-- `f(s, n)` -/
  | positional
  /-- `f(s, length=n)` -/
  | namedLength
  /-- `f(source=s, length=n)` -/
  | named
  /-- `f(source=s, n)` -/
  | namedSource
deriving DecidableEq, Repr

/-- The arguments of a call in a style. -/
def CallStyle.arguments (style : CallStyle) (source : Column)
    (length : Float) : Arguments :=
  .ofList <| match style with
    | .positional => [⟨none, .series source⟩, ⟨none, .number length⟩]
    | .namedLength => [⟨none, .series source⟩, ⟨some "length", .number length⟩]
    | .named =>
      [⟨some "source", .series source⟩, ⟨some "length", .number length⟩]
    | .namedSource => [⟨some "source", .series source⟩, ⟨none, .number length⟩]

/-- The indicator looks for the source and the length where the style puts
them. -/
def CallStyle.Understood (style : CallStyle) (name : String) : Prop :=
  match style with
  | .positional | .namedLength => True
  | .named => name ≠ "ta.stoch"
  | .namedSource => name ∈ optionalSourceIndicators

instance (style : CallStyle) (name : String) :
    Decidable (style.Understood name) := by
  cases style <;> unfold CallStyle.Understood <;> infer_instance

/-- The length that a plain number stands for, or the default. -/
def countOr (default : Nat) (length : Float) : Nat :=
  if isFinite length && 1.0 ≤ length then toCount length else default

/-! ## What is found -/

section Readings

variable (style : CallStyle) (source : Column) (length : Float)
  (bars : List Bar) (default : Nat)

theorem source?_arguments :
    source? (style.arguments source length) bars 0 = some source := by
  cases style <;> rfl

theorem sourceOr?_arguments (price : Bar → Float) :
    sourceOr? (style.arguments source length) bars price = some source := by
  cases style <;> rfl

/-- Behind an optional source the length is found in every style. -/
theorem length_lengthSlot_arguments :
    (style.arguments source length).length
      (style.arguments source length).lengthSlot ["length"] default =
        countOr default length := by
  cases style <;> rfl

/-- The second place is empty when the source is named and the length is
not. -/
theorem length_arguments :
    (style.arguments source length).length 1 ["length"] default =
      if style = .namedSource then default else countOr default length := by
  cases style <;> rfl

theorem ofSource_arguments (compute : Column → Nat → Column) :
    ofSource (style.arguments source length) bars default compute =
      some (.series (compute source
        (if style = .namedSource then default
          else countOr default length))) := by
  rw [ofSource, source?_arguments, length_arguments]
  rfl

theorem ofOptionalSource_arguments (price : Bar → Float)
    (compute : Column → Nat → Column) :
    ofOptionalSource (style.arguments source length) bars price default
        compute =
      some (.series (compute source (countOr default length))) := by
  rw [ofOptionalSource, sourceOr?_arguments, length_lengthSlot_arguments]
  rfl

theorem multiplier_arguments (width : Float) :
    (style.arguments source length).number 2 ["mult"] width = width := by
  cases style <;> rfl

/-- Only a source without a name takes the place of the close. -/
theorem stochastic_arguments :
    compute? "ta.stoch" (style.arguments source length) bars =
      some (.tuple (stochasticOutputs (stochastic (prices bars Bar.high)
        (prices bars Bar.low)
        (if style = .named ∨ style = .namedSource then prices bars Bar.close
          else source)
        (countOr 14 length) 1 3))) := by
  cases style <;> rfl

end Readings

/-! ## The style does not show -/

variable {name : String} {style : CallStyle} (source : Column)
  (length : Float) (bars : List Bar)

/-- A name whose source is not optional is understood unless the length alone
stands in a place of its own. -/
theorem CallStyle.Understood.ne_namedSource (h : style.Understood name)
    (hname : name ∉ optionalSourceIndicators) : style ≠ .namedSource := by
  rintro rfl
  exact hname h

theorem compute?_arguments (hname : name ∈ windowIndicators)
    (hstyle : style.Understood name) :
    compute? name (style.arguments source length) bars =
      compute? name (CallStyle.positional.arguments source length) bars := by
  by_cases hoptional : name ∈ optionalSourceIndicators
  · -- The length stands behind the source if that is there, else in front.
    simp only [optionalSourceIndicators, List.mem_cons, List.not_mem_nil,
      or_false] at hoptional
    rcases hoptional with rfl | rfl | rfl | rfl <;>
      simp only [compute?, ofOptionalSource_arguments]
  · have hplace := hstyle.ne_namedSource hoptional
    by_cases hstoch : name = "ta.stoch"
    · subst hstoch
      have hnamed : style ≠ .named := by
        rintro rfl
        exact hstyle rfl
      simp only [stochastic_arguments, hplace, hnamed, or_self, reduceCtorEq,
        if_false]
    · simp only [windowIndicators, List.mem_cons, List.not_mem_nil,
        or_false] at hname
      rcases hname with rfl | rfl | rfl | rfl | rfl | rfl | rfl | rfl | rfl |
        rfl | rfl | rfl | rfl | rfl | rfl
      all_goals first
        | exact absurd rfl hstoch
        | exact absurd (by decide) hoptional
        | simp only [compute?, ofSource_arguments, source?_arguments,
            length_arguments, multiplier_arguments, hplace, reduceCtorEq,
            if_false]

/-- **The style of a call does not show.** An indicator of a source and a
length answers alike in all styles in which it looks for both where they
stand: in their places, or with the length named; with both named, unless it is
the stochastic oscillator; and with the source alone named, if its source is
optional. -/
theorem indicator?_callStyle (hname : name ∈ windowIndicators)
    (hstyle : style.Understood name) :
    indicator? name (style.arguments source length) bars =
      indicator? name (CallStyle.positional.arguments source length) bars := by
  unfold indicator?
  rw [compute?_arguments source length bars hname hstyle]

theorem indicator?_callStyle_average :
    "ta.highest" ∈ windowIndicators ∧
      CallStyle.namedSource.Understood "ta.highest" ∧
      indicator? "ta.highest"
          (CallStyle.namedSource.arguments [3.0, 5.0] 2.0) [] =
        indicator? "ta.highest"
          (CallStyle.positional.arguments [3.0, 5.0] 2.0) [] :=
  ⟨by decide, by decide, indicator?_callStyle _ _ _ (by decide) (by decide)⟩

/-! ## Where it shows -/

/-- The arguments of a call that names its source and gives no length. -/
def sourceAlone (source : Column) : Arguments :=
  .ofList [⟨some "source", .series source⟩]

theorem source?_sourceAlone :
    source? (sourceAlone source) bars 0 = some source :=
  rfl

theorem length_sourceAlone (default : Nat) :
    (sourceAlone source).length 1 ["length"] default = default :=
  rfl

theorem multiplier_sourceAlone (width : Float) :
    (sourceAlone source).number 2 ["mult"] width = width :=
  rfl

/-- An indicator whose source is not optional answers a call that names the
source alone as if no length were given. -/
theorem indicator?_namedSource (hname : name ∈ windowIndicators)
    (hoptional : name ∉ optionalSourceIndicators)
    (hstoch : name ≠ "ta.stoch") :
    indicator? name (CallStyle.namedSource.arguments source length) bars =
      indicator? name (sourceAlone source) bars := by
  unfold indicator?
  simp only [windowIndicators, List.mem_cons, List.not_mem_nil,
    or_false] at hname
  rcases hname with rfl | rfl | rfl | rfl | rfl | rfl | rfl | rfl | rfl |
    rfl | rfl | rfl | rfl | rfl | rfl
  all_goals first
    | exact absurd rfl hstoch
    | exact absurd (by decide) hoptional
    | simp only [compute?, ofSource, source?_arguments, length_arguments,
        multiplier_arguments, source?_sourceAlone, length_sourceAlone,
        multiplier_sourceAlone, if_true]

/-- The stochastic oscillator answers a call that names the source with the
close. -/
theorem stochastic_named (hstyle : style = .named ∨ style = .namedSource) :
    indicator? "ta.stoch" (style.arguments source length) bars =
      indicator? "ta.stoch"
        (CallStyle.positional.arguments (prices bars Bar.close) length)
        bars := by
  unfold indicator?
  simp only [stochastic_arguments, hstyle, reduceCtorEq, or_self, if_true,
    if_false]

/-- The mean of two bars is there when the source and the length stand in their
places. When the source is named it is missing: the window has the default
length and is not filled. -/
theorem indicator?_sma_lost :
    (indicator? "ta.sma" (CallStyle.positional.arguments [3.0, 5.0] 2.0)
        []).map (fun v => v.truthyAt 1) = some true ∧
      (indicator? "ta.sma" (CallStyle.namedSource.arguments [3.0, 5.0] 2.0)
        []).map (fun v => v.truthyAt 1) = some false := by
  decide +kernel

end Barscript.Builtin
