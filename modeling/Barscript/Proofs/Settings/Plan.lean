import Barscript.Proofs.Settings.Sections
import Barscript.Settings.Plan

/-!
# A plan that is made can be run

`Plan.build` checks the values of a settings file and then reads them once more, each with a
reading of its own. `Plan.Runnable` says what a run needs of a plan and `Misses` which value
stands in the way; neither mentions the checks. A plan that is made is runnable, and none is
made exactly when a value misses what it has to meet.
-/

namespace Barscript.Settings

open Barscript.Text Barscript.Series Barscript.Trading

/-! ## Requirements -/

/-- The values that can replace an input. A text has to name a column of any bars. -/
inductive Replaces : Value → Prop
  | number {x : Float} (h : isFinite x = true) : Replaces (.number x)
  | bool (b : Bool) : Replaces (.bool b)
  | column {name : String} (h : ∀ bars, (Market.column? bars name).isSome = true) :
      Replaces (.text name)

/-- The capital that a settings file states, if it states one. -/
def Sections.statedCapital? (s : Sections) : Option Float :=
  (s.value? backtestSection capitalKey).bind fun raw => Decimal.read? (trim raw.toList)

/-- The symbol that a settings file states, if it states one. -/
def Sections.statedSymbol? (s : Sections) : Option String :=
  (s.value? backtestSection symbolKey).map trimmed

/-- What a run needs of the plan for a settings file and a capital option. -/
structure Plan.Runnable (plan : Plan) (settings : Option Sections)
    (capital : Option Float) : Prop where
  positive : 0.0 < plan.config.capital
  finite : isFinite plan.config.capital = true
  /-- The option comes first, then the settings file, then the default. -/
  capital : plan.config.capital =
    (capital.or (settings.bind Sections.statedCapital?)).getD defaultCapital
  named : plan.config.symbol ≠ ""
  symbol : plan.config.symbol = (settings.bind Sections.statedSymbol?).getD defaultSymbol
  /-- Every key in the section of the inputs is replaced, and nothing else. -/
  complete : ∀ name, name ∈ plan.overrides.map Prod.fst ↔
    ∃ s ∈ settings, name ∈ s.keysOf inputSection
  /-- The names stand in the order of their bytes, so each stands there once. -/
  ordered : (plan.overrides.map Prod.fst).Pairwise fun a b => bytes a < bytes b
  usable : ∀ entry ∈ plan.overrides, Replaces entry.2
  /-- A value is the one that stands in the settings file. -/
  stated : ∀ entry ∈ plan.overrides, ∃ s ∈ settings, ∃ raw ∈ s.value? inputSection entry.1,
    entry.2 = .ofText raw

/-- A value that is there and misses what a run needs. -/
inductive Misses (settings : Option Sections) (capital : Option Float) : Unusable → Prop
  | capital {s : Sections} {raw : String} (hs : s ∈ settings)
      (hraw : raw ∈ s.value? backtestSection capitalKey)
      (h : ∀ x ∈ Decimal.read? (trim raw.toList), ¬(0.0 < x ∧ isFinite x = true)) :
      Misses settings capital .capital
  | symbol {s : Sections} {raw : String} (hs : s ∈ settings)
      (hraw : raw ∈ s.value? backtestSection symbolKey) (h : trimmed raw = "") :
      Misses settings capital .symbol
  /-- A key without a value has no value that could replace the input. -/
  | input {s : Sections} {name : String} (hs : s ∈ settings)
      (hname : name ∈ s.keysOf inputSection)
      (h : ∀ raw ∈ s.value? inputSection name, ¬Replaces (.ofText raw)) :
      Misses settings capital (.input name ((s.value? inputSection name).getD ""))
  | capitalOption {x : Float} (hx : x ∈ capital) (h : ¬(0.0 < x ∧ isFinite x = true)) :
      Misses settings capital .capitalOption

/-! ## The checks -/

theorem isCapital_iff {x : Float} : isCapital x = true ↔ 0.0 < x ∧ isFinite x = true := by
  unfold isCapital
  rw [Bool.and_eq_true, decide_eq_true_eq]

/-- The names of the price columns are the names that stand for a price. -/
theorem isSome_priceOf? (name : String) :
    (Market.priceOf? name).isSome = Market.priceColumns.contains name := by
  unfold Market.priceOf?
  split
  case h_10 => simp_all [Market.priceColumns]
  all_goals decide

theorem isInputValue_iff {v : Value} : isInputValue v = true ↔ Replaces v := by
  cases v with
  | number x => exact ⟨.number, fun | .number h => h⟩
  | bool b => exact ⟨fun _ => .bool b, fun _ => rfl⟩
  | text name =>
      have hcolumn (bars : List Market.Bar) :
          (Market.column? bars name).isSome = Market.priceColumns.contains name := by
        rw [← isSome_priceOf?]
        exact Option.isSome_map
      constructor
      · exact fun h => .column fun bars => (hcolumn bars).trans h
      · exact fun | .column h => (hcolumn []).symm.trans (h [])
  | na | series _ | tuple _ => exact ⟨nofun, nofun⟩

/-- An empty text cannot replace an input. -/
theorem not_replaces_empty : ¬Replaces (.ofText "") :=
  mt isInputValue_iff.mpr (by decide)

/-- The values of a settings file that the checks accept: the capital and the symbol if they
are there, and every input. -/
structure Sections.Sound (s : Sections) : Prop where
  capital : ∀ raw ∈ s.value? backtestSection capitalKey,
    ∃ x ∈ Decimal.read? (trim raw.toList), 0.0 < x ∧ isFinite x = true
  symbol : ∀ raw ∈ s.value? backtestSection symbolKey, trimmed raw ≠ ""
  inputs : ∀ name ∈ s.keysOf inputSection,
    ∃ raw ∈ s.value? inputSection name, Replaces (.ofText raw)

/-- A check without a complaint has passed. -/
theorem of_refusal_eq_none {p : Prop} [Decidable p] {cause : Unusable}
    (h : (if p then none else some cause) = none) : p := by
  by_contra hp
  rw [if_neg hp] at h
  cases h

section

variable {s : Sections} {capital : Option Float} {cause : Unusable}

theorem capital_of_unusableCapital? (h : s.unusableCapital? = none) :
    ∀ raw ∈ s.value? backtestSection capitalKey,
      ∃ x ∈ Decimal.read? (trim raw.toList), 0.0 < x ∧ isFinite x = true := by
  intro raw hraw
  unfold Sections.unusableCapital? at h
  rw [Option.mem_def.mp hraw] at h
  have hcheck := of_refusal_eq_none h
  cases hread : Decimal.read? (trim raw.toList) with
  | none =>
      rw [hread] at hcheck
      cases hcheck
  | some x =>
      rw [hread] at hcheck
      exact ⟨x, rfl, isCapital_iff.mp hcheck⟩

theorem misses_of_unusableCapital? (h : s.unusableCapital? = some cause) :
    Misses (some s) capital cause := by
  unfold Sections.unusableCapital? at h
  split at h
  · cases h
  · rename_i raw hraw
    split at h
    · cases h
    · rename_i hcheck
      cases h
      refine .capital rfl hraw fun x hx hgood => hcheck ?_
      rw [Option.mem_def.mp hx]
      exact isCapital_iff.mpr hgood

theorem trimmed_eq_empty_iff {raw : String} :
    trimmed raw = "" ↔ (trim raw.toList).isEmpty = true := by
  unfold trimmed
  rw [List.isEmpty_iff, String.ofList_eq_empty_iff]

theorem symbol_of_unusableSymbol? (h : s.unusableSymbol? = none) :
    ∀ raw ∈ s.value? backtestSection symbolKey, trimmed raw ≠ "" := by
  intro raw hraw hempty
  unfold Sections.unusableSymbol? at h
  rw [Option.mem_def.mp hraw] at h
  dsimp only at h
  rw [if_pos (trimmed_eq_empty_iff.mp hempty)] at h
  cases h

theorem misses_of_unusableSymbol? (h : s.unusableSymbol? = some cause) :
    Misses (some s) capital cause := by
  unfold Sections.unusableSymbol? at h
  split at h
  · cases h
  · rename_i raw hraw
    split at h
    · rename_i hcheck
      cases h
      exact .symbol rfl hraw (trimmed_eq_empty_iff.mpr hcheck)
    · cases h

/-- The text of a key that passes the check of the inputs is there. -/
theorem replaces_of_isInputValue {name : String}
    (h : isInputValue (.ofText ((s.value? inputSection name).getD "")) = true) :
    ∃ raw ∈ s.value? inputSection name, Replaces (.ofText raw) := by
  cases hraw : s.value? inputSection name with
  | none =>
      rw [hraw] at h
      exact absurd (isInputValue_iff.mp h) not_replaces_empty
  | some raw =>
      rw [hraw] at h
      exact ⟨raw, rfl, isInputValue_iff.mp h⟩

theorem inputs_of_unusableInput? (h : s.unusableInput? = none) :
    ∀ name ∈ s.keysOf inputSection,
      ∃ raw ∈ s.value? inputSection name, Replaces (.ofText raw) := by
  intro name hname
  have hnone := List.findSome?_eq_none_iff.mp h name (mem_keys.mpr hname)
  exact replaces_of_isInputValue (of_refusal_eq_none hnone)

theorem misses_of_unusableInput? (h : s.unusableInput? = some cause) :
    Misses (some s) capital cause := by
  obtain ⟨name, hname, hcause⟩ := List.exists_of_findSome?_eq_some h
  dsimp only at hcause
  split at hcause
  · cases hcause
  · rename_i hcheck
    cases hcause
    refine .input rfl (mem_keys.mp hname) fun raw hraw hgood => hcheck ?_
    rw [Option.mem_def.mp hraw]
    exact isInputValue_iff.mpr hgood

/-- What the checks accept is sound. -/
theorem sound_of_unusable? (h : s.unusable? = none) : s.Sound := by
  obtain ⟨hcapital, hrest⟩ := Option.or_eq_none_iff.mp h
  obtain ⟨hsymbol, hinput⟩ := Option.or_eq_none_iff.mp hrest
  exact ⟨capital_of_unusableCapital? hcapital, symbol_of_unusableSymbol? hsymbol,
    inputs_of_unusableInput? hinput⟩

/-- What the checks refuse misses a requirement. -/
theorem misses_of_unusable? (h : s.unusable? = some cause) :
    Misses (some s) capital cause := by
  rcases Option.or_eq_some_iff.mp h with hcapital | ⟨-, hrest⟩
  · exact misses_of_unusableCapital? hcapital
  · rcases Option.or_eq_some_iff.mp hrest with hsymbol | ⟨-, hinput⟩
    · exact misses_of_unusableSymbol? hsymbol
    · exact misses_of_unusableInput? hinput

end

/-! ## Plans -/

/-- What is asked of the settings file, if there is one, and of the capital option. -/
structure Meets (settings : Option Sections) (capital : Option Float) : Prop where
  settings : ∀ s ∈ settings, s.Sound
  option : ∀ x ∈ capital, 0.0 < x ∧ isFinite x = true

theorem Meets.not_misses {settings : Option Sections} {capital : Option Float}
    {cause : Unusable} (h : Meets settings capital) : ¬Misses settings capital cause := by
  rintro (⟨hs, hraw, hbad⟩ | ⟨hs, hraw, hbad⟩ | ⟨hs, hname, hbad⟩ | ⟨hx, hbad⟩)
  · obtain ⟨x, hx, hgood⟩ := (h.settings _ hs).capital _ hraw
    exact hbad x hx hgood
  · exact (h.settings _ hs).symbol _ hraw hbad
  · obtain ⟨raw, hraw, hgood⟩ := (h.settings _ hs).inputs _ hname
    exact hbad raw hraw hgood
  · exact hbad (h.option _ hx)

/-- The overrides are the keys of the section of the inputs, each with its value. -/
theorem Sections.Sound.map_fst_overrides {s : Sections} (h : s.Sound) :
    s.overrides.map Prod.fst = s.keys inputSection := by
  unfold Sections.overrides
  rw [List.map_filterMap]
  have hkept : ∀ name ∈ s.keys inputSection,
      (((s.value? inputSection name).map fun raw => (name, Value.ofText raw)).map Prod.fst) =
        some name := by
    intro name hname
    obtain ⟨raw, hraw, -⟩ := h.inputs name (mem_keys.mp hname)
    rw [Option.mem_def.mp hraw]
    rfl
  rw [List.filterMap_congr hkept]
  exact List.filterMap_some

theorem Sections.Sound.mem_overrides {s : Sections} (h : s.Sound) {entry : String × Value}
    (hentry : entry ∈ s.overrides) :
    ∃ raw ∈ s.value? inputSection entry.1, entry.2 = .ofText raw ∧ Replaces entry.2 := by
  obtain ⟨name, hname, hvalue⟩ := List.mem_filterMap.mp hentry
  obtain ⟨raw, hraw, rfl⟩ := Option.map_eq_some_iff.mp hvalue
  obtain ⟨text, htext, hgood⟩ := h.inputs name (mem_keys.mp hname)
  cases hraw.symm.trans htext
  exact ⟨raw, hraw, rfl, hgood⟩

/-- The default of the capital can be run with. -/
theorem defaultCapital_isCapital : 0.0 < defaultCapital ∧ isFinite defaultCapital = true := by
  decide +kernel

theorem Sections.Sound.statedCapital? {s : Sections} (h : s.Sound) :
    0.0 < s.statedCapital?.getD defaultCapital ∧
      isFinite (s.statedCapital?.getD defaultCapital) = true := by
  unfold Sections.statedCapital?
  cases hraw : s.value? backtestSection capitalKey with
  | none => exact defaultCapital_isCapital
  | some raw =>
      obtain ⟨x, hx, hgood⟩ := h.capital raw hraw
      rw [Option.bind_some, Option.mem_def.mp hx]
      exact hgood

theorem Sections.Sound.statedSymbol? {s : Sections} (h : s.Sound) :
    s.statedSymbol?.getD defaultSymbol ≠ "" := by
  unfold Sections.statedSymbol?
  cases hraw : s.value? backtestSection symbolKey with
  | none => decide
  | some raw => exact h.symbol raw hraw

/-- A sound settings file gives a plan that can be run. -/
theorem Sections.Sound.runnable {s : Sections} (h : s.Sound) (htrim : s.AllTrimmed)
    (path : Option String) : Plan.Runnable ⟨s.config, path, s.overrides⟩ (some s) none := by
  have hcapital : s.config.capital = s.statedCapital?.getD defaultCapital :=
    htrim.number backtestSection capitalKey defaultCapital
  exact
    { positive := hcapital ▸ h.statedCapital?.1
      finite := hcapital ▸ h.statedCapital?.2
      capital := hcapital
      named := h.statedSymbol?
      symbol := rfl
      complete := fun name => by
        rw [h.map_fst_overrides, mem_keys]
        exact ⟨fun hname => ⟨s, rfl, hname⟩,
          fun ⟨_, hs, hname⟩ => Option.mem_some.mp hs ▸ hname⟩
      ordered := by
        rw [h.map_fst_overrides]
        exact pairwise_keys s inputSection
      usable := fun entry hentry => (h.mem_overrides hentry).choose_spec.2.2
      stated := fun entry hentry => by
        obtain ⟨raw, hraw, hvalue, -⟩ := h.mem_overrides hentry
        exact ⟨s, rfl, raw, hraw, hvalue⟩ }

/-- Without a settings file the defaults are run with. -/
theorem runnable_default (path : Option String) :
    Plan.Runnable ⟨Config.default, path, []⟩ none none where
  positive := defaultCapital_isCapital.1
  finite := defaultCapital_isCapital.2
  capital := rfl
  named := (by decide : defaultSymbol ≠ "")
  symbol := rfl
  complete name := ⟨nofun, nofun⟩
  ordered := .nil
  usable := nofun
  stated := nofun

/-- A capital option that can be run with takes the place of the capital. -/
theorem Plan.Runnable.withCapital {plan : Plan} {settings : Option Sections}
    (h : plan.Runnable settings none) {x : Float} (hx : 0.0 < x ∧ isFinite x = true) :
    Plan.Runnable { plan with config := { plan.config with capital := x } } settings (some x) :=
  { h with positive := hx.1, finite := hx.2, capital := rfl }

/-- The plan that an optional settings file gives before the capital option is looked at. -/
def Plan.ofSettings (settings : Option Sections) (dataPath : Option String) : Plan :=
  { config := settings.elim Config.default Sections.config
    dataPath := dataPath.or (settings.bind fun s => s.value? dataSection pathKey)
    overrides := settings.elim [] Sections.overrides }

/-- The checks of the settings file come before the capital option. -/
theorem build_eq (settings : Option Sections) (dataPath : Option String)
    (capital : Option Float) :
    Plan.build settings dataPath capital =
      match settings.bind Sections.unusable? with
      | some cause => .error cause
      | none => (Plan.ofSettings settings dataPath).withCapital capital := by
  cases settings with
  | none => rfl
  | some s =>
      unfold Plan.build Plan.ofSections
      cases h : s.unusable? <;> simp [h, bind, Except.bind, Plan.ofSettings]

theorem runnable_ofSettings {settings : Option Sections} (hsound : ∀ s ∈ settings, s.Sound)
    (htrim : ∀ s ∈ settings, s.AllTrimmed) (dataPath : Option String) :
    (Plan.ofSettings settings dataPath).Runnable settings none := by
  cases settings with
  | none => exact runnable_default _
  | some s => exact (hsound s rfl).runnable (htrim s rfl) _

/-- A plan that is made can be run, from settings and an option that meet what is asked. -/
theorem runnable_of_build {settings : Option Sections} {dataPath : Option String}
    {capital : Option Float} {plan : Plan} (htrim : ∀ s ∈ settings, s.AllTrimmed)
    (h : Plan.build settings dataPath capital = .ok plan) :
    plan.Runnable settings capital ∧ Meets settings capital := by
  rw [build_eq] at h
  split at h
  · cases h
  · rename_i hnone
    have hsound : ∀ s ∈ settings, s.Sound := fun s hs =>
      sound_of_unusable? (Option.bind_eq_none_iff.mp hnone s hs)
    have hplan := runnable_ofSettings hsound htrim dataPath
    cases capital with
    | none =>
        cases h
        exact ⟨hplan, hsound, nofun⟩
    | some x =>
        unfold Plan.withCapital at h
        dsimp only at h
        split at h
        · rename_i hcheck
          have hx := isCapital_iff.mp hcheck
          cases h
          refine ⟨hplan.withCapital hx, hsound, fun y hy => ?_⟩
          cases hy
          exact hx
        · cases h

/-- The cause that is given for no plan is a value that misses a requirement. -/
theorem misses_of_build {settings : Option Sections} {dataPath : Option String}
    {capital : Option Float} {cause : Unusable}
    (h : Plan.build settings dataPath capital = .error cause) :
    Misses settings capital cause := by
  rw [build_eq] at h
  split at h
  · rename_i found
    obtain ⟨s, rfl, hcause⟩ := Option.bind_eq_some_iff.mp found
    cases h
    exact misses_of_unusable? hcause
  · cases capital with
    | none => cases h
    | some x =>
        unfold Plan.withCapital at h
        dsimp only at h
        split at h
        · cases h
        · rename_i hcheck
          cases h
          exact .capitalOption rfl fun hx => hcheck (isCapital_iff.mpr hx)

/-- **A plan that is made can be run, and only an unusable value keeps it from being made.**
For settings read from any text or none, and for any options: a plan that is made meets
everything that a run needs of it, no plan is made where a value misses a requirement, and
the cause that is given names such a value. -/
theorem build_runnable {settings : Option Sections}
    (h : ∀ s ∈ settings, ∃ text, Sections.read text = .ok s) (dataPath : Option String)
    (capital : Option Float) :
    (∀ plan, Plan.build settings dataPath capital = .ok plan →
      plan.Runnable settings capital) ∧
    ((∃ cause, Misses settings capital cause) →
      ∃ cause, Plan.build settings dataPath capital = .error cause) ∧
    ∀ cause, Plan.build settings dataPath capital = .error cause →
      Misses settings capital cause := by
  have htrim : ∀ s ∈ settings, s.AllTrimmed := fun s hs =>
    (h s hs).elim fun _ => allTrimmed_read
  refine ⟨fun plan hplan => (runnable_of_build htrim hplan).1, ?_, fun _ => misses_of_build⟩
  rintro ⟨cause, hmiss⟩
  cases hbuild : Plan.build settings dataPath capital with
  | error cause => exact ⟨cause, rfl⟩
  | ok plan => exact absurd hmiss (runnable_of_build htrim hbuild).2.not_misses

/-- A settings file that replaces two inputs and states a capital. -/
def twoInputs : String :=
  "[backtest]\ninitial_capital = 5\n[inputs]\nsource: close\nlength = 7\n"

theorem eq_ok_of_toOption {ε α : Type} {r : Except ε α} {a : α} (h : r.toOption = some a) :
    r = .ok a := by
  cases r with
  | error cause => cases h
  | ok b => exact congrArg Except.ok (Option.some.inj h)

/-- With it a plan is made, and none with a capital option that is no number. -/
theorem build_runnable_twoInputs : ∃ s plan, Sections.read twoInputs = .ok s ∧
    Plan.build (some s) none none = .ok plan ∧ plan.Runnable (some s) none ∧
    plan.overrides.map Prod.fst = ["length", "source"] ∧
    ∃ cause, Plan.build (some s) none (some undefined) = .error cause := by
  have hmade : ((Sections.read twoInputs).toOption.bind fun s =>
      (Plan.build (some s) none none).toOption.map fun plan =>
        plan.overrides.map Prod.fst) = some ["length", "source"] := by
    decide +kernel
  obtain ⟨s, hs, hplan⟩ := Option.bind_eq_some_iff.mp hmade
  obtain ⟨plan, hplan, hnames⟩ := Option.map_eq_some_iff.mp hplan
  have hread := eq_ok_of_toOption hs
  have hbuild := eq_ok_of_toOption hplan
  have hfrom : ∀ t ∈ some s, ∃ text, Sections.read text = .ok t := by
    rintro t ⟨⟩
    exact ⟨twoInputs, hread⟩
  have hmiss : Misses (some s) (some undefined) .capitalOption :=
    .capitalOption rfl (by decide +kernel)
  exact ⟨s, plan, hread, hbuild, (build_runnable hfrom none none).1 plan hbuild, hnames,
    (build_runnable hfrom none (some undefined)).2.1 ⟨_, hmiss⟩⟩

end Barscript.Settings
