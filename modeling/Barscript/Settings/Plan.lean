import Barscript.Settings.Sections
import Barscript.Series.Value
import Barscript.Market.Bar
import Barscript.Trading.Report

/-!
# Plans

What a backtest is run with: its settings, where its bars are, and the values that replace inputs.
A plan is made from a settings file, and options of the command line come before it.  `Plan.build`
refuses a settings file with an unusable value even where an option would replace that value.
-/

namespace Barscript.Settings

open Barscript.Text Barscript.Series Barscript.Trading

/-- The section with the settings of a backtest. -/
def backtestSection : String := "backtest"

/-- The section that says where the bars are. -/
def dataSection : String := "data"

/-- The section with the values that replace inputs. -/
def inputSection : String := "inputs"

/-- The key of the initial capital. -/
def capitalKey : String := "initial_capital"

/-- The key of the symbol. -/
def symbolKey : String := "symbol"

/-- The key of the path of the bars. -/
def pathKey : String := "path"

/-- Which value is unusable. -/
inductive Unusable where
  /-- The capital in the settings file is no positive number. -/
  | capital
  /-- The symbol is blank. -/
  | symbol
  /-- The value for an input is of no type that an input can have. -/
  | input (name raw : String)
  /-- The capital option is no positive number. -/
  | capitalOption
deriving DecidableEq, Repr

/-- The section and the key of an unusable value. -/
def Unusable.key : Unusable → String × String
  | .capital | .capitalOption => (backtestSection, capitalKey)
  | .symbol => (backtestSection, symbolKey)
  | .input name _ => (inputSection, name)

/-- Why a value is unusable. -/
def Unusable.reason : Unusable → String
  | .capital => "initial_capital must be a positive number"
  | .symbol => "symbol must not be empty"
  | .input _ raw => "'" ++ trimmed raw ++ "' is not a number, boolean or price column"
  | .capitalOption => "--capital must be a positive number"

/-- Whether a capital is positive and finite. -/
def isCapital (x : Float) : Bool :=
  0.0 < x && isFinite x

/-- Whether a value can replace an input: a finite number, a boolean, or the name of a price
column. -/
def isInputValue : Value → Bool
  | .number x => isFinite x
  | .bool _ => true
  | .text name => Market.priceColumns.contains name
  | _ => false

/-- The first input, in the order of their names, whose value is unusable. -/
def Sections.unusableInput? (s : Sections) : Option Unusable :=
  (s.keys inputSection).findSome? fun name =>
    let raw := (s.value? inputSection name).getD ""
    if isInputValue (.ofText raw) then none else some (.input name raw)

/-- Whether the capital is unusable. -/
def Sections.unusableCapital? (s : Sections) : Option Unusable :=
  match s.value? backtestSection capitalKey with
  | none => none
  | some raw =>
    if ((Decimal.read? (trim raw.toList)).map isCapital).getD false then none else some .capital

/-- Whether the symbol is unusable. -/
def Sections.unusableSymbol? (s : Sections) : Option Unusable :=
  match s.value? backtestSection symbolKey with
  | none => none
  | some raw => if (trim raw.toList).isEmpty then some .symbol else none

/-- The first unusable value of a settings file: the capital, the symbol, then the inputs. -/
def Sections.unusable? (s : Sections) : Option Unusable :=
  s.unusableCapital?.or (s.unusableSymbol?.or s.unusableInput?)

/-- The settings of the backtest. -/
def Sections.config (s : Sections) : Config :=
  { capital := s.number backtestSection capitalKey defaultCapital
    symbol := ((s.value? backtestSection symbolKey).map trimmed).getD defaultSymbol }

/-- The values that replace inputs, in the order of their names. -/
def Sections.overrides (s : Sections) : List (String × Value) :=
  (s.keys inputSection).filterMap fun name =>
    (s.value? inputSection name).map fun raw => (name, .ofText raw)

/-- What a backtest is run with. -/
structure Plan where
  config : Config
  /-- The file with the bars, if it is known. -/
  dataPath : Option String
  overrides : List (String × Value)

/-- The plan without a settings file. -/
def Plan.default : Plan :=
  ⟨Config.default, none, []⟩

/-- The plan of a settings file. -/
def Plan.ofSections (s : Sections) : Except Unusable Plan :=
  match s.unusable? with
  | some cause => .error cause
  | none => .ok ⟨s.config, s.value? dataSection pathKey, s.overrides⟩

/-- The plan with the capital of an option. -/
def Plan.withCapital (plan : Plan) : Option Float → Except Unusable Plan
  | none => .ok plan
  | some capital =>
    if isCapital capital then .ok { plan with config := { plan.config with capital := capital } }
    else .error .capitalOption

/-- The plan of an optional settings file and of the options for the bars and the capital. -/
def Plan.build (settings : Option Sections) (dataPath : Option String) (capital : Option Float) :
    Except Unusable Plan := do
  let plan ← match settings with
    | some s => Plan.ofSections s
    | none => pure Plan.default
  { plan with dataPath := dataPath.or plan.dataPath }.withCapital capital

end Barscript.Settings
