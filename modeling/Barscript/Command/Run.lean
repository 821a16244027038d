import Barscript.Command.Host
import Barscript.Command.Request
import Barscript.Report.Console
import Barscript.Report.Summary
import Barscript.Session.Backtest

/-!
# Running a request

Results are shown apart from remarks: the outline of a script and its signals are results, the
figures of a backtest are remarks beside the report file.  A failure ends the run with its message
and its exit code.

A backtest fails on its settings before it reads the script, and on the script before it reads the
bars.
-/

namespace Barscript.Command

open Barscript.Script Barscript.Settings Barscript.Trading Barscript.Report

variable {m : Type → Type} [Monad m]

/-- A step of a run, which may fail. -/
abbrev Step (m : Type → Type) := ExceptT Failure m

/-- The text of a file. -/
def readText (host : Host m) (path : String) : m (Except FileError String) := do
  return match ← host.read path with
    | .error cause => .error cause
    | .ok content => (String.fromUTF8? content).elim (.error .notText) .ok

/-- The text of a script. -/
def readSource (host : Host m) (path : String) : Step m String := do
  match ← (readText host path : m _) with
  | .error cause => throw (.scriptFile path cause)
  | .ok source => return source

/-- The strategy of a script.  An error is also shown below the line it is in. -/
def readStrategy (host : Host m) (path : String) : Step m Strategy := do
  let source ← readSource host path
  match Strategy.parse source with
  | .ok strategy => return strategy
  | .error cause =>
    host.remark (line (cause.inContext source))
    throw (.script cause)

/-- The settings of a file. -/
def readSections (host : Host m) (path : String) : Step m Sections := do
  match ← (readText host path : m _) with
  | .error cause => throw (.settingsFile path cause)
  | .ok text =>
    match Sections.read text with
    | .error fault => throw (.settingsLine path fault)
    | .ok sections => return sections

/-- The bars of a table. -/
def readBars (host : Host m) (path : String) : Step m (List Market.Bar) := do
  match ← (host.read path : m _) with
  | .error cause => throw (.tableFile cause)
  | .ok content =>
    match Market.barsOfFile content with
    | .error cause => throw (.table path cause)
    | .ok bars => return bars

/-- Writes a report file. -/
def writeReport (host : Host m) (path text : String) : Step m Unit := do
  match ← (host.write path text : m _) with
  | .error cause => throw (.report path cause)
  | .ok () => host.remark (line ("\nReport written to: " ++ path))

/-- Runs a backtest. -/
def runBacktest (host : Host m) (script : String) (config data : Option String)
    (capital : Option Float) (output : Option String) : Step m Unit := do
  let sections ← match config with
    | some path => some <$> readSections host path
    | none => pure none
  let plan ← match Plan.build sections data capital with
    | .error cause => throw (.setting cause)
    | .ok plan => pure plan
  let path ← match plan.dataPath with
    | none => throw .noData
    | some path => pure path
  let strategy ← readStrategy host script
  let bars ← readBars host path
  let report := Session.backtest strategy plan.config plan.overrides bars
  host.remark (results report)
  match output with
  | some path => writeReport host path (fileText true report strategy)
  | none => pure ()

/-- Runs a script on bars that arrive one by one. -/
def runStream (host : Host m) (script data : String) (warmup : Nat) : Step m Unit := do
  let strategy ← readStrategy host script
  let bars ← readBars host data
  let signals := Session.streamSignals strategy defaultSymbol warmup bars
  host.result (String.join (signals.map fun entry => signalLine entry.1 entry.2))
  host.remark (line ("\n" ++ toString signals.length ++ " signals"))

/-- The steps of a request. -/
def Request.run (host : Host m) : Request → Step m Unit
  | .tokens script => do
    let source ← readSource host script
    host.result (String.join ((Script.tokens source).map tokenLine))
  | .validate script => do
    let strategy ← readStrategy host script
    host.result (outline strategy)
    host.remark (line "\nScript is valid.")
  | .backtest script config data capital output =>
    runBacktest host script config data capital output
  | .stream script data warmup => runStream host script data warmup

/-- The exit code of a command line that is not understood. -/
def usageExitCode : Nat := 2

/-- Runs a command line and gives the exit code. -/
def run (host : Host m) (words : List String) : m Nat := do
  match Request.read words with
  | .error cause =>
    host.remark (line ("error: " ++ cause.message))
    return usageExitCode
  | .ok request =>
    match ← (request.run host).run with
    | .ok () => return 0
    | .error failure =>
      host.remark (line ("error: " ++ failure.message))
      return failure.exitCode

end Barscript.Command
