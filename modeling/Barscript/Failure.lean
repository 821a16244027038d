import Barscript.Script.Strategy
import Barscript.Settings.Plan
import Barscript.Market.Table

/-!
# Failures

Everything that can end a run, by cause.  Each failure has one message and one exit code: 1 for
files that cannot be read or written, 2 for settings, 4 for scripts and 5 for market data.
-/

namespace Barscript

/-- Why a file cannot be used. -/
inductive FileError where
  | missing
  | isDirectory
  | notDirectory
  | notText
  /-- Any other reason, in the words of the system. -/
  | other (words : String)
deriving DecidableEq, Repr

/-- Why a file cannot be used, in words. -/
def FileError.message : FileError → String
  | .missing => "No such file or directory (os error 2)"
  | .isDirectory => "Is a directory (os error 21)"
  | .notDirectory => "Not a directory (os error 20)"
  | .notText => "stream did not contain valid UTF-8"
  | .other words => words

/-- What ends a run. -/
inductive Failure where
  /-- A line of a settings text cannot be read. -/
  | settingsText (fault : Settings.Fault)
  /-- A line of a settings file cannot be read. -/
  | settingsLine (path : String) (fault : Settings.Fault)
  /-- A settings file cannot be read. -/
  | settingsFile (path : String) (error : FileError)
  /-- Nothing says where the bars are. -/
  | noData
  /-- A value of the settings is unusable. -/
  | setting (value : Settings.Unusable)
  /-- A script is not well formed. -/
  | script (error : Script.SyntaxError)
  /-- A script cannot be read. -/
  | scriptFile (path : String) (error : FileError)
  /-- A table of bars is at fault. -/
  | table (path : String) (error : Market.TableError)
  /-- A table of bars cannot be read. -/
  | tableFile (error : FileError)
  /-- A report cannot be written. -/
  | report (path : String) (error : FileError)
deriving DecidableEq, Repr

/-- The message of a settings file that cannot be used. -/
def settingsMessage (file reason : String) : String :=
  "config parse error in " ++ file ++ ": " ++ reason

/-- The message of a failure. -/
def Failure.message : Failure → String
  | .settingsText fault => settingsMessage "<string>" fault.message
  | .settingsLine path fault =>
    settingsMessage path ("couldn't read " ++ path ++ ": " ++ fault.message)
  | .settingsFile path error =>
    settingsMessage path ("couldn't read " ++ path ++ ": " ++ error.message)
  | .noData => "missing config key [" ++ Settings.dataSection ++ "] " ++ Settings.pathKey
  | .setting value =>
    "invalid config value [" ++ value.key.1 ++ "] " ++ value.key.2 ++ ": " ++ value.reason
  | .script error => error.message
  | .scriptFile path error => "failed to read script " ++ path ++ ": " ++ error.message
  | .table path error => error.message path
  | .tableFile error => error.message
  | .report path error => "report error: failed to write " ++ path ++ ": " ++ error.message

/-- The exit code of a failure. -/
def Failure.exitCode : Failure → Nat
  | .tableFile _ | .report _ _ => 1
  | .settingsText _ | .settingsLine _ _ | .settingsFile _ _ | .noData | .setting _ => 2
  | .script _ | .scriptFile _ _ => 4
  | .table _ _ => 5

end Barscript
