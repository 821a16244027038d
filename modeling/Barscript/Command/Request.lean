import Barscript.Decimal.Reader

/-!
# Requests

A command line names one of four commands and its options.  An option is given as `--name value`,
`--name=value`, `-n value` or `-nvalue`, in any order; switches may share one dash and may stand
before the command.  The words before the command and those after it are two groups of their own:
`Request.read` accepts a command line only if in each group all options belong there, none is given
twice and the two switches do not meet, and if the required ones are there.
-/

namespace Barscript.Command

/-- The options of all commands. -/
inductive Key where
  | script
  | config
  | data
  | capital
  | output
  | warmup
  | verbose
  | quiet
deriving DecidableEq, Repr

/-- The long name of an option. -/
def Key.name : Key → String
  | .script => "script"
  | .config => "config"
  | .data => "data"
  | .capital => "capital"
  | .output => "output"
  | .warmup => "warmup"
  | .verbose => "verbose"
  | .quiet => "quiet"

/-- All options. -/
def Key.all : List Key :=
  [.script, .config, .data, .capital, .output, .warmup, .verbose, .quiet]

/-- Whether an option has no value. -/
def Key.isSwitch : Key → Bool
  | .verbose | .quiet => true
  | _ => false

/-- The option with a long name. -/
def Key.ofName? (name : List Char) : Option Key :=
  Key.all.find? fun key => key.name.toList == name

/-- The option with a short name, its first letter.  The capital has none. -/
def Key.ofLetter? (letter : Char) : Option Key :=
  Key.all.find? fun key => key != .capital && key.name.toList.head? == some letter

/-- Why a command line is not understood. -/
inductive UsageError where
  | noCommand
  | unknownCommand (word : String)
  | unexpected (word : String)
  | noValue (key : Key)
  | badValue (key : Key) (value : String)
  | twice (key : Key)
  | required (key : Key)
deriving DecidableEq, Repr

/-- Why a command line is not understood, in words. -/
def UsageError.message : UsageError → String
  | .noCommand => "a command is required: tokens, validate, backtest or stream"
  | .unknownCommand word => "unrecognized command '" ++ word ++ "'"
  | .unexpected word => "unexpected argument '" ++ word ++ "'"
  | .noValue key => "a value is required for '--" ++ key.name ++ "'"
  | .badValue key value => "invalid value '" ++ value ++ "' for '--" ++ key.name ++ "'"
  | .twice key => "'--" ++ key.name ++ "' cannot be used multiple times"
  | .required key => "'--" ++ key.name ++ "' is required"

/-! ## Words -/

/-- What a word of the command line holds: a plain word, the mark that ends the options, or switches
that may end in an option with its value, whole or still to come. -/
inductive Word where
  | plain
  | stop
  | options (switches : List Key) (last : Option (Key × Option (List Char)))
deriving DecidableEq, Repr

/-- The options behind a single dash. -/
def readLetters : List Char → Option (List Key × Option (Key × Option (List Char)))
  | [] => some ([], none)
  | letter :: rest =>
    (Key.ofLetter? letter).bind fun key =>
      if key.isSwitch then (readLetters rest).map fun found => (key :: found.1, found.2)
      else match rest with
        | [] => some ([], some (key, none))
        | '=' :: value => some ([], some (key, some value))
        | value => some ([], some (key, some value))

/-- The option behind two dashes. -/
def readName (text : List Char) : Option (List Key × Option (Key × Option (List Char))) :=
  (Key.ofName? (text.takeWhile (· != '='))).bind fun key =>
    match key.isSwitch, text.dropWhile (· != '=') with
    | true, [] => some ([key], none)
    | true, _ => none
    | false, [] => some ([], some (key, none))
    | false, _ :: value => some ([], some (key, some value))

/-- The reading of a word. -/
def Word.read (word : String) : Except UsageError Word :=
  let options (found : Option (List Key × Option (Key × Option (List Char)))) :=
    found.elim (.error (.unexpected word)) fun found => .ok (.options found.1 found.2)
  match word.toList with
  | ['-', '-'] => .ok .stop
  | '-' :: '-' :: text => options (readName text)
  | ['-'] => .ok .plain
  | '-' :: text => options (readLetters text)
  | _ => .ok .plain

/-! ## Options -/

/-- The options of a group of words, the last one first.  A switch has an empty value. -/
structure Options where
  values : List (Key × String)
deriving Repr

/-- The options together with another one. -/
def Options.add (o : Options) (key : Key) (value : String) : Except UsageError Options :=
  if o.values.any (·.1 == key) then .error (.twice key)
  else .ok ⟨(key, value) :: o.values⟩

/-- The options together with one that has a value, which may not be empty. -/
def Options.addValue (o : Options) (key : Key) (value : String) : Except UsageError Options :=
  if value.isEmpty then .error (.noValue key) else o.add key value

/-- The options together with those of further words, up to the first plain word or the mark that
ends the options, and the words from there on. -/
def Options.extend (o : Options) : List String → Except UsageError (Options × List String)
  | [] => .ok (o, [])
  | word :: rest =>
    match Word.read word with
    | .error cause => .error cause
    | .ok .plain | .ok .stop => .ok (o, word :: rest)
    | .ok (.options switches last) =>
      match switches.foldlM (fun o key => Options.add o key "") o, last with
      | .error cause, _ => .error cause
      | .ok o, none => o.extend rest
      | .ok o, some (key, some value) =>
        match o.addValue key (String.ofList value) with
        | .error cause => .error cause
        | .ok o => o.extend rest
      | .ok o, some (key, none) =>
        match rest with
        | [] => .error (.noValue key)
        | value :: rest =>
          match Word.read value, o.addValue key value with
          | .ok .plain, .ok o => o.extend rest
          | .ok .plain, .error cause => .error cause
          | _, _ => .error (.noValue key)

/-- The options in front of the first word that is none. -/
def Options.read (words : List String) : Except UsageError (Options × List String) :=
  Options.extend ⟨[]⟩ words

/-- The value of an option. -/
def Options.value? (o : Options) (key : Key) : Option String :=
  o.values.lookup key

/-- The value of a required option. -/
def Options.require (o : Options) (key : Key) : Except UsageError String :=
  (o.value? key).elim (.error (.required key)) .ok

/-- The value of an option as read by `read`. -/
def Options.readValue {α : Type} (o : Options) (key : Key) (read : List Char → Option α) :
    Except UsageError (Option α) :=
  match o.value? key with
  | none => .ok none
  | some value => (read value.toList).elim (.error (.badValue key value)) fun x => .ok (some x)

/-- Refuses options that do not belong to a group, and both switches at once. -/
def Options.onlyAllow (o : Options) (keys : List Key) : Except UsageError Unit :=
  if (o.value? .verbose).isSome && (o.value? .quiet).isSome then
    .error (.unexpected ("--" ++ Key.quiet.name))
  else match o.values.find? fun entry => !(entry.1.isSwitch || keys.contains entry.1) with
    | some entry => .error (.unexpected ("--" ++ entry.1.name))
    | none => .ok ()

/-! ## Requests -/

/-- What the program is asked to do. -/
inductive Request where
  /-- Show the tokens of a script. -/
  | tokens (script : String)
  /-- Read a script and show its outline. -/
  | validate (script : String)
  /-- Run a script over the bars of a table. -/
  | backtest (script : String) (config data : Option String) (capital : Option Float)
      (output : Option String)
  /-- Give the bars of a table to a script one by one and show the signals. -/
  | stream (script data : String) (warmup : Nat)
deriving Repr

/-- The number of bars that a word asks for; it has to fit into 64 bits. -/
def readCount? (text : List Char) : Option Nat :=
  (Decimal.readNat? (match text with | '+' :: digits => digits | digits => digits)).filter
    (· < Nat.pow 2 64)

/-- The request that a command with options makes. -/
def Request.ofOptions (command : String) (o : Options) : Except UsageError Request := do
  match command with
  | "tokens" =>
    o.onlyAllow [.script]
    return .tokens (← o.require .script)
  | "validate" =>
    o.onlyAllow [.script]
    return .validate (← o.require .script)
  | "backtest" =>
    o.onlyAllow [.script, .config, .data, .capital, .output]
    return .backtest (← o.require .script) (o.value? .config) (o.value? .data)
      (← o.readValue .capital Decimal.read?) (o.value? .output)
  | "stream" =>
    o.onlyAllow [.script, .data, .warmup]
    return .stream (← o.require .script) (← o.require .data)
      ((← o.readValue .warmup readCount?).getD 0)
  | word => throw (.unknownCommand word)

/-- The request that a command line makes.  No word stands behind the options of the command, but
the mark that ends them may. -/
def Request.read (words : List String) : Except UsageError Request := do
  let (switches, rest) ← Options.read words
  switches.onlyAllow []
  match rest with
  | [] => throw .noCommand
  | command :: rest =>
    match ← Options.read rest with
    | (o, []) | (o, ["--"]) => Request.ofOptions command o
    | (_, word :: _) => throw (.unexpected word)

end Barscript.Command
