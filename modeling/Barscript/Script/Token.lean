/-!
# Tokens

A script is a sequence of tokens: numbers, strings, words, operators and newlines, closed by one
end-of-input token.  Words fall into classes by fixed tables (`TokenKind.ofWord`): a name is a
keyword, a builtin or free for the script to define.
-/

namespace Barscript.Script

/-- The classes of tokens. -/
inductive TokenKind where
  | number
  | string
  | boolean
  | identifier
  | keyword
  | builtinFunction
  | builtinVariable
  | versionPragma
  | plus
  | minus
  | star
  | slash
  | percent
  | assign
  | colonAssign
  | equal
  | notEqual
  | greater
  | less
  | greaterEqual
  | lessEqual
  | and
  | or
  | not
  | question
  | colon
  | arrow
  | leftParen
  | rightParen
  | leftBracket
  | rightBracket
  | comma
  | dot
  | newline
  | endOfInput
deriving DecidableEq, Repr, Inhabited

/-- The name of a class in a listing of tokens. -/
def TokenKind.label : TokenKind → String
  | .number => "Number"
  | .string => "Str"
  | .boolean => "Bool"
  | .identifier => "Identifier"
  | .keyword => "Keyword"
  | .builtinFunction => "BuiltinFunction"
  | .builtinVariable => "BuiltinVariable"
  | .versionPragma => "VersionPragma"
  | .plus => "Plus"
  | .minus => "Minus"
  | .star => "Star"
  | .slash => "Slash"
  | .percent => "Percent"
  | .assign => "Assign"
  | .colonAssign => "ColonAssign"
  | .equal => "Equal"
  | .notEqual => "NotEqual"
  | .greater => "Greater"
  | .less => "Less"
  | .greaterEqual => "GreaterEqual"
  | .lessEqual => "LessEqual"
  | .and => "And"
  | .or => "Or"
  | .not => "Not"
  | .question => "Question"
  | .colon => "Colon"
  | .arrow => "Arrow"
  | .leftParen => "LParen"
  | .rightParen => "RParen"
  | .leftBracket => "LBracket"
  | .rightBracket => "RBracket"
  | .comma => "Comma"
  | .dot => "Dot"
  | .newline => "Newline"
  | .endOfInput => "Eof"

/-- How a message speaks of a class. -/
def TokenKind.description : TokenKind → String
  | .number => "number"
  | .string => "string"
  | .boolean => "boolean"
  | .identifier => "identifier"
  | .keyword => "keyword"
  | .builtinFunction => "builtin function"
  | .builtinVariable => "builtin variable"
  | .versionPragma => "version pragma"
  | .plus => "'+'"
  | .minus => "'-'"
  | .star => "'*'"
  | .slash => "'/'"
  | .percent => "'%'"
  | .assign => "'='"
  | .colonAssign => "':='"
  | .equal => "'=='"
  | .notEqual => "'!='"
  | .greater => "'>'"
  | .less => "'<'"
  | .greaterEqual => "'>='"
  | .lessEqual => "'<='"
  | .and => "'and'"
  | .or => "'or'"
  | .not => "'not'"
  | .question => "'?'"
  | .colon => "':'"
  | .arrow => "'=>'"
  | .leftParen => "'('"
  | .rightParen => "')'"
  | .leftBracket => "'['"
  | .rightBracket => "']'"
  | .comma => "','"
  | .dot => "'.'"
  | .newline => "newline"
  | .endOfInput => "end of input"

/-- Words that belong to the language itself. -/
def keywords : List String :=
  ["if", "else", "for", "while", "switch", "case", "default", "var", "varip", "const", "type",
   "import", "export", "na", "strategy", "indicator", "library"]

/-- Builtins that are called. -/
def builtinFunctions : List String :=
  ["ta.sma", "ta.ema", "ta.wma", "ta.vwma", "ta.rma", "ta.rsi", "ta.macd", "ta.bb", "ta.atr",
   "ta.tr", "ta.stoch", "ta.cci", "ta.adx", "ta.supertrend", "ta.vwap", "ta.highest",
   "ta.lowest", "ta.crossover", "ta.crossunder", "ta.change", "ta.mom", "ta.roc", "ta.wpr",
   "ta.obv", "ta.mfi", "ta.pivot", "ta.ichimoku",
   "math.abs", "math.max", "math.min", "math.round", "math.floor", "math.ceil", "math.sqrt",
   "math.pow", "math.log", "math.exp",
   "strategy.entry", "strategy.exit", "strategy.close", "strategy.close_all", "strategy.cancel",
   "strategy.cancel_all", "strategy.order",
   "input", "input.int", "input.float", "input.bool", "input.string", "input.source",
   "input.timeframe",
   "plot", "plotshape", "plotchar", "bgcolor", "fill", "hline", "plotcandle", "plotbar",
   "alert", "alertcondition",
   "array.new_float", "array.push", "array.pop", "array.get", "array.set",
   "str.tostring", "str.format", "request.security",
   "nz", "fixnan", "barssince", "valuewhen"]

/-- Builtins that are read like variables. -/
def builtinVariables : List String :=
  ["open", "high", "low", "close", "volume", "time", "hl2", "hlc3", "ohlc4", "hlcc4",
   "bar_index",
   "barstate.isfirst", "barstate.islast", "barstate.ishistory", "barstate.isrealtime",
   "barstate.isnew",
   "syminfo.ticker", "syminfo.tickerid", "syminfo.mintick",
   "timeframe.period", "timeframe.multiplier",
   "strategy.position_size", "strategy.position_avg_price", "strategy.equity",
   "strategy.netprofit", "strategy.long", "strategy.short",
   "color.red", "color.green", "color.blue", "color.white", "color.black"]

/-- The class of a word.  A word in no table is free for the script to define. -/
def TokenKind.ofWord (word : String) : TokenKind :=
  if word = "true" ∨ word = "false" then .boolean
  else if word = "and" then .and
  else if word = "or" then .or
  else if word = "not" then .not
  else if word ∈ keywords then .keyword
  else if word ∈ builtinFunctions then .builtinFunction
  else if word ∈ builtinVariables then .builtinVariable
  else .identifier

/-- A place in a text: line and column, both counted from one. -/
structure Place where
  line : Nat
  column : Nat
deriving DecidableEq, Repr, Inhabited

/-- The place of the first character. -/
def Place.start : Place := ⟨1, 1⟩

/-- A token with its value and the place of its first character. -/
structure Token where
  kind : TokenKind
  value : String
  place : Place
deriving DecidableEq, Repr, Inhabited

end Barscript.Script
