import Barscript.Text.Record
import Barscript.Text.Blank
import Barscript.Market.Bar

/-!
# Tables of bars

Bars are kept in a table whose first record names its columns.  The five price columns have to be
there, in any order and in any case, among any other columns; a time column is optional, and without
one the bars are a second apart.  Reading stops at the first row that is at fault; the complaint
tells the row, and for a malformed record also its place in the file.
-/

namespace Barscript.Market

open Barscript.Text

/-! ## Complaints -/

/-- A place in a file. -/
structure Spot where
  line : Nat
  /-- The number of bytes in front. -/
  byte : Nat
deriving DecidableEq, Repr

/-- What is wrong with a row. -/
inductive Defect where
  /-- The row has another number of cells than the first record. -/
  | width (record : Nat) (spot : Spot) (found expected : Nat)
  /-- A cell is text up to an index only. -/
  | encoding (record : Nat) (spot : Spot) (cell index : Nat)
  /-- The cell of a price column is no number. -/
  | price (column raw : String)
  /-- The cell of the time column is no time. -/
  | time (raw : String)
deriving DecidableEq, Repr

/-- Why no bars can be read. -/
inductive TableError where
  /-- A price column is missing. -/
  | missingColumn (name : String)
  /-- The name of a column is text up to an index only. -/
  | heading (cell index : Nat)
  /-- A row, counted from zero, is at fault. -/
  | row (number : Nat) (defect : Defect)
deriving DecidableEq, Repr

/-- What is wrong with a row, in words. -/
def Defect.message : Defect → String
  | .width record spot found expected =>
    "CSV error: record " ++ toString record ++ " (line: " ++ toString spot.line ++ ", byte: " ++
      toString spot.byte ++ "): found record with " ++ toString found ++
      " fields, but the previous record has " ++ toString expected ++ " fields"
  | .encoding record spot cell index =>
    "CSV parse error: record " ++ toString record ++ " (line " ++ toString spot.line ++
      ", field: " ++ toString cell ++ ", byte: " ++ toString spot.byte ++
      "): invalid utf-8: invalid UTF-8 in field " ++ toString cell ++ " near byte index " ++
      toString index
  | .price column raw => "invalid " ++ column ++ " value '" ++ raw ++ "'"
  | .time raw => "invalid timestamp '" ++ raw ++ "'"

/-- Why the names of columns in a file cannot be read, in words. -/
def headingMessage (path : String) (cell index : Nat) : String :=
  path ++ ": Utf8 \x7b pos: Some(Position \x7b byte: 0, line: 1, record: 0 \x7d), " ++
    "err: Utf8Error \x7b field: " ++ toString cell ++ ", valid_up_to: " ++ toString index ++
    " \x7d \x7d"

/-- Why no bars can be read from a file, in words. -/
def TableError.message (path : String) : TableError → String
  | .missingColumn name => "market data is missing required column '" ++ name ++ "'"
  | .heading cell index =>
    "invalid market data at row 0: " ++ headingMessage path cell index
  | .row number defect =>
    "invalid market data at row " ++ toString number ++ ": " ++ defect.message

/-! ## Columns -/

/-- Where the columns of a table are. -/
structure Layout where
  openPrice : Nat
  high : Nat
  low : Nat
  close : Nat
  volume : Nat
  time : Option Nat
deriving DecidableEq, Repr

/-- The first column with a name in small letters. -/
def findColumn? (names : List (List Char)) (name : String) : Option Nat :=
  names.findIdx? fun cell => cell.map Char.toLower == name.toList

/-- The column of a price. -/
def priceColumn (names : List (List Char)) (name : String) : Except TableError Nat :=
  (findColumn? names name).elim (.error (.missingColumn name)) .ok

/-- The names of a time column; an earlier one is preferred. -/
def timeNames : List String :=
  ["time", "timestamp", "date"]

/-- The columns that a list of names describes. -/
def Layout.ofNames (names : List (List Char)) : Except TableError Layout := do
  let openPrice ← priceColumn names "open"
  let high ← priceColumn names "high"
  let low ← priceColumn names "low"
  let close ← priceColumn names "close"
  let volume ← priceColumn names "volume"
  return ⟨openPrice, high, low, close, volume, timeNames.findSome? (findColumn? names)⟩

/-! ## Rows -/

/-- The cell of a column, empty when the row is too short. -/
def cellAt (cells : List (List Char)) (index : Nat) : List Char :=
  (cells[index]?).getD []

/-- The number in the column of a price. -/
def readPrice (cells : List (List Char)) (name : String) (index : Nat) : Except Defect Float :=
  let raw := cellAt cells index
  (Decimal.read? raw).elim (.error (.price name (String.ofList raw))) .ok

/-- The time of a row. -/
def readTime (cells : List (List Char)) (row : Nat) : Option Nat → Except Defect Moment
  | none => .ok (.ofSeconds row)
  | some index =>
    let raw := cellAt cells index
    (Moment.read? raw).elim (.error (.time (String.ofList raw))) .ok

/-- The bar of a row.  The prices are read before the time. -/
def Layout.readBar (layout : Layout) (row : Nat) (cells : List (List Char)) :
    Except Defect Bar := do
  let openPrice ← readPrice cells "open" layout.openPrice
  let high ← readPrice cells "high" layout.high
  let low ← readPrice cells "low" layout.low
  let close ← readPrice cells "close" layout.close
  let volume ← readPrice cells "volume" layout.volume
  let time ← readTime cells row layout.time
  return ⟨time, openPrice, high, low, close, volume⟩

/-! ## Files -/

variable {σ : Type} [Symbol σ]

/-- The place in front of what is left of a file. -/
def Spot.before (file left : List σ) : Spot :=
  { line := 1 + (newlineCount file - newlineCount left), byte := byteCount file - byteCount left }

/-- The names of the columns, without the blanks around them. -/
def headerNames (cells : List (List σ)) : Except TableError (List (List Char)) :=
  cells.zipIdx.mapM fun (cell, index) =>
    match Symbol.text cell with
    | .ok text => .ok (trim text)
    | .error valid => .error (.heading index valid)

/-- The cells of a row, without the blanks around them; the index of a cell that is no text is
counted behind its leading blanks. -/
def rowCells (number : Nat) (spot : Spot) (cells : List (List σ)) :
    Except Defect (List (List Char)) :=
  cells.zipIdx.mapM fun (cell, index) =>
    match Symbol.text cell with
    | .ok text => .ok (trim text)
    | .error valid => .error (.encoding number spot index (valid - leadingBlanks cell))

/-- The bar of a record of a file whose records have `width` cells. -/
def Layout.readRecord (layout : Layout) (file : List σ) (width row : Nat) (record : Record σ) :
    Except Defect Bar := do
  let spot := Spot.before file record.start
  if record.cells.length ≠ width then
    throw (.width (row + 1) spot record.cells.length width)
  layout.readBar row (← rowCells (row + 1) spot record.cells)

/-- The bars of a table. -/
def readTable (file : List σ) : Except TableError (List Bar) :=
  match records (withoutStartMark file) with
  | [] => (Layout.ofNames []).map fun _ => []
  | header :: rows => do
    let layout ← Layout.ofNames (← headerNames header.cells)
    rows.zipIdx.mapM fun (record, row) =>
      (layout.readRecord file header.cells.length row record).mapError (.row row)

/-- The bars of the table in a file. -/
def barsOfFile (content : ByteArray) : Except TableError (List Bar) :=
  match String.fromUTF8? content with
  | some text => readTable text.toList
  | none => readTable content.toList

end Barscript.Market
