import Barscript.Decimal.Text

/-!
# JSON documents

The tree of a JSON document and its two layouts: `compact` without any space, and `pretty` with
one item per line and two spaces for each level.  Fields keep their order.  A number that is not
finite has no JSON form and is written as `null`.
-/

namespace Barscript.Report

open Barscript.Decimal

/-- A JSON document. -/
inductive Document where
  | null
  | bool (b : Bool)
  /-- A count, written without a point. -/
  | count (n : Nat)
  | number (x : Float)
  | text (s : String)
  | list (items : List Document)
  | record (fields : List (String × Document))

/-- The lower-case hexadecimal digit of a number below sixteen. -/
def hexDigit (n : Nat) : Char :=
  if n < 10 then Char.ofNat (n + 48) else Char.ofNat (n + 87)

/-- A character inside a JSON string: quotes, backslashes and control characters are escaped. -/
def escapeChar (c : Char) : List Char :=
  if c = '"' then ['\\', '"']
  else if c = '\\' then ['\\', '\\']
  else if c = '\x08' then ['\\', 'b']
  else if c = '\x0c' then ['\\', 'f']
  else if c = '\n' then ['\\', 'n']
  else if c = '\r' then ['\\', 'r']
  else if c = '\t' then ['\\', 't']
  else if c.toNat < 32 then
    ['\\', 'u', '0', '0', hexDigit (c.toNat / 16), hexDigit (c.toNat % 16)]
  else [c]

/-- A JSON string with its quotes. -/
def quoted (s : String) : List Char :=
  '"' :: s.toList.flatMap escapeChar ++ ['"']

/-- The word for nothing. -/
def nullText : List Char := ['n', 'u', 'l', 'l']

/-- The text of a document that holds no other documents. -/
def Document.leaf : Document → List Char
  | .bool true => ['t', 'r', 'u', 'e']
  | .bool false => ['f', 'a', 'l', 's', 'e']
  | .count n => natDigits n
  | .number x => (compact? x).getD nullText
  | .text s => quoted s
  | _ => nullText

mutual

/-- The document without any space. -/
def Document.compact : Document → List Char
  | .list items => '[' :: compactItems items ++ [']']
  | .record fields => '\x7b' :: compactFields fields ++ ['\x7d']
  | leaf => leaf.leaf

/-- Items with commas between them. -/
def compactItems : List Document → List Char
  | [] => []
  | [item] => item.compact
  | item :: next :: rest => item.compact ++ ',' :: compactItems (next :: rest)

/-- Fields with commas between them. -/
def compactFields : List (String × Document) → List Char
  | [] => []
  | [(name, value)] => quoted name ++ ':' :: value.compact
  | (name, value) :: next :: rest =>
    quoted name ++ ':' :: value.compact ++ ',' :: compactFields (next :: rest)

end

/-- The start of a line at some depth. -/
def newLine (depth : Nat) : List Char :=
  '\n' :: List.replicate (2 * depth) ' '

mutual

/-- The document with one item per line, inside `depth` others. -/
def Document.prettyAt (depth : Nat) : Document → List Char
  | .list [] => ['[', ']']
  | .list (item :: rest) =>
    '[' :: prettyItems (depth + 1) (item :: rest) ++ newLine depth ++ [']']
  | .record [] => ['\x7b', '\x7d']
  | .record (field :: rest) =>
    '\x7b' :: prettyFields (depth + 1) (field :: rest) ++ newLine depth ++ ['\x7d']
  | leaf => leaf.leaf

/-- Items, each on a line of its own. -/
def prettyItems (depth : Nat) : List Document → List Char
  | [] => []
  | [item] => newLine depth ++ item.prettyAt depth
  | item :: next :: rest =>
    newLine depth ++ item.prettyAt depth ++ ',' :: prettyItems depth (next :: rest)

/-- Fields, each on a line of its own. -/
def prettyFields (depth : Nat) : List (String × Document) → List Char
  | [] => []
  | [(name, value)] => newLine depth ++ quoted name ++ ':' :: ' ' :: value.prettyAt depth
  | (name, value) :: next :: rest =>
    newLine depth ++ quoted name ++ ':' :: ' ' :: value.prettyAt depth ++
      ',' :: prettyFields depth (next :: rest)

end

/-- The text of a document in one of the two layouts. -/
def Document.render (pretty : Bool) (d : Document) : String :=
  String.ofList (if pretty then d.prettyAt 0 else d.compact)

end Barscript.Report
