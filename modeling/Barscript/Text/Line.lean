/-!
# Lines

The lines of a text end at newlines; a carriage return directly before a newline belongs to the
line's end and not to the line.  A text that ends in a newline has no empty line after it.
-/

namespace Barscript.Text

/-- A line, given backwards, without the carriage return that stood before its newline. -/
def dropReturn : List Char → List Char
  | '\r' :: before => before
  | line => line

/-- The lines of a text whose current line was read up to here (backwards) already. -/
def linesAfter (current : List Char) : List Char → List (List Char)
  | [] => if current.isEmpty then [] else [current.reverse]
  | '\n' :: rest => (dropReturn current).reverse :: linesAfter [] rest
  | c :: rest => linesAfter (c :: current) rest

/-- The lines of a text. -/
def lines (s : List Char) : List (List Char) :=
  linesAfter [] s

end Barscript.Text
