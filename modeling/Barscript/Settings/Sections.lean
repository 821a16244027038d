import Std.Data.ExtTreeMap
import Barscript.Text.Blank
import Barscript.Text.Line
import Barscript.Decimal.Reader

/-!
# Settings files

A settings file sets keys to values, in sections.  A line is a heading `[section]`, a key with a
value behind `=` or `:`, or a key alone, which is present without a value.  Blanks around all of
these mean nothing, a comment runs from `;` or `#` to the end of the line, and keys in front of the
first heading belong to the section `default`.  A key that is set again takes the later value.
-/

namespace Barscript.Settings

open Barscript.Text

/-! ## Lines -/

/-- What is wrong with a line. -/
inductive Complaint where
  /-- A heading has no closing bracket. -/
  | unclosedHeading
  /-- Nothing stands in front of the delimiter. -/
  | missingKey
deriving DecidableEq, Repr

/-- A line that cannot be read. -/
structure Fault where
  /-- The number of the line, from one on. -/
  line : Nat
  complaint : Complaint
deriving DecidableEq, Repr

/-- The message of a fault.  A line without a key begins with its delimiter, so the offset of that
is zero. -/
def Fault.message (f : Fault) : String :=
  "line " ++ toString f.line ++ match f.complaint with
    | .unclosedHeading => ": Found opening bracket for section name but no closing bracket"
    | .missingKey => ":0: Key cannot be empty"

/-- The characters that start a comment. -/
def opensComment (c : Char) : Bool :=
  c == ';' || c == '#'

/-- The characters between a key and its value. -/
def isDelimiter (c : Char) : Bool :=
  c == '=' || c == ':'

/-- The part of a line that means something. -/
def meaningful (line : List Char) : List Char :=
  trim ((trim line).takeWhile fun c => !opensComment c)

/-- The text in front of the last occurrence of a character. -/
def beforeLast? (c : Char) (text : List Char) : Option (List Char) :=
  match text.reverse.dropWhile (· != c) with
  | [] => none
  | _ :: before => some before.reverse

/-- What a line says. -/
inductive Line where
  | blank
  | heading (name : List Char)
  | setting (key : List Char) (value : Option (List Char))
deriving DecidableEq, Repr

/-- The reading of a line.  A heading ends at the last closing bracket, and whatever follows that is
ignored. -/
def Line.read (line : List Char) : Except Complaint Line :=
  match meaningful line with
  | [] => .ok .blank
  | '[' :: rest =>
    match beforeLast? ']' rest with
    | some name => .ok (.heading (trim name))
    | none => .error .unclosedHeading
  | text =>
    let key := text.takeWhile fun c => !isDelimiter c
    match text.dropWhile fun c => !isDelimiter c with
    | [] => .ok (.setting text none)
    | _ :: value => if key.isEmpty then .error .missingKey
      else .ok (.setting (trim key) (some (trim value)))

/-! ## Sections -/

/-- The keys of a section, in order; a key may be present without a value. -/
abbrev Keys := Std.ExtTreeMap String (Option String)

/-- The contents of a settings file. -/
structure Sections where
  sections : Std.ExtTreeMap String Keys

/-- No section at all. -/
def Sections.empty : Sections := ⟨∅⟩

/-- The keys of a section, none when there is no such section. -/
def Sections.keysOf (s : Sections) (name : String) : Keys :=
  (s.sections[name]?).getD ∅

/-- The names of the keys of a section, in order. -/
def Sections.keys (s : Sections) (name : String) : List String :=
  (s.keysOf name).keys

/-- The value of a key. -/
def Sections.value? (s : Sections) (name key : String) : Option String :=
  (s.keysOf name)[key]?.join

/-- The value of a key as a number, and `default` when it is none. -/
def Sections.number (s : Sections) (name key : String) (default : Float) : Float :=
  ((s.value? name key).bind Decimal.readText?).getD default

/-- The sections after a key of a section is set. -/
def Sections.set (s : Sections) (name key : String) (value : Option String) : Sections :=
  ⟨s.sections.insert name ((s.keysOf name).insert key value)⟩

theorem Sections.keysOf_set (s : Sections) (name key other : String) (value : Option String) :
    (s.set name key value).keysOf other =
      if name = other then (s.keysOf name).insert key value else s.keysOf other := by
  simp only [keysOf, set, Std.ExtTreeMap.getElem?_insert, Std.LawfulEqCmp.compare_eq_iff_eq]
  split <;> simp

/-- The section of the keys in front of the first heading. -/
def firstSection : String := "default"

/-- The sections after further lines, numbered from `number` on, of which the first belong to the
section `current`. -/
def Sections.extend (s : Sections) (current : String) (number : Nat) :
    List (List Char) → Except Fault Sections
  | [] => .ok s
  | line :: rest =>
    match Line.read line with
    | .error complaint => .error ⟨number, complaint⟩
    | .ok .blank => s.extend current (number + 1) rest
    | .ok (.heading name) => s.extend (String.ofList name) (number + 1) rest
    | .ok (.setting key value) =>
      (s.set current (String.ofList key) (value.map String.ofList)).extend current (number + 1) rest

/-- The contents of the text of a settings file. -/
def Sections.read (text : String) : Except Fault Sections :=
  Sections.empty.extend firstSection 1 (lines text.toList)

end Barscript.Settings
