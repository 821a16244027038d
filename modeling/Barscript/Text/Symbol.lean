import Barscript.Text.Utf8

/-!
# Symbols

A table is read symbol by symbol.  The symbols of a well-formed file are its characters.  A file
that is no text is read byte by byte, so that the complaint can say which cell is at fault; the
marks that divide a table are ASCII, and in UTF-8 no byte of another character looks like one.
-/

namespace Barscript.Text

/-- What a file is made of. -/
class Symbol (σ : Type) where
  /-- The code of a symbol.  Below 128 it means the ASCII character. -/
  code : σ → Nat
  /-- How many bytes a symbol takes in a file. -/
  size : σ → Nat
  /-- The text of some symbols, or how many bytes of it are text. -/
  text : List σ → Except Nat (List Char)
  /-- The codes of the mark that may stand at the start of a file. -/
  startMark : List Nat

instance : Symbol Char where
  code := Char.toNat
  size := Char.utf8Size
  text := .ok
  startMark := [0xFEFF]

instance : Symbol UInt8 where
  code := UInt8.toNat
  size _ := 1
  text bytes := (decode ⟨bytes.toArray⟩).map String.toList
  startMark := [0xEF, 0xBB, 0xBF]

variable {σ : Type} [Symbol σ]

/-- Whether a symbol is a certain character. -/
def isMark (c : Char) (s : σ) : Bool :=
  Symbol.code s == c.toNat

/-- The size of some symbols in bytes. -/
def byteCount (file : List σ) : Nat :=
  file.foldl (fun count s => count + Symbol.size s) 0

/-- How many lines end within some symbols. -/
def newlineCount (file : List σ) : Nat :=
  file.countP (isMark '\n')

/-- How many ASCII blanks stand at the start. -/
def leadingBlanks (file : List σ) : Nat :=
  (file.takeWhile fun s =>
    isMark ' ' s || isMark '\t' s || isMark '\n' s || isMark '\x0C' s || isMark '\r' s).length

/-- The file without the mark at its start. -/
def withoutStartMark (file : List σ) : List σ :=
  let mark := Symbol.startMark σ
  if (file.take mark.length).map Symbol.code = mark then file.drop mark.length else file

@[simp] theorem isMark_char (c d : Char) : isMark c d = (d == c) := by
  rw [Bool.eq_iff_iff]
  simp only [isMark, Symbol.code, beq_iff_eq]
  exact ⟨fun h => Char.ext (UInt32.toNat_inj.mp h), fun h => h ▸ rfl⟩

end Barscript.Text
