/-!
# Bytes that are no text

Files arrive as bytes and their text is read as UTF-8.  When the bytes are no UTF-8, complaints say
how far they are: `validUpTo` counts the bytes in front of the first one that belongs to no
character.
-/

namespace Barscript.Text

/-- The end of the characters that stand from an index on without a gap. -/
def validUpTo (bytes : ByteArray) (index : Nat) : Nat :=
  match _h : bytes.utf8DecodeChar? index with
  | some c => validUpTo bytes (index + c.utf8Size)
  | none => index
termination_by bytes.size - index
decreasing_by
  have inside := ByteArray.le_size_of_utf8DecodeChar?_eq_some _h
  have positive := c.utf8Size_pos
  omega

/-- The text of some bytes, or how many of them are text. -/
def decode (bytes : ByteArray) : Except Nat String :=
  match String.fromUTF8? bytes with
  | some text => .ok text
  | none => .error (validUpTo bytes 0)

end Barscript.Text
