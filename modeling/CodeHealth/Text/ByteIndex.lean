import CodeHealth.Text.Basic

/-!
# Byte positions and offsets

The UTF-8 form of a text gives each character one to four bytes. A byte index turns a position in
the bytes into the offset of the character it belongs to; the position behind the last byte is the
end of the text.
-/

namespace CodeHealth.Text

/-- The offset of the character of each byte, and the length of the text at the end; `i` is the
offset of the first character. -/
def byteOffsets (i : Nat) : Text → List Nat
  | [] => [i]
  | c :: rest => List.replicate c.utf8Size i ++ byteOffsets (i + 1) rest

/-- Byte positions and offsets agree where every character has one byte. -/
inductive ByteIndex
  | same
  | table (offsets : Array Nat)

namespace ByteIndex

def ofText (t : Text) : ByteIndex :=
  if t.all fun c => c.utf8Size == 1 then .same else .table (byteOffsets 0 t).toArray

/-- The offset of the character that the byte at `b` belongs to. A table has none for positions
behind the end. -/
def offset? (ix : ByteIndex) (b : Nat) : Option Nat :=
  match ix with
  | .same => some b
  | .table offsets => offsets[b]?

def offset (ix : ByteIndex) (b : Nat) : Nat :=
  (ix.offset? b).getD 0

end ByteIndex

end CodeHealth.Text
