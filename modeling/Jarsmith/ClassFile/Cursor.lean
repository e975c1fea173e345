import Jarsmith.Bytes.Field
import Jarsmith.ClassFile.Error

/-!
# Reading bytes one field after another

A cursor is the bytes still to be read together with the number of bytes read before, which error
texts show. A decoder is a function from a cursor to a value and the cursor after it.
-/

namespace Jarsmith.ClassFile

/-- A place in a sequence of bytes. -/
structure Cursor where
  /-- The number of bytes before the place. -/
  offset : Nat
  /-- The bytes from the place on. -/
  rest : Bytes
  deriving DecidableEq, Repr

/-- The beginning of a sequence of bytes. -/
def Cursor.start (bytes : Bytes) : Cursor := ⟨0, bytes⟩

/-- A computation that reads bytes, or says what is wrong with them. -/
abbrev Decoder := StateT Cursor (Except Error)

namespace Decoder

/-- The next `n` bytes. Whether they are there is seen on what was taken, so that a read costs no
more than the bytes it reads. -/
def bytes (n : Nat) : Decoder Bytes := fun cursor =>
  let taken := cursor.rest.take n
  if taken.length = n then .ok (taken, ⟨cursor.offset + n, cursor.rest.drop n⟩)
  else .error (.truncated cursor.offset n cursor.rest.length)

/-- The next `width` bytes as a number. -/
def number (width : Nat) : Decoder Nat := return Bytes.big (← bytes width)

/-- `n` values, one after another. -/
def times {α : Type} (n : Nat) (decoder : Decoder α) : Decoder (List α) :=
  match n with
  | 0 => return []
  | n + 1 => do
    let x ← decoder
    return x :: (← times n decoder)

/-- A count of two bytes, and then as many values. -/
def counted {α : Type} (decoder : Decoder α) : Decoder (List α) := do
  times (← number 2) decoder

/-- Fails with an error. -/
def fail {α : Type} (e : Error) : Decoder α := fun _ => .error e

end Decoder

end Jarsmith.ClassFile
