import CilGraft.Bytes.Word

/-!
# Words in a buffer

* `readAt α data offset`, `writeAt data offset v` — a word read or written at an offset, `none`
  when it would reach beyond the end of the buffer.
* `readFirst? α data` — the word at the front and the bytes behind it; a reader of a stream goes on
  with the latter.
* `append data v` — the buffer with a word added at its end.
* `Cursor` — a buffer with an offset, which moves behind each word that is read or written.

An offset is an address of 64 bits, and the end of a word must be one as well.
-/

set_option autoImplicit false

namespace CilGraft

variable {α : Type}

/-- A word of the given width at the offset lies inside the buffer, and its end is an address. -/
def fitsAt (width : Nat) (data : Bytes) (offset : Nat) : Bool :=
  offset + width < 0x10000000000000000 && offset + width ≤ data.length

/-- The word at the offset. -/
def readAt (α : Type) [Word α] (data : Bytes) (offset : Nat) : Option α :=
  if fitsAt (Word.width α) data offset then
    some (Word.ofBytes α ((data.drop offset).take (Word.width α)))
  else none

/-- The buffer with the word at the offset replaced. -/
def writeAt [Word α] (data : Bytes) (offset : Nat) (v : α) : Option Bytes :=
  if fitsAt (Word.width α) data offset then
    some (data.take offset ++ Word.toBytes v ++ data.drop (offset + Word.width α))
  else none

/-- The buffer with a word added at its end. -/
def append [Word α] (data : Bytes) (v : α) : Bytes := data ++ Word.toBytes v

/-- The word at the front of the bytes, and the bytes behind it. -/
def readFirst? (α : Type) [Word α] (data : Bytes) : Option (α × Bytes) :=
  let front := data.take (Word.width α)
  if front.length = Word.width α then some (Word.ofBytes α front, data.drop (Word.width α))
  else none

/-- A buffer and the offset at which it is read or written next. -/
structure Cursor where
  data : Bytes
  offset : Nat
  deriving DecidableEq, Repr

/-- The word at the cursor, which moves behind it; it stays where it is when there is none. -/
def Cursor.read (α : Type) [Word α] (c : Cursor) : Option α × Cursor :=
  match readAt α c.data c.offset with
  | some v => (some v, { c with offset := c.offset + Word.width α })
  | none => (none, c)

/-- The word at the cursor replaced, and the cursor moved behind it. False when the word would reach
beyond the end of the buffer; then nothing changes. -/
def Cursor.write [Word α] (v : α) (c : Cursor) : Bool × Cursor :=
  match writeAt c.data c.offset v with
  | some data => (true, ⟨data, c.offset + Word.width α⟩)
  | none => (false, c)

theorem readFirst?_toBytes_append [Word α] (v : α) (rest : Bytes) :
    readFirst? α (Word.toBytes v ++ rest) = some (v, rest) := by
  have hlen : (Word.toBytes v).length = Word.width α := Word.length_toBytes v
  have htake : (Word.toBytes v ++ rest).take (Word.width α) = Word.toBytes v := by
    rw [← hlen, List.take_left]
  have hdrop : (Word.toBytes v ++ rest).drop (Word.width α) = rest := by
    rw [← hlen, List.drop_left]
  simp [readFirst?, htake, hdrop]

theorem eq_toBytes_append_of_readFirst? [Word α] {data rest : Bytes} {v : α}
    (h : readFirst? α data = some (v, rest)) : data = Word.toBytes v ++ rest := by
  simp only [readFirst?] at h
  split at h
  · rename_i hlen
    cases h
    rw [Word.toBytes_ofBytes hlen, List.take_append_drop]
  · cases h

theorem length_of_readFirst? [Word α] {data rest : Bytes} {v : α}
    (h : readFirst? α data = some (v, rest)) : data.length = Word.width α + rest.length := by
  rw [eq_toBytes_append_of_readFirst? h, List.length_append, Word.length_toBytes]

end CilGraft
