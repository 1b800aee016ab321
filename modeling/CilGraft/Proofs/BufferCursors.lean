import Mathlib.Algebra.Group.Nat.Defs
import CilGraft.Bytes.Buffer

/-!
# Cursors in a buffer

Reading and writing split a buffer in the same way: the bytes in front of the cursor, those of the
word, and those behind it. All that the two do is said by these three parts.

* `Cursor.Fits` — a word lies inside the buffer, and its end is an address.
* `Cursor.read_of_parts`, `Cursor.write_of_parts` — what is read from the middle part, and what is
  put there; `Cursor.exists_parts` — a word that fits has the three parts.
* `getElem?_leBytes` — the bytes of a word, the least significant one first.
* `Primitive` — the ten types that a buffer holds.
* `Cursor.read_write_inverse` — **reading and writing undo each other, at the same offsets, and leave
  all other bytes alone.**
-/

set_option autoImplicit false

namespace CilGraft

/-! ## The bytes of a word -/

theorem getElem?_leBytes {width k : Nat} (n : Nat) (h : k < width) :
    (leBytes width n)[k]? = some (UInt8.ofNat (n / 256 ^ k)) := by
  induction width generalizing n k with
  | zero => exact absurd h (Nat.not_lt_zero k)
  | succ width ih =>
    cases k with
    | zero => rw [leBytes, List.getElem?_cons_zero, Nat.pow_zero, Nat.div_one]
    | succ k =>
      rw [leBytes, List.getElem?_cons_succ, ih _ (Nat.lt_of_succ_lt_succ h), Nat.div_div_eq_div_mul,
        Nat.pow_succ, Nat.mul_comm]

/-! ## The parts of a buffer -/

section Parts

variable {α : Type} [Word α] {data front old back : Bytes} {offset : Nat} {v : α}

theorem fitsAt_eq_true_iff {width : Nat} : fitsAt width data offset = true ↔
    offset + width < 0x10000000000000000 ∧ offset + width ≤ data.length := by
  rw [fitsAt, Bool.and_eq_true, decide_eq_true_iff, decide_eq_true_iff]

/-- A part of a buffer that ends at an address lies inside of it. -/
theorem fitsAt_append {width : Nat} (hoffset : offset = front.length) (hold : old.length = width)
    (hroom : offset + width < 0x10000000000000000) :
    fitsAt width (front ++ (old ++ back)) offset = true := by
  rw [fitsAt_eq_true_iff, List.length_append, List.length_append]
  omega

theorem readAt_of_eq (hdata : data = front ++ (Word.toBytes v ++ back))
    (hoffset : offset = front.length) (hroom : offset + Word.width α < 0x10000000000000000) :
    readAt α data offset = some v := by
  have hlen : (Word.toBytes v).length = Word.width α := Word.length_toBytes v
  rw [readAt, hdata, if_pos (fitsAt_append hoffset hlen hroom), hoffset, List.drop_left,
    List.take_left' hlen, Word.ofBytes_toBytes]

theorem writeAt_of_eq (hdata : data = front ++ (old ++ back)) (hoffset : offset = front.length)
    (hold : old.length = Word.width α) (hroom : offset + Word.width α < 0x10000000000000000) :
    writeAt data offset v = some (front ++ (Word.toBytes v ++ back)) := by
  have hbehind : (front ++ (old ++ back)).drop (front.length + Word.width α) = back := by
    rw [← hold, ← List.append_assoc, ← List.length_append, List.drop_left]
  rw [writeAt, hdata, if_pos (fitsAt_append hoffset hold hroom), hoffset, List.take_left, hbehind,
    List.append_assoc]

end Parts

namespace Cursor

/-- A word of the given size lies at the cursor, and its end is an address. -/
def Fits (c : Cursor) (size : Nat) : Prop :=
  c.offset + size < 0x10000000000000000 ∧ c.offset + size ≤ c.data.length

section Parts

variable {α : Type} [Word α] {c : Cursor} {data front old back : Bytes} {offset : Nat} {v : α}

theorem exists_parts {size : Nat} (h : c.Fits size) :
    ∃ front old back, c.data = front ++ (old ++ back) ∧ c.offset = front.length ∧
      old.length = size := by
  obtain ⟨-, hroom⟩ := h
  refine ⟨c.data.take c.offset, (c.data.drop c.offset).take size,
    (c.data.drop c.offset).drop size, ?_, ?_, ?_⟩
  · rw [List.take_append_drop, List.take_append_drop]
  · rw [List.length_take]
    omega
  · rw [List.length_take, List.length_drop]
    omega

theorem read_of_parts (hdata : data = front ++ (Word.toBytes v ++ back))
    (hoffset : offset = front.length) (hroom : offset + Word.width α < 0x10000000000000000) :
    (Cursor.mk data offset).read α = (some v, ⟨data, offset + Word.width α⟩) := by
  rw [read, readAt_of_eq hdata hoffset hroom]

theorem write_of_parts (hdata : data = front ++ (old ++ back)) (hoffset : offset = front.length)
    (hold : old.length = Word.width α) (hroom : offset + Word.width α < 0x10000000000000000) :
    (Cursor.mk data offset).write v =
      (true, ⟨front ++ (Word.toBytes v ++ back), offset + Word.width α⟩) := by
  rw [write, writeAt_of_eq hdata hoffset hold hroom]

/-- A read that does not fit leaves the cursor where it is. -/
theorem read_of_not_fits (h : ¬ c.Fits (Word.width α)) : c.read α = (none, c) := by
  rw [read, readAt, if_neg (mt fitsAt_eq_true_iff.1 h)]

/-- A write that does not fit changes nothing. -/
theorem write_of_not_fits (h : ¬ c.Fits (Word.width α)) : c.write v = (false, c) := by
  rw [write, writeAt, if_neg (mt fitsAt_eq_true_iff.1 h)]

/-- A word that fits is read, is replaced by any other, and can be put back. -/
theorem exists_replaced (h : c.Fits (Word.width α)) (v : α) :
    ∃ w data, c.read α = (some w, ⟨c.data, c.offset + Word.width α⟩) ∧
      c.write v = (true, ⟨data, c.offset + Word.width α⟩) ∧
      (Cursor.mk data c.offset).read α = (some v, ⟨data, c.offset + Word.width α⟩) ∧
      (Cursor.mk data c.offset).write w = (true, ⟨c.data, c.offset + Word.width α⟩) ∧
      data.length = c.data.length ∧
      (∀ k < Word.width α,
        data[c.offset + k]? = some (UInt8.ofNat (Word.toNat v / 256 ^ k))) ∧
      ∀ i, i < c.offset ∨ c.offset + Word.width α ≤ i → data[i]? = c.data[i]? := by
  obtain ⟨front, old, back, hdata, hoffset, hold⟩ := exists_parts h
  have hword : Word.toBytes (Word.ofBytes α old) = old := Word.toBytes_ofBytes hold
  have hlen : (Word.toBytes v).length = Word.width α := Word.length_toBytes v
  have hread : c.read α = (some (Word.ofBytes α old), ⟨c.data, c.offset + Word.width α⟩) :=
    read_of_parts (by rw [hword, hdata]) hoffset h.1
  have hback : (Cursor.mk (front ++ (Word.toBytes v ++ back)) c.offset).write (Word.ofBytes α old) =
      (true, ⟨c.data, c.offset + Word.width α⟩) := by
    rw [write_of_parts (v := Word.ofBytes α old) rfl hoffset hlen h.1, hword, ← hdata]
  refine ⟨Word.ofBytes α old, _, hread, write_of_parts hdata hoffset hold h.1,
    read_of_parts rfl hoffset h.1, hback, ?_, fun k hk => ?_, fun i hi => ?_⟩
  · rw [hdata, List.length_append, List.length_append, List.length_append, List.length_append,
      hlen, hold]
  · rw [hoffset, List.getElem?_append_right (Nat.le_add_right _ _), Nat.add_sub_cancel_left,
      List.getElem?_append_left (by rw [hlen]; exact hk), Word.toBytes, getElem?_leBytes _ hk]
  · rw [hdata, ← List.append_assoc, ← List.append_assoc]
    rcases hi with hfront | hbehind
    · rw [List.append_assoc, List.append_assoc, List.getElem?_append_left (by omega),
        List.getElem?_append_left (by omega)]
    · have hnew : (front ++ Word.toBytes v).length = c.offset + Word.width α := by
        rw [List.length_append, hlen, hoffset]
      have hkept : (front ++ old).length = c.offset + Word.width α := by
        rw [List.length_append, hold, hoffset]
      rw [List.getElem?_append_right (by rw [hnew]; exact hbehind),
        List.getElem?_append_right (by rw [hkept]; exact hbehind), hnew, hkept]

/-- A word that was added at the end of a buffer is read there, as long as the new end of the buffer
is an address. -/
theorem read_append (data : Bytes) (v : α)
    (hroom : data.length + Word.width α < 0x10000000000000000) :
    (Cursor.mk (append data v) data.length).read α =
      (some v, ⟨append data v, data.length + Word.width α⟩) := by
  have hdata : append data v = data ++ (Word.toBytes v ++ []) := by rw [append, List.append_nil]
  exact read_of_parts hdata rfl hroom

end Parts

end Cursor

/-! ## The primitive types -/

/-- The types that a buffer holds. -/
inductive Primitive where
  | uint8
  | int8
  | uint16
  | int16
  | uint32
  | int32
  | uint64
  | int64
  | float32
  | float64
  deriving DecidableEq, Repr

namespace Primitive

/-- The values of the type. -/
def Value : Primitive → Type
  | .uint8 => UInt8
  | .int8 => Int8
  | .uint16 => UInt16
  | .int16 => Int16
  | .uint32 => UInt32
  | .int32 => Int32
  | .uint64 => UInt64
  | .int64 => Int64
  | .float32 => Binary32
  | .float64 => Binary64

/-- The number of bytes of a value. -/
def size : Primitive → Nat
  | .uint8 | .int8 => 1
  | .uint16 | .int16 => 2
  | .uint32 | .int32 | .float32 => 4
  | .uint64 | .int64 | .float64 => 8

instance word : (t : Primitive) → Word t.Value
  | .uint8 => inferInstanceAs (Word UInt8)
  | .int8 => inferInstanceAs (Word Int8)
  | .uint16 => inferInstanceAs (Word UInt16)
  | .int16 => inferInstanceAs (Word Int16)
  | .uint32 => inferInstanceAs (Word UInt32)
  | .int32 => inferInstanceAs (Word Int32)
  | .uint64 => inferInstanceAs (Word UInt64)
  | .int64 => inferInstanceAs (Word Int64)
  | .float32 => inferInstanceAs (Word Binary32)
  | .float64 => inferInstanceAs (Word Binary64)

theorem width_value (t : Primitive) : Word.width t.Value = t.size := by
  cases t <;> rfl

end Primitive

namespace Cursor

/-- **Reading and writing undo each other and touch nothing else**, for each of the ten types. Where a
word fits, it is read and it is written; both move the cursor by the size of the type. What is written
is read back, bit for bit, and writing what was read restores the buffer; the bytes of the word are
those of the value from the least significant one on, and all others stay. Where it does not fit,
because the buffer or the addresses end in front of its end, both fail and nothing changes. What is
added at the end of a buffer is read there. -/
theorem read_write_inverse (t : Primitive) (c : Cursor) (v : t.Value) :
    (c.Fits t.size → ∃ w data,
      c.read t.Value = (some w, ⟨c.data, c.offset + t.size⟩) ∧
      c.write v = (true, ⟨data, c.offset + t.size⟩) ∧
      (Cursor.mk data c.offset).read t.Value = (some v, ⟨data, c.offset + t.size⟩) ∧
      (Cursor.mk data c.offset).write w = (true, ⟨c.data, c.offset + t.size⟩) ∧
      data.length = c.data.length ∧
      (∀ k < t.size, data[c.offset + k]? = some (UInt8.ofNat (Word.toNat v / 256 ^ k))) ∧
      ∀ i, i < c.offset ∨ c.offset + t.size ≤ i → data[i]? = c.data[i]?) ∧
    (¬ c.Fits t.size → c.read t.Value = (none, c) ∧ c.write v = (false, c)) ∧
    (c.data.length + t.size < 0x10000000000000000 →
      (Cursor.mk (append c.data v) c.data.length).read t.Value =
        (some v, ⟨append c.data v, c.data.length + t.size⟩)) := by
  rw [← t.width_value]
  exact ⟨fun h => exists_replaced h v, fun h => ⟨read_of_not_fits h, write_of_not_fits h⟩,
    read_append c.data v⟩

/-- A signalling number that is none, in the middle of a buffer and as its new end. -/
theorem read_write_inverse_nan :
    let c : Cursor := ⟨[1, 2, 3, 4, 5, 6], 1⟩
    let v : Primitive.float32.Value := Binary32.mk 0x7FA00001
    c.Fits 4 ∧ c.write v = (true, ⟨[1, 0x01, 0x00, 0xA0, 0x7F, 6], 5⟩) ∧
      (Cursor.mk [1, 0x01, 0x00, 0xA0, 0x7F, 6] 1).read Primitive.float32.Value =
        (some v, ⟨[1, 0x01, 0x00, 0xA0, 0x7F, 6], 5⟩) ∧
      ¬ (Cursor.mk c.data 0xFFFFFFFFFFFFFFFE).Fits 4 := by
  intro c v
  have hfits : c.Fits 4 := by simp only [Fits, c]; decide
  obtain ⟨hinside, -⟩ := read_write_inverse .float32 c v
  obtain ⟨w, data, -, hwrite, hread, -⟩ := hinside hfits
  have hdata : c.write v = (true, ⟨[1, 0x01, 0x00, 0xA0, 0x7F, 6], 5⟩) := by
    simp only [c, v]
    decide +kernel
  obtain rfl : data = [1, 0x01, 0x00, 0xA0, 0x7F, 6] :=
    congrArg (·.2.data) (hwrite.symm.trans hdata)
  exact ⟨hfits, hdata, hread, by simp only [Fits, c]; decide⟩

end Cursor

end CilGraft
