import CilGraft.Decimal.Binary

/-!
# Little-endian words

A byte string is a list of bytes. Every fixed-width value is read and written through the natural
number that its bits spell.

* `leBytes width n`, `leValue bytes` — a natural number as `width` bytes, least significant first,
  and back: `leValue_leBytes`, `leBytes_leValue`.
* `Word α` — a type whose values are the bit patterns of a fixed number of bytes, with instances
  for the signed and unsigned integers of 8, 16, 32 and 64 bits and the two floating-point formats.
* `Word.toBytes`, `Word.ofBytes` — the little-endian form of a word, with both round trips.
-/

set_option autoImplicit false

namespace CilGraft

/-- A byte string. -/
abbrev Bytes := List UInt8

/-! ## Natural numbers -/

/-- The `width` little-endian bytes of `n`; what does not fit is dropped. -/
def leBytes : Nat → Nat → Bytes
  | 0, _ => []
  | width + 1, n => UInt8.ofNat n :: leBytes width (n / 256)

/-- The natural number that the bytes spell, least significant first. -/
def leValue : Bytes → Nat
  | [] => 0
  | b :: bytes => b.toNat + 256 * leValue bytes

@[simp] theorem length_leBytes (width n : Nat) : (leBytes width n).length = width := by
  induction width generalizing n with
  | zero => rfl
  | succ width ih => simp [leBytes, ih]

theorem leValue_leBytes (width n : Nat) : leValue (leBytes width n) = n % Nat.pow 256 width := by
  induction width generalizing n with
  | zero => simp [leBytes, leValue, Nat.mod_one]
  | succ width ih =>
    have hb : (UInt8.ofNat n).toNat = n % 256 := UInt8.toNat_ofNat'
    rw [leBytes, leValue, ih, hb]
    show _ = n % (Nat.pow 256 width * 256)
    rw [Nat.mul_comm (Nat.pow 256 width), Nat.mod_mul]

theorem leValue_lt (bytes : Bytes) : leValue bytes < Nat.pow 256 bytes.length := by
  induction bytes with
  | nil => simp [leValue]
  | cons b bytes ih =>
    have hb : b.toNat < 256 := b.toNat_lt
    rw [leValue, List.length_cons]
    show _ < Nat.pow 256 bytes.length * 256
    omega

theorem leBytes_leValue (bytes : Bytes) : leBytes bytes.length (leValue bytes) = bytes := by
  induction bytes with
  | nil => rfl
  | cons b bytes ih =>
    have hb : b.toNat < 256 := b.toNat_lt
    rw [List.length_cons, leBytes, leValue]
    have hdiv : (b.toNat + 256 * leValue bytes) / 256 = leValue bytes := by omega
    have hhead : UInt8.ofNat (b.toNat + 256 * leValue bytes) = b := by
      apply UInt8.toNat_inj.mp
      rw [UInt8.toNat_ofNat']
      omega
    rw [hdiv, hhead, ih]

/-! ## Words -/

/-- A type whose values are the bit patterns of `width` bytes. -/
class Word (α : Type) where
  /-- The number of bytes of a value. -/
  width : Nat
  /-- The natural number that the bits of a value spell. -/
  toNat : α → Nat
  /-- The value with the given bits; bits above the width are dropped. -/
  ofNat : Nat → α
  toNat_lt : ∀ v, toNat v < Nat.pow 256 width
  ofNat_toNat : ∀ v, ofNat (toNat v) = v
  toNat_ofNat : ∀ n, toNat (ofNat n) = n % Nat.pow 256 width

namespace Word

variable {α : Type} [Word α]

/-- The little-endian form of a word. -/
def toBytes (v : α) : Bytes := leBytes (width α) (toNat v)

/-- The word with the given little-endian form. -/
def ofBytes (α : Type) [Word α] (bytes : Bytes) : α := ofNat (leValue bytes)

@[simp] theorem length_toBytes (v : α) : (toBytes v).length = width α := length_leBytes _ _

@[simp] theorem ofBytes_toBytes (v : α) : ofBytes α (toBytes v) = v := by
  rw [ofBytes, toBytes, leValue_leBytes, Nat.mod_eq_of_lt (toNat_lt v), ofNat_toNat]

theorem toBytes_ofBytes {bytes : Bytes} (h : bytes.length = width α) :
    toBytes (ofBytes α bytes) = bytes := by
  have hlt := leValue_lt bytes
  rw [h] at hlt
  rw [toBytes, ofBytes, toNat_ofNat, Nat.mod_eq_of_lt hlt, ← h, leBytes_leValue]

end Word

instance : Word UInt8 where
  width := 1
  toNat := UInt8.toNat
  ofNat := UInt8.ofNat
  toNat_lt v := v.toNat_lt
  ofNat_toNat _ := UInt8.ofNat_toNat
  toNat_ofNat _ := UInt8.toNat_ofNat'

instance : Word UInt16 where
  width := 2
  toNat := UInt16.toNat
  ofNat := UInt16.ofNat
  toNat_lt v := v.toNat_lt
  ofNat_toNat _ := UInt16.ofNat_toNat
  toNat_ofNat _ := UInt16.toNat_ofNat'

instance : Word UInt32 where
  width := 4
  toNat := UInt32.toNat
  ofNat := UInt32.ofNat
  toNat_lt v := v.toNat_lt
  ofNat_toNat _ := UInt32.ofNat_toNat
  toNat_ofNat _ := UInt32.toNat_ofNat'

instance : Word UInt64 where
  width := 8
  toNat := UInt64.toNat
  ofNat := UInt64.ofNat
  toNat_lt v := v.toNat_lt
  ofNat_toNat _ := UInt64.ofNat_toNat
  toNat_ofNat _ := UInt64.toNat_ofNat'

instance : Word Int8 where
  width := 1
  toNat v := v.toUInt8.toNat
  ofNat n := (UInt8.ofNat n).toInt8
  toNat_lt v := v.toUInt8.toNat_lt
  ofNat_toNat _ := by simp
  toNat_ofNat _ := by simp

instance : Word Int16 where
  width := 2
  toNat v := v.toUInt16.toNat
  ofNat n := (UInt16.ofNat n).toInt16
  toNat_lt v := v.toUInt16.toNat_lt
  ofNat_toNat _ := by simp
  toNat_ofNat _ := by simp

instance : Word Int32 where
  width := 4
  toNat v := v.toUInt32.toNat
  ofNat n := (UInt32.ofNat n).toInt32
  toNat_lt v := v.toUInt32.toNat_lt
  ofNat_toNat _ := by simp
  toNat_ofNat _ := by simp

instance : Word Int64 where
  width := 8
  toNat v := v.toUInt64.toNat
  ofNat n := (UInt64.ofNat n).toInt64
  toNat_lt v := v.toUInt64.toNat_lt
  ofNat_toNat _ := by simp
  toNat_ofNat _ := by simp

instance : Word Binary32 where
  width := 4
  toNat v := v.bits.toNat
  ofNat n := ⟨UInt32.ofNat n⟩
  toNat_lt v := v.bits.toNat_lt
  ofNat_toNat _ := by simp
  toNat_ofNat _ := UInt32.toNat_ofNat'

instance : Word Binary64 where
  width := 8
  toNat v := v.bits.toNat
  ofNat n := ⟨UInt64.ofNat n⟩
  toNat_lt v := v.bits.toNat_lt
  ofNat_toNat _ := by simp
  toNat_ofNat _ := UInt64.toNat_ofNat'

end CilGraft
