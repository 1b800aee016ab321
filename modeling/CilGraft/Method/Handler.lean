import CilGraft.Cil.Token

/-!
# Exception handlers

A handler protects a range of instructions and names the range that handles an exception raised
there. Ranges are half open and hold indices; an end may be the number of instructions.

* `HandlerFlags` — the bits that say when a handler runs; `HandlerFlags.known` leaves out those that
  say nothing.
* `nextIndex` — the index behind another one. Indices are machine words, and the first one is behind
  the largest one.
* `Handler.shiftForInsert at_` — the handler after one instruction was inserted. A start moves with
  the code at the place of insertion, an end moves only when it lies behind it, so that a range
  which ends there does not grow.
* `Handler.shiftBy next at_` — the same, with the index behind another one as a parameter.
-/

set_option autoImplicit false

namespace CilGraft

/-- When a handler runs: a filter decides, always, or after an exception. None of these three bits is
set for a handler of the exceptions of one type. A value can have other bits as well, which mean
nothing. -/
structure HandlerFlags where
  bits : UInt16
  deriving DecidableEq, Repr

namespace HandlerFlags

/-- A filter decides whether the handler runs. -/
def filter (f : HandlerFlags) : Bool := f.bits.toNat.testBit 0

/-- The handler runs in any case. -/
def always (f : HandlerFlags) : Bool := f.bits.toNat.testBit 1

/-- The handler runs after an exception. -/
def fault (f : HandlerFlags) : Bool := f.bits.toNat.testBit 2

/-- The handler catches the exceptions of one type. -/
def isTyped (f : HandlerFlags) : Bool := !(f.filter || f.always || f.fault)

/-- The number of values of the bits that mean something, which are the lowest ones. -/
def range : Nat := 8

/-- The flags in the low bits of a number; the others are left out. -/
def ofNat (n : Nat) : HandlerFlags := ⟨UInt16.ofNat (n % range)⟩

/-- The number with all bits of the flags. -/
def toNat (f : HandlerFlags) : Nat := f.bits.toNat

/-- The flags without the bits that mean nothing. -/
def known (f : HandlerFlags) : HandlerFlags := ofNat f.toNat

theorem toNat_ofNat (n : Nat) : (ofNat n).toNat = n % range := by
  have hlt : n % range < 8 := Nat.mod_lt n (by decide)
  exact UInt16.toNat_ofNat_of_lt' (show n % range < 2 ^ 16 by omega)

theorem testBit_known (f : HandlerFlags) {i : Nat} (h : i < 3) :
    f.known.toNat.testBit i = f.toNat.testBit i := by
  rw [known, toNat_ofNat]
  show (f.toNat % 2 ^ 3).testBit i = _
  rw [Nat.testBit_mod_two_pow, decide_eq_true h, Bool.true_and]

theorem filter_known (f : HandlerFlags) : f.known.filter = f.filter := f.testBit_known (by decide)

theorem isTyped_known (f : HandlerFlags) : f.known.isTyped = f.isTyped := by
  have halways : f.known.always = f.always := f.testBit_known (by decide)
  have hfault : f.known.fault = f.fault := f.testBit_known (by decide)
  rw [isTyped, filter_known, halways, hfault, isTyped]

/-- Flags that have been taken from a number have no other bits. -/
theorem known_ofNat (n : Nat) : (ofNat n).known = ofNat n := by
  rw [known, toNat_ofNat, ofNat, ofNat, Nat.mod_mod]

end HandlerFlags

/-- A protected range and the range that handles its exceptions. -/
structure Handler where
  flags : HandlerFlags
  tryStart : Nat
  tryEnd : Nat
  handlerStart : Nat
  handlerEnd : Nat
  /-- the first instruction of the filter -/
  filterStart : Option Nat
  /-- the type whose exceptions are caught -/
  classToken : Option Token
  deriving DecidableEq, Repr

/-! ## Insertions -/

/-- The largest index, a machine word. -/
def lastIndex : Nat := 0xFFFFFFFFFFFFFFFF

/-- The index behind an index; the first one is behind the largest one. -/
def nextIndex (i : Nat) : Nat := (i + 1) % 0x10000000000000000

theorem nextIndex_of_lt {i : Nat} (h : i < lastIndex) : nextIndex i = i + 1 := by
  unfold lastIndex at h
  exact Nat.mod_eq_of_lt (by omega)

section Shifts

variable (next : Nat → Nat) (at_ : Nat)

/-- The place of an instruction, or of the start of a range, after an insertion at `at_`. -/
def shiftStart (i : Nat) : Nat := if at_ ≤ i then next i else i

/-- The place of the end of a range after an insertion at `at_`. -/
def shiftEnd (i : Nat) : Nat := if at_ < i then next i else i

/-- The handler after one instruction was inserted at `at_`. -/
def Handler.shiftBy (h : Handler) : Handler :=
  { h with
    tryStart := shiftStart next at_ h.tryStart
    tryEnd := shiftEnd next at_ h.tryEnd
    handlerStart := shiftStart next at_ h.handlerStart
    handlerEnd := shiftEnd next at_ h.handlerEnd
    filterStart := h.filterStart.map (shiftStart next at_) }

end Shifts

/-- The handler after one instruction was inserted at `at_`, with indices of machine words. -/
def Handler.shiftForInsert (at_ : Nat) (h : Handler) : Handler := h.shiftBy nextIndex at_

end CilGraft
