import CilGraft.Cil.CodeError

/-!
# Layout

Instructions stand one behind the other. The layout of a list holds the offset of each instruction
and, as one more entry, the end of the code.

* `layout xs` — the offsets, when the end of the code fits 32 bits.
* `indexOfOffset offsets o` — the index of the entry `o`; of the end of the code it is the number of
  instructions.
-/

set_option autoImplicit false

namespace CilGraft

/-- The offsets of instructions laid out from `start`, and the end. -/
def offsetsFrom (start : Nat) : List Instruction → List Nat
  | [] => [start]
  | i :: rest => start :: offsetsFrom (start + i.size) rest

/-- The number of bytes of an instruction list. -/
def codeSize : List Instruction → Nat
  | [] => 0
  | i :: rest => i.size + codeSize rest

/-- The offsets of instructions laid out from `start`, each of 32 bits. -/
def layoutFrom (start : Nat) : List Instruction → Except CodeError (List Nat)
  | [] => .ok [start]
  | i :: rest =>
    if 0x100000000 ≤ i.size then .error (.malformed (.instructionTooLarge i))
    else if 0x100000000 ≤ start + i.size then .error (.malformed .codeTooLarge)
    else
      match layoutFrom (start + i.size) rest with
      | .ok offsets => .ok (start :: offsets)
      | .error e => .error e

/-- The offset of every instruction, and the end of the code. -/
def layout (xs : List Instruction) : Except CodeError (List Nat) := layoutFrom 0 xs

/-- The index of an entry of an ascending list of offsets. -/
def indexOfOffset (offsets : List Nat) (offset : Nat) : Except CodeError Nat :=
  let upTo := offsets.takeWhile (· ≤ offset)
  match upTo.getLast? with
  | some last =>
    if last = offset then .ok (upTo.length - 1) else .error (.malformed (.notBoundary offset))
  | none => .error (.malformed (.notBoundary offset))

@[simp] theorem length_offsetsFrom (start : Nat) (xs : List Instruction) :
    (offsetsFrom start xs).length = xs.length + 1 := by
  induction xs generalizing start with
  | nil => rfl
  | cons i rest ih => simp [offsetsFrom, ih]

end CilGraft
