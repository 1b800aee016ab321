import CilGraft.Cil.Compact
import CilGraft.Method.Handler

/-!
# Method bodies

A body is an instruction list with its exception handlers and the values of its header.

* `Body.ofCode xs` — the body that a tiny header describes.
* `Body.returns` — the indices of the returns.
* `Body.insertBefore at_ i` — `i` inserted in front of the instruction at `at_`; what went there
  still goes there, past `i`.
* `Body.insertOnEntry at_ i` — the same, but what went to the instruction at `at_` now goes to `i`.
* `Body.insertBeforeBy next`, `Body.insertOnEntryBy next` — both of them, with the index behind
  another one as a parameter.
-/

set_option autoImplicit false

namespace CilGraft

/-- The body of a method. -/
structure Body where
  maxStack : UInt16
  /-- the signature of the local variables; the null token when there are none -/
  locals : Token
  /-- local variables start out with their default values -/
  initLocals : Bool
  code : List Instruction
  handlers : List Handler
  deriving DecidableEq, Repr

namespace Body

/-- The stack depth that a tiny header stands for. -/
def tinyMaxStack : UInt16 := 8

/-- The body that a tiny header describes. -/
def ofCode (code : List Instruction) : Body := ⟨tinyMaxStack, ⟨0⟩, false, code, []⟩

/-- The body has no instruction. -/
def isEmpty (b : Body) : Bool := b.code.isEmpty

/-- The indices of the returns, from `index` on. -/
def returnsFrom (index : Nat) : List Instruction → List Nat
  | [] => []
  | i :: rest => if i.isReturn then index :: returnsFrom (index + 1) rest
    else returnsFrom (index + 1) rest

/-- The indices of the returns, in ascending order. -/
def returns (b : Body) : List Nat := returnsFrom 0 b.code

/-- Every instruction in its canonical form. -/
def expandAll (b : Body) : Body := { b with code := CilGraft.expandAll b.code }

/-- Every instruction in its most compact form, as far as that is possible. -/
def optimize (b : Body) : Body × Except CodeError Unit :=
  let (code, outcome) := CilGraft.optimize b.code
  ({ b with code }, outcome)

section Insertions

variable (next : Nat → Nat)

/-- One instruction inserted at `at_`; targets move by `move`. -/
def insert (move : Nat → Nat) (at_ : Nat) (i : Instruction) (b : Body) : Except CodeError Body :=
  if b.code.length < at_ then .error (.malformed (.insertOutside at_ b.code.length))
  else
    let moved := b.code.map (Instruction.mapTargets move)
    .ok { b with
      code := moved.take at_ ++ i :: moved.drop at_
      handlers := b.handlers.map (Handler.shiftBy next at_) }

/-- One instruction inserted at `at_`; targets stay with the instructions they named. -/
def insertBeforeBy (at_ : Nat) (i : Instruction) (b : Body) : Except CodeError Body :=
  b.insert next (shiftStart next at_) at_ i

/-- One instruction inserted at `at_`; targets that named the instruction there name the new one. -/
def insertOnEntryBy (at_ : Nat) (i : Instruction) (b : Body) : Except CodeError Body :=
  b.insert next (shiftEnd next at_) at_ i

end Insertions

/-- One instruction inserted at `at_`, with indices of machine words; targets stay with the
instructions they named. -/
def insertBefore (at_ : Nat) (i : Instruction) (b : Body) : Except CodeError Body :=
  b.insertBeforeBy nextIndex at_ i

/-- One instruction inserted at `at_`, with indices of machine words; targets that named the
instruction there name the new one. -/
def insertOnEntry (at_ : Nat) (i : Instruction) (b : Body) : Except CodeError Body :=
  b.insertOnEntryBy nextIndex at_ i

end Body

end CilGraft
