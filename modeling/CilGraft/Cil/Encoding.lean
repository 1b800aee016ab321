import CilGraft.Bytes.Buffer
import CilGraft.Cil.Layout

/-!
# From instructions to bytes

An instruction is its opcode and its operand; a target is written as the distance from the end of
the instruction. No form is changed on the way: a short branch that cannot reach its target is an
error.

* `distance` — from the end of an instruction to the start of its target.
* `instructionBytes` — the bytes of one instruction at its place in a layout.
* `encode xs` — the bytes of a list, or the first error in the order of the instructions.
-/

set_option autoImplicit false

namespace CilGraft

/-- The distance from `next` to the start of the target, for instruction `index` of a list of
`count` instructions with the given layout. -/
def distance (offsets : List Nat) (count index target next : Nat) : Except CodeError Int :=
  if target < count then .ok ((offsets.getD target 0 : Nat) - (next : Nat) : Int)
  else .error (.malformed (.targetOutside index target count))

/-- The distance fits one signed byte. -/
def fitsShort (d : Int) : Bool := -128 ≤ d && d ≤ 127

/-- The distance fits four signed bytes. -/
def fitsLong (d : Int) : Bool := -0x80000000 ≤ d && d < 0x80000000

/-- A distance as one byte. -/
def shortDistance (index : Nat) (d : Int) : Except CodeError Bytes :=
  if fitsShort d then .ok (Word.toBytes (Int8.ofInt d)) else .error (.branchOutOfRange index d)

/-- A distance as four bytes. -/
def longDistance (index : Nat) (d : Int) : Except CodeError Bytes :=
  if fitsLong d then .ok (Word.toBytes (Int32.ofInt d)) else .error (.branchOutOfRange index d)

/-- The entries of a switch table. -/
def tableBytes (offsets : List Nat) (count index next : Nat) :
    List Nat → Except CodeError Bytes
  | [] => .ok []
  | t :: rest => do
    let d ← distance offsets count index t next
    let entry ← longDistance index d
    let entries ← tableBytes offsets count index next rest
    .ok (entry ++ entries)

/-- The bytes of the operand of instruction `index`, which ends at `next`. -/
def operandBytes (offsets : List Nat) (count index next : Nat) (i : Instruction) :
    Except CodeError Bytes :=
  match i.operand with
  | .none => .ok []
  | .int8 v => .ok (Word.toBytes v)
  | .uint8 v => .ok (Word.toBytes v)
  | .uint16 v => .ok (Word.toBytes v)
  | .int32 v => .ok (Word.toBytes v)
  | .int64 v => .ok (Word.toBytes v)
  | .float32 v => .ok (Word.toBytes v)
  | .float64 v => .ok (Word.toBytes v)
  | .token t => .ok (Word.toBytes t.value)
  | .target t => do
    let d ← distance offsets count index t next
    if i.opcode.operand = .shortBranch then shortDistance index d else longDistance index d
  | .switch ts => do
    let entries ← tableBytes offsets count index next ts
    .ok (Word.toBytes (UInt32.ofNat ts.length) ++ entries)

/-- The bytes of an opcode. -/
def OpCode.bytes (op : OpCode) : Bytes :=
  let low := UInt8.ofNat op.code.toNat
  if op.isEscaped then [OpCode.escape, low] else [low]

/-- The bytes of instruction `index`, which ends at `next`. -/
def instructionBytes (offsets : List Nat) (count index next : Nat) (i : Instruction) :
    Except CodeError Bytes :=
  if i.isWellFormed then do
    let operand ← operandBytes offsets count index next i
    .ok (i.opcode.bytes ++ operand)
  else .error (.malformed (.operandMismatch index i))

/-- The bytes of the instructions from `index` on, which start at `start`. -/
def encodeFrom (offsets : List Nat) (count index start : Nat) :
    List Instruction → Except CodeError Bytes
  | [] => .ok []
  | i :: rest => do
    let bytes ← instructionBytes offsets count index (start + i.size) i
    let others ← encodeFrom offsets count (index + 1) (start + i.size) rest
    .ok (bytes ++ others)

/-- The bytes of an instruction list. -/
def encode (xs : List Instruction) : Except CodeError Bytes := do
  let offsets ← layout xs
  encodeFrom offsets xs.length 0 0 xs

end CilGraft
