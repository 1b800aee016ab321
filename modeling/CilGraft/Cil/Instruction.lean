import CilGraft.Bytes.Word
import CilGraft.Cil.OpCode
import CilGraft.Cil.Token

/-!
# Instructions

An instruction is an opcode with an operand. It does not know its byte offset: the operand of a
branch is the index of its target in the instruction list, so a list can be edited without
resolving targets again.

* `Operand` — no operand, a constant, a token, a target or the targets of a switch.
* `Instruction.size` — the number of bytes; `Instruction.isWellFormed` — the operand is of the
  kind that the opcode asks for.
* `Instruction.targets`, `Instruction.mapTargets` — the indices that an instruction refers to.
* `Instruction.text` — the instruction in assembler text, with `#` in front of an index.
-/

set_option autoImplicit false

namespace CilGraft

/-- The operand of an instruction. -/
inductive Operand where
  | none
  | int8 (v : Int8)
  | uint8 (v : UInt8)
  | uint16 (v : UInt16)
  | int32 (v : Int32)
  | int64 (v : Int64)
  | float32 (v : Binary32)
  | float64 (v : Binary64)
  | token (t : Token)
  | target (index : Nat)
  | switch (indices : List Nat)
  deriving DecidableEq, Repr, Inhabited

namespace Operand

/-- The integer value of an integer constant or an index of a variable. -/
def integer? : Operand → Option Int
  | .int8 v => some v.toInt
  | .uint8 v => some v.toNat
  | .uint16 v => some v.toNat
  | .int32 v => some v.toInt
  | .int64 v => some v.toInt
  | _ => Option.none

/-- The operand is of the given kind. -/
def isOf : Operand → OperandKind → Bool
  | .none, .none => true
  | .int8 _, .int8 => true
  | .uint8 _, .uint8 => true
  | .uint16 _, .uint16 => true
  | .int32 _, .int32 => true
  | .int64 _, .int64 => true
  | .float32 _, .float32 => true
  | .float64 _, .float64 => true
  | .token _, .token => true
  | .target _, .shortBranch => true
  | .target _, .branch => true
  | .switch _, .switch => true
  | _, _ => false

/-- The indices that the operand refers to. -/
def targets : Operand → List Nat
  | .target i => [i]
  | .switch is => is
  | _ => []

/-- The operand with every index replaced. -/
def mapTargets (f : Nat → Nat) : Operand → Operand
  | .target i => .target (f i)
  | .switch is => .switch (is.map f)
  | o => o

/-- An index in assembler text. -/
def indexText (i : Nat) : List Char := '#' :: Text.decimal i

/-- The operand in assembler text. -/
def text : Operand → List Char
  | .none => []
  | .int8 v => Text.signed v.toInt
  | .uint8 v => Text.decimal v.toNat
  | .uint16 v => Text.decimal v.toNat
  | .int32 v => Text.signed v.toInt
  | .int64 v => Text.signed v.toInt
  | .float32 v => v.text
  | .float64 v => v.text
  | .token t => t.text.toList
  | .target i => indexText i
  | .switch is => '(' :: [',', ' '].intercalate (is.map indexText) ++ [')']

@[simp] theorem targets_mapTargets (f : Nat → Nat) (o : Operand) :
    (o.mapTargets f).targets = o.targets.map f := by
  cases o <;> rfl

end Operand

/-- An opcode with an operand. -/
structure Instruction where
  opcode : OpCode
  operand : Operand
  deriving DecidableEq, Repr

namespace Instruction

/-- An instruction without an operand. -/
def plain (opcode : OpCode) : Instruction := ⟨opcode, .none⟩

/-- A call of the method with the given token. -/
def call (t : Token) : Instruction := ⟨.call, .token t⟩

/-- The instruction is a call of the method with the given token. -/
def isCallTo (t : Token) (i : Instruction) : Bool := i == call t

/-- The instruction is a return. -/
def isReturn (i : Instruction) : Bool := i.opcode == .ret

/-- The number of bytes of the operand: what the opcode asks for, and for a switch a count and four
bytes for each entry. -/
def operandSize (i : Instruction) : Nat :=
  match i.opcode.operand.size?, i.operand with
  | some n, _ => n
  | none, .switch is => 4 + 4 * is.length
  | none, _ => 4

/-- The number of bytes of the instruction. -/
def size (i : Instruction) : Nat := i.opcode.size + i.operandSize

/-- The operand is of the kind that the opcode asks for. -/
def isWellFormed (i : Instruction) : Bool := i.operand.isOf i.opcode.operand

/-- The indices that the instruction may transfer control to. -/
def targets (i : Instruction) : List Nat := i.operand.targets

/-- The instruction with every target replaced. -/
def mapTargets (f : Nat → Nat) (i : Instruction) : Instruction :=
  { i with operand := i.operand.mapTargets f }

/-- The instruction in assembler text. -/
def text (i : Instruction) : String :=
  match i.operand with
  | .none => i.opcode.mnemonic
  | o => i.opcode.mnemonic ++ " " ++ String.ofList o.text

@[simp] theorem targets_mapTargets (f : Nat → Nat) (i : Instruction) :
    (i.mapTargets f).targets = i.targets.map f := i.operand.targets_mapTargets f

theorem opcode_size_pos (op : OpCode) : 0 < op.size := by
  unfold OpCode.size
  split <;> omega

theorem size_pos (i : Instruction) : 0 < i.size :=
  Nat.lt_of_lt_of_le (opcode_size_pos i.opcode) (Nat.le_add_right _ _)

end Instruction

end CilGraft
