import CilGraft.Cil.Instruction

/-!
# Canonical forms

Several families of instructions have compact forms: an argument or a variable by a small index, a
small constant, a branch over a small distance. The canonical form of each is the one whose
operand reaches every index, constant and distance.

* `fixedIndex?`, `longIndexed?` — the forms with the index in the opcode, and with one byte for it.
* `fixedConstant?` — the forms with the constant in the opcode.
* `Instruction.expand` — the canonical form of one instruction; `expandAll` of a list. Targets are
  indices and stay as they are.
-/

set_option autoImplicit false

namespace CilGraft

namespace OpCode

/-- The canonical opcode and the index of a form that has the index in its opcode. -/
def fixedIndex? : OpCode → Option (OpCode × UInt16)
  | .ldarg0 => some (.ldarg, 0)
  | .ldarg1 => some (.ldarg, 1)
  | .ldarg2 => some (.ldarg, 2)
  | .ldarg3 => some (.ldarg, 3)
  | .ldloc0 => some (.ldloc, 0)
  | .ldloc1 => some (.ldloc, 1)
  | .ldloc2 => some (.ldloc, 2)
  | .ldloc3 => some (.ldloc, 3)
  | .stloc0 => some (.stloc, 0)
  | .stloc1 => some (.stloc, 1)
  | .stloc2 => some (.stloc, 2)
  | .stloc3 => some (.stloc, 3)
  | _ => none

/-- The canonical opcode of a form with one byte for the index. -/
def longIndexed? : OpCode → Option OpCode
  | .ldargS => some .ldarg
  | .ldargaS => some .ldarga
  | .stargS => some .starg
  | .ldlocS => some .ldloc
  | .ldlocaS => some .ldloca
  | .stlocS => some .stloc
  | _ => none

/-- The constant of a form that has the constant in its opcode. -/
def fixedConstant? : OpCode → Option Int32
  | .ldcI4M1 => some (-1)
  | .ldcI40 => some 0
  | .ldcI41 => some 1
  | .ldcI42 => some 2
  | .ldcI43 => some 3
  | .ldcI44 => some 4
  | .ldcI45 => some 5
  | .ldcI46 => some 6
  | .ldcI47 => some 7
  | .ldcI48 => some 8
  | _ => none

end OpCode

namespace Instruction

/-- The long form of a short branch; any other instruction as it is. -/
def widen (i : Instruction) : Instruction :=
  match i.opcode.longBranch? with
  | some long => { i with opcode := long }
  | none => i

/-- The canonical form of an instruction with a compact index. -/
def expandIndex? (i : Instruction) : Option Instruction :=
  match i.opcode.fixedIndex? with
  | some (op, index) => some ⟨op, .uint16 index⟩
  | none =>
    match i.opcode.longIndexed?, i.operand with
    | some op, .uint8 index => some ⟨op, .uint16 index.toUInt16⟩
    | _, _ => none

/-- The canonical form of an instruction with a compact constant. -/
def expandConstant? (i : Instruction) : Option Instruction :=
  match i.opcode.fixedConstant? with
  | some v => some ⟨.ldcI4, .int32 v⟩
  | none =>
    match i.opcode, i.operand with
    | .ldcI4S, .int8 v => some ⟨.ldcI4, .int32 v.toInt32⟩
    | _, _ => none

/-- The canonical form of an instruction. -/
def expand (i : Instruction) : Instruction :=
  match i.opcode.longBranch? with
  | some long => { i with opcode := long }
  | none =>
    match i.expandIndex? with
    | some j => j
    | none => i.expandConstant?.getD i

end Instruction

/-- Every instruction in its canonical form. -/
def expandAll (xs : List Instruction) : List Instruction := xs.map Instruction.expand

@[simp] theorem length_expandAll (xs : List Instruction) : (expandAll xs).length = xs.length := by
  simp [expandAll]

end CilGraft
