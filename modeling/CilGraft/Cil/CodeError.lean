import CilGraft.Cil.Instruction

/-!
# What can be wrong with a method body

* `Malformation` — the ways in which a body, as bytes or as an instruction list, is damaged.
* `CodeError` — a malformation, an access beyond the end of the bytes, an unknown opcode, or a
  branch too short for its distance.
* `Malformation.message`, `CodeError.message` — the wording.
-/

set_option autoImplicit false

namespace CilGraft

/-- The ways in which a body or a table is damaged. -/
inductive Malformation where
  /-- no instruction starts at the offset -/
  | notBoundary (offset : Nat)
  /-- a distance that leads out of the 32-bit offsets -/
  | targetOffsetOutside (index : Nat) (offset : Int)
  /-- a distance that leads behind the last instruction -/
  | targetIsEnd (index : Nat)
  /-- the offsets of a body need more than 32 bits -/
  | codeTooLarge
  /-- one instruction needs more than 32 bits -/
  | instructionTooLarge (instruction : Instruction)
  /-- the operand is not of the kind that the opcode asks for -/
  | operandMismatch (index : Nat) (instruction : Instruction)
  /-- a target behind the last instruction -/
  | targetOutside (index target count : Nat)
  /-- the byte string of a body is empty -/
  | noData
  /-- the first byte announces neither a tiny nor a fat header -/
  | unknownHeader (first : UInt8)
  /-- the end of a protected range needs more than 32 bits -/
  | rangeOverflow (start length : UInt32)
  /-- a protected range refers behind the end of the body -/
  | handlerOutside (index count : Nat)
  /-- a protected range ends before it starts -/
  | rangeReversed
  /-- the exception section needs more than 24 bits -/
  | tooManyHandlers (count : Nat)
  /-- an insertion behind the end of the body -/
  | insertOutside (index count : Nat)
  /-- a metadata table has no free row -/
  | tableFull (table : Table)
  deriving DecidableEq, Repr

/-- What can go wrong with a body. -/
inductive CodeError where
  | malformed (cause : Malformation)
  | outOfBounds
  | unknownOpcode (code : UInt16)
  | branchOutOfRange (index : Nat) (distance : Int)
  deriving DecidableEq, Repr

/-- A number in a message. -/
def numeral (n : Nat) : String := String.ofList (Text.decimal n)

/-- An integer in a message. -/
def signedNumeral (i : Int) : String := String.ofList (Text.signed i)

/-- The wording of a malformation. -/
def Malformation.message : Malformation → String
  | .notBoundary offset =>
    s!"Offset 0x{String.ofList (Text.hexUpper 0 offset)} is not an instruction boundary"
  | .targetOffsetOutside index offset =>
    s!"Branch at instruction {numeral index} targets offset {signedNumeral offset} outside of the body"
  | .targetIsEnd index => s!"Branch at instruction {numeral index} targets the end of the body"
  | .codeTooLarge => "Method body exceeds 4 GiB"
  | .instructionTooLarge i => s!"Instruction too large: {i.text}"
  | .operandMismatch index i =>
    s!"Operand does not match opcode at instruction {numeral index}: {i.text}"
  | .targetOutside index target count =>
    s!"Instruction {numeral index} targets #{numeral target} outside of a body with " ++
      s!"{numeral count} instructions"
  | .noData => "Provided data for body parsing is empty"
  | .unknownHeader first => s!"MethodHeader is neither FAT nor TINY - {numeral first.toNat}"
  | .rangeOverflow start length =>
    s!"Exception range overflows: {numeral start.toNat} + {numeral length.toNat}"
  | .handlerOutside index count =>
    s!"Exception handler index {numeral index} outside of a body with " ++
      s!"{numeral count} instructions"
  | .rangeReversed => "Exception range ends before it starts"
  | .tooManyHandlers count => s!"Too many exception handlers: {numeral count}"
  | .insertOutside index count =>
    s!"Cannot insert at {numeral index} into a body of {numeral count} instructions"
  | .tableFull table => s!"{table.name} table is full"

/-- The wording of an error. -/
def CodeError.message : CodeError → String
  | .malformed cause => s!"Malformed: {cause.message}"
  | .outOfBounds => "Out of Bound read would have occurred!"
  | .unknownOpcode code => s!"Unknown opcode: 0x{String.ofList (Text.hexUpper 4 code.toNat)}"
  | .branchOutOfRange index distance =>
    s!"Branch at instruction {numeral index} needs offset {signedNumeral distance}, " ++
      "which exceeds the short form"

end CilGraft
