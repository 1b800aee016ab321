import CilGraft.Bytes.Buffer
import CilGraft.Cil.Layout
import CilGraft.Steps

/-!
# From bytes to instructions

Decoding has two passes. The first reads opcodes and operands and notes the offset of every
instruction; the distances of branches become offsets. The second turns those offsets into the
indices of the instructions that start there.

* `RawInstruction` — an instruction whose targets are still offsets.
* `readInstruction` — one instruction from the front of the bytes; what is left is shorter
  (`length_lt_of_readInstruction`).
* `scan` — all instructions with their offsets and the end of the code.
* `decode code` — the instructions and their layout.
-/

set_option autoImplicit false

namespace CilGraft

/-- An operand whose targets are still offsets. -/
inductive RawOperand where
  | ready (o : Operand)
  | branch (goal : Int)
  | switch (goals : List Int)

/-- An instruction whose targets are still offsets. -/
structure RawInstruction where
  opcode : OpCode
  operand : RawOperand

/-- The word at the front of the bytes, or the error of an access beyond their end. -/
def readWord (α : Type) [Word α] (bytes : Bytes) : Except CodeError (α × Bytes) :=
  match readFirst? α bytes with
  | some r => .ok r
  | none => .error .outOfBounds

/-- The value of the opcode at the front of the bytes: one byte, or the escape byte and one more. -/
def readCode (bytes : Bytes) : Except CodeError (UInt16 × Bytes) := do
  let (first, rest) ← readWord UInt8 bytes
  if first = OpCode.escape then do
    let (second, rest) ← readWord UInt8 rest
    .ok (first.toUInt16 * 256 + second.toUInt16, rest)
  else .ok (first.toUInt16, rest)

/-- The opcode at the front of the bytes. -/
def readOpCode (bytes : Bytes) : Except CodeError (OpCode × Bytes) := do
  let (code, rest) ← readCode bytes
  match OpCode.ofCode? code with
  | some op => .ok (op, rest)
  | none => .error (.unknownOpcode code)

/-- The entries of a switch table of `count` entries, as offsets counted from `base`. -/
def readTable (base : Nat) : Nat → Bytes → Except CodeError (List Int × Bytes)
  | 0, bytes => .ok ([], bytes)
  | count + 1, bytes => do
    let (d, rest) ← readWord Int32 bytes
    let (goals, rest) ← readTable base count rest
    .ok ((base + d.toInt) :: goals, rest)

/-- An operand of one word at the front of the bytes. -/
def readSingle {α : Type} [Word α] (f : α → RawOperand) (bytes : Bytes) :
    Except CodeError (RawOperand × Bytes) := do
  let (v, rest) ← readWord α bytes
  .ok (f v, rest)

/-- A switch table at the front of the bytes, which stand at `start`. -/
def readSwitch (start : Nat) (bytes : Bytes) : Except CodeError (RawOperand × Bytes) := do
  let (count, rest) ← readWord UInt32 bytes
  if (rest.take (4 * count.toNat)).length < 4 * count.toNat then .error .outOfBounds
  else do
    let (goals, rest) ← readTable (start + 4 + 4 * count.toNat) count.toNat rest
    .ok (.switch goals, rest)

/-- The operand of the given kind at the front of the bytes, which stand at `start`. -/
def readOperand (start : Nat) (kind : OperandKind) (bytes : Bytes) :
    Except CodeError (RawOperand × Bytes) :=
  match kind with
  | .none => .ok (.ready .none, bytes)
  | .int8 => readSingle (fun v => .ready (.int8 v)) bytes
  | .uint8 => readSingle (fun v => .ready (.uint8 v)) bytes
  | .uint16 => readSingle (fun v => .ready (.uint16 v)) bytes
  | .int32 => readSingle (fun v => .ready (.int32 v)) bytes
  | .int64 => readSingle (fun v => .ready (.int64 v)) bytes
  | .float32 => readSingle (fun v => .ready (.float32 v)) bytes
  | .float64 => readSingle (fun v => .ready (.float64 v)) bytes
  | .token => readSingle (fun v => .ready (.token ⟨v⟩)) bytes
  | .shortBranch => readSingle (fun d : Int8 => .branch ((start + 1 : Nat) + d.toInt)) bytes
  | .branch => readSingle (fun d : Int32 => .branch ((start + 4 : Nat) + d.toInt)) bytes
  | .switch => readSwitch start bytes

/-- The instruction at the front of the bytes, which stand at `start`. -/
def readInstruction (start : Nat) (bytes : Bytes) : Except CodeError (RawInstruction × Bytes) := do
  let (op, rest) ← readOpCode bytes
  let (operand, rest) ← readOperand (start + op.size) op.operand rest
  .ok (⟨op, operand⟩, rest)

/-! ## What is left is shorter -/

theorem length_of_readWord {α : Type} [Word α] {bytes rest : Bytes} {v : α}
    (h : readWord α bytes = .ok (v, rest)) : bytes.length = Word.width α + rest.length := by
  unfold readWord at h
  split at h
  · rename_i r hr
    cases h
    exact length_of_readFirst? hr
  · cases h

theorem length_le_of_readTable {base count : Nat} {bytes rest : Bytes} {goals : List Int}
    (h : readTable base count bytes = .ok (goals, rest)) : rest.length ≤ bytes.length := by
  induction count generalizing bytes goals with
  | zero => cases h; exact Nat.le_refl _
  | succ count ih =>
    obtain ⟨⟨d, r⟩, hd, h⟩ := bind_eq_ok_iff.1 h
    obtain ⟨⟨ts, r'⟩, hts, h⟩ := bind_eq_ok_iff.1 h
    cases h
    exact Nat.le_trans (ih hts) (by have := length_of_readWord hd; omega)

theorem length_lt_of_readCode {bytes rest : Bytes} {code : UInt16}
    (h : readCode bytes = .ok (code, rest)) : rest.length < bytes.length := by
  have hw : Word.width UInt8 = 1 := rfl
  obtain ⟨⟨first, r⟩, hfirst, h⟩ := bind_eq_ok_iff.1 h
  have h1 := length_of_readWord hfirst
  simp only at h
  split at h
  · obtain ⟨⟨second, r'⟩, hsecond, h⟩ := bind_eq_ok_iff.1 h
    have h2 := length_of_readWord hsecond
    cases h
    show r'.length < bytes.length
    omega
  · cases h
    omega

theorem length_lt_of_readOpCode {bytes rest : Bytes} {op : OpCode}
    (h : readOpCode bytes = .ok (op, rest)) : rest.length < bytes.length := by
  obtain ⟨⟨code, r⟩, hcode, h⟩ := bind_eq_ok_iff.1 h
  simp only at h
  split at h
  · cases h
    exact length_lt_of_readCode hcode
  · cases h

theorem length_le_of_readSingle {α : Type} [Word α] {f : α → RawOperand} {bytes rest : Bytes}
    {o : RawOperand} (h : readSingle f bytes = .ok (o, rest)) : rest.length ≤ bytes.length := by
  obtain ⟨⟨v, r⟩, hv, h⟩ := bind_eq_ok_iff.1 h
  cases h
  have := length_of_readWord hv
  omega

theorem length_le_of_readSwitch {start : Nat} {bytes rest : Bytes} {o : RawOperand}
    (h : readSwitch start bytes = .ok (o, rest)) : rest.length ≤ bytes.length := by
  obtain ⟨⟨count, r⟩, hcount, h⟩ := bind_eq_ok_iff.1 h
  simp only at h
  split at h
  · cases h
  · obtain ⟨⟨goals, r'⟩, hgoals, h⟩ := bind_eq_ok_iff.1 h
    cases h
    exact Nat.le_trans (length_le_of_readTable hgoals) (by have := length_of_readWord hcount; omega)

theorem length_le_of_readOperand {start : Nat} {kind : OperandKind} {bytes rest : Bytes}
    {o : RawOperand} (h : readOperand start kind bytes = .ok (o, rest)) :
    rest.length ≤ bytes.length := by
  cases kind
  case none => cases h; exact Nat.le_refl _
  case switch => exact length_le_of_readSwitch h
  all_goals
    simp only [readOperand] at h
    exact length_le_of_readSingle h

theorem length_lt_of_readInstruction {start : Nat} {bytes rest : Bytes} {raw : RawInstruction}
    (h : readInstruction start bytes = .ok (raw, rest)) : rest.length < bytes.length := by
  obtain ⟨⟨op, r⟩, hop, h⟩ := bind_eq_ok_iff.1 h
  obtain ⟨⟨o, r'⟩, ho, h⟩ := bind_eq_ok_iff.1 h
  cases h
  exact Nat.lt_of_le_of_lt (length_le_of_readOperand ho) (length_lt_of_readOpCode hop)

/-! ## The two passes -/

/-- The number of bytes that a raw instruction takes. -/
def RawInstruction.size (i : RawInstruction) : Nat :=
  i.opcode.size +
    match i.opcode.operand.size?, i.operand with
    | some n, _ => n
    | none, .switch goals => 4 + 4 * goals.length
    | none, _ => 4

/-- The instructions of the bytes, which stand at `start`, with their offsets and the end. -/
def scan (start : Nat) (bytes : Bytes) : Except CodeError (List RawInstruction × List Nat) :=
  if 0x100000000 ≤ start then .error (.malformed .codeTooLarge)
  else
    match bytes with
    | [] => .ok ([], [start])
    | b :: bs =>
      match _h : readInstruction start (b :: bs) with
      | .error e => .error e
      | .ok (raw, rest) =>
        match scan (start + raw.size) rest with
        | .error e => .error e
        | .ok (raws, offsets) => .ok (raw :: raws, start :: offsets)
termination_by bytes.length
decreasing_by exact length_lt_of_readInstruction _h

/-- The index of the instruction at an offset, for instruction `index` of `count`. -/
def bindTarget (offsets : List Nat) (count index : Nat) (goal : Int) : Except CodeError Nat :=
  if goal < 0 ∨ 0x100000000 ≤ goal then .error (.malformed (.targetOffsetOutside index goal))
  else do
    let target ← indexOfOffset offsets goal.toNat
    if target < count then .ok target else .error (.malformed (.targetIsEnd index))

/-- The indices of the instructions at the offsets of a switch. -/
def bindTargets (offsets : List Nat) (count index : Nat) : List Int → Except CodeError (List Nat)
  | [] => .ok []
  | goal :: rest => do
    let target ← bindTarget offsets count index goal
    let targets ← bindTargets offsets count index rest
    .ok (target :: targets)

/-- The operand with its offsets turned into indices. -/
def bindOperand (offsets : List Nat) (count index : Nat) : RawOperand → Except CodeError Operand
  | .ready o => .ok o
  | .branch goal => do
    let target ← bindTarget offsets count index goal
    .ok (.target target)
  | .switch goals => do
    let targets ← bindTargets offsets count index goals
    .ok (.switch targets)

/-- The instructions from `index` on with their offsets turned into indices. -/
def bindFrom (offsets : List Nat) (count index : Nat) :
    List RawInstruction → Except CodeError (List Instruction)
  | [] => .ok []
  | raw :: rest => do
    let operand ← bindOperand offsets count index raw.operand
    let others ← bindFrom offsets count (index + 1) rest
    .ok (⟨raw.opcode, operand⟩ :: others)

/-- The instructions of a byte string, and their layout. -/
def decode (code : Bytes) : Except CodeError (List Instruction × List Nat) := do
  let (raws, offsets) ← scan 0 code
  let instructions ← bindFrom offsets raws.length 0 raws
  .ok (instructions, offsets)

end CilGraft
