import CilGraft.Cil.Decoding
import CilGraft.Cil.Encoding
import CilGraft.Proofs.Offsets

/-!
# Encoded code reads back

The writer works from the layout of a list, the reader from the bytes alone.  What joins them is
the raw form of an instruction in a layout: its targets as the offsets they stand for.

* `Instruction.raw` — an instruction as the first pass leaves it.
* `readInstruction_append` — the bytes of one instruction read back as its raw form, whatever
  follows them.
* `scan_of_encodeFrom` — the first pass finds every instruction where the layout has it.
* `bindFrom_raw` — the second pass turns the offsets into the indices they came from.
* `decode_encode` — **decoding undoes encoding**, layout included.
-/

set_option autoImplicit false

namespace CilGraft

/-! ## Words and opcodes -/

theorem readWord_append {α : Type} [Word α] (v : α) (rest : Bytes) :
    readWord α (Word.toBytes v ++ rest) = .ok (v, rest) := by
  rw [readWord, readFirst?_toBytes_append]

theorem readSingle_append {α : Type} [Word α] (f : α → RawOperand) (v : α) (rest : Bytes) :
    readSingle f (Word.toBytes v ++ rest) = .ok (f v, rest) := by
  rw [readSingle, readWord_append]
  rfl

theorem OpCode.code_of_isEscaped {op : OpCode} (h : op.isEscaped = true) :
    OpCode.escape.toUInt16 * 256 + (UInt8.ofNat op.code.toNat).toUInt16 = op.code := by
  have hall : ∀ op ∈ OpCode.all, op.isEscaped = true →
      OpCode.escape.toUInt16 * 256 + (UInt8.ofNat op.code.toNat).toUInt16 = op.code := by
    decide +kernel
  exact hall op (OpCode.mem_all op) h

/-- The byte of a one-byte opcode is its code, and is not the escape byte. -/
theorem OpCode.code_of_not_isEscaped {op : OpCode} (h : op.isEscaped = false) :
    (UInt8.ofNat op.code.toNat).toUInt16 = op.code ∧ UInt8.ofNat op.code.toNat ≠ OpCode.escape := by
  have hall : ∀ op ∈ OpCode.all, op.isEscaped = false →
      (UInt8.ofNat op.code.toNat).toUInt16 = op.code ∧
        UInt8.ofNat op.code.toNat ≠ OpCode.escape := by
    decide +kernel
  exact hall op (OpCode.mem_all op) h

theorem OpCode.length_bytes (op : OpCode) : op.bytes.length = op.size := by
  unfold OpCode.bytes OpCode.size
  split <;> rfl

theorem readWord_cons (b : UInt8) (rest : Bytes) : readWord UInt8 (b :: rest) = .ok (b, rest) := by
  have hb : Word.toBytes b = [b] := by
    show leBytes 1 b.toNat = [b]
    simp [leBytes]
  have h := readWord_append b rest
  rwa [hb] at h

theorem readCode_append (op : OpCode) (rest : Bytes) :
    readCode (op.bytes ++ rest) = .ok (op.code, rest) := by
  unfold OpCode.bytes readCode
  split
  · rename_i hesc
    simp only [List.cons_append, List.nil_append, readWord_cons, bind, Except.bind, if_true,
      OpCode.code_of_isEscaped hesc]
  · rename_i hesc
    obtain ⟨hcode, hne⟩ := OpCode.code_of_not_isEscaped (by simpa using hesc)
    simp only [List.cons_append, List.nil_append, readWord_cons, bind, Except.bind, if_neg hne,
      hcode]

theorem readOpCode_append (op : OpCode) (rest : Bytes) :
    readOpCode (op.bytes ++ rest) = .ok (op, rest) := by
  simp only [readOpCode, readCode_append, bind, Except.bind, OpCode.ofCode?_code]

/-! ## Distances -/

theorem toInt_ofInt_of_fitsShort {d : Int} (h : fitsShort d = true) : (Int8.ofInt d).toInt = d := by
  simp only [fitsShort, Bool.and_eq_true, decide_eq_true_eq] at h
  exact Int8.toInt_ofInt_of_le (by omega) (by omega)

theorem toInt_ofInt_of_fitsLong {d : Int} (h : fitsLong d = true) : (Int32.ofInt d).toInt = d := by
  simp only [fitsLong, Bool.and_eq_true, decide_eq_true_eq] at h
  exact Int32.toInt_ofInt_of_le (by omega) (by omega)

theorem distance_eq_ok_iff {offsets : List Nat} {count index target next : Nat} {d : Int} :
    distance offsets count index target next = .ok d ↔
      target < count ∧ d = ((offsets.getD target 0 : Nat) : Int) - next := by
  unfold distance
  split
  · rename_i h
    simp [h, eq_comm]
  · rename_i h
    simp [h]

theorem shortDistance_eq_ok_iff {index : Nat} {d : Int} {bytes : Bytes} :
    shortDistance index d = .ok bytes ↔
      fitsShort d = true ∧ bytes = Word.toBytes (Int8.ofInt d) := by
  unfold shortDistance
  split
  · rename_i hd
    exact ⟨fun h => by cases h; exact ⟨hd, rfl⟩, fun h => by rw [h.2]⟩
  · rename_i hd
    exact ⟨nofun, fun h => absurd h.1 hd⟩

theorem longDistance_eq_ok_iff {index : Nat} {d : Int} {bytes : Bytes} :
    longDistance index d = .ok bytes ↔
      fitsLong d = true ∧ bytes = Word.toBytes (Int32.ofInt d) := by
  unfold longDistance
  split
  · rename_i hd
    exact ⟨fun h => by cases h; exact ⟨hd, rfl⟩, fun h => by rw [h.2]⟩
  · rename_i hd
    exact ⟨nofun, fun h => absurd h.1 hd⟩

/-! ## Operands -/

/-- The operand with its targets turned into the offsets of a layout. -/
def Operand.raw (offsets : List Nat) : Operand → RawOperand
  | .target t => .branch (offsets.getD t 0 : Nat)
  | .switch ts => .switch (ts.map fun t => ((offsets.getD t 0 : Nat) : Int))
  | o => .ready o

/-- The instruction with its targets turned into the offsets of a layout. -/
def Instruction.raw (offsets : List Nat) (i : Instruction) : RawInstruction :=
  ⟨i.opcode, i.operand.raw offsets⟩

theorem readTable_append {offsets : List Nat} {count index next : Nat} {ts : List Nat}
    {bytes : Bytes} (rest : Bytes) (h : tableBytes offsets count index next ts = .ok bytes) :
    readTable next ts.length (bytes ++ rest) =
      .ok (ts.map (fun t => ((offsets.getD t 0 : Nat) : Int)), rest) := by
  induction ts generalizing bytes with
  | nil => cases h; rfl
  | cons t ts ih =>
    obtain ⟨d, hd, h⟩ := bind_eq_ok_iff.1 h
    obtain ⟨entry, hentry, h⟩ := bind_eq_ok_iff.1 h
    obtain ⟨entries, hentries, h⟩ := bind_eq_ok_iff.1 h
    cases h
    obtain ⟨hfits, rfl⟩ := longDistance_eq_ok_iff.1 hentry
    have hgoal : (next : Int) + (Int32.ofInt d).toInt = ((offsets.getD t 0 : Nat) : Int) := by
      rw [toInt_ofInt_of_fitsLong hfits, (distance_eq_ok_iff.1 hd).2]
      omega
    simp only [List.length_cons, readTable, List.append_assoc, readWord_append, ih hentries, bind,
      Except.bind, hgoal, List.map_cons]

theorem length_of_tableBytes {offsets : List Nat} {count index next : Nat} {ts : List Nat}
    {bytes : Bytes} (h : tableBytes offsets count index next ts = .ok bytes) :
    bytes.length = 4 * ts.length := by
  induction ts generalizing bytes with
  | nil => cases h; rfl
  | cons t ts ih =>
    obtain ⟨d, hd, h⟩ := bind_eq_ok_iff.1 h
    obtain ⟨entry, hentry, h⟩ := bind_eq_ok_iff.1 h
    obtain ⟨entries, hentries, h⟩ := bind_eq_ok_iff.1 h
    cases h
    obtain ⟨-, rfl⟩ := longDistance_eq_ok_iff.1 hentry
    have hwidth : (Word.toBytes (Int32.ofInt d)).length = 4 := Word.length_toBytes _
    rw [List.length_append, hwidth, ih hentries, List.length_cons]
    omega

theorem lt_of_tableBytes {offsets : List Nat} {count index next : Nat} {ts : List Nat}
    {bytes : Bytes} (h : tableBytes offsets count index next ts = .ok bytes) :
    ∀ t ∈ ts, t < count := by
  induction ts generalizing bytes with
  | nil => simp
  | cons t ts ih =>
    obtain ⟨d, hd, h⟩ := bind_eq_ok_iff.1 h
    obtain ⟨entry, -, h⟩ := bind_eq_ok_iff.1 h
    obtain ⟨entries, hentries, -⟩ := bind_eq_ok_iff.1 h
    exact List.forall_mem_cons.2 ⟨(distance_eq_ok_iff.1 hd).1, ih hentries⟩

theorem readSwitch_append {offsets : List Nat} {count index start : Nat} {ts : List Nat}
    {entries : Bytes} (rest : Bytes) (hlen : ts.length < 0x100000000)
    (h : tableBytes offsets count index (start + (4 + 4 * ts.length)) ts = .ok entries) :
    readSwitch start (Word.toBytes (UInt32.ofNat ts.length) ++ entries ++ rest) =
      .ok ((Operand.switch ts).raw offsets, rest) := by
  have hcount : (UInt32.ofNat ts.length).toNat = ts.length := UInt32.toNat_ofNat_of_lt' hlen
  have hroom : ¬ ((entries ++ rest).take (4 * ts.length)).length < 4 * ts.length := by
    have := length_of_tableBytes h
    simp only [List.length_take, List.length_append]
    omega
  rw [← Nat.add_assoc] at h
  simp only [readSwitch, List.append_assoc, readWord_append, bind, Except.bind, hcount,
    if_neg hroom, readTable_append rest h]
  rfl

/-- **An operand reads back** as its raw form, whatever follows it. -/
theorem readOperand_append {offsets : List Nat} {count index start : Nat} {i : Instruction}
    {bytes : Bytes} (rest : Bytes) (hwf : i.isWellFormed = true)
    (hsize : i.operandSize < 0x100000000)
    (h : operandBytes offsets count index (start + i.operandSize) i = .ok bytes) :
    readOperand start i.opcode.operand (bytes ++ rest) = .ok (i.operand.raw offsets, rest) := by
  obtain ⟨op, o⟩ := i
  unfold Instruction.isWellFormed at hwf
  cases o <;> cases hk : op.operand <;> simp only [hk, Operand.isOf, Bool.false_eq_true] at hwf
  case none.none => cases h; rfl
  case target.shortBranch t =>
    simp only [Instruction.operandSize, hk, OperandKind.size?] at h
    obtain ⟨d, hd, h⟩ := bind_eq_ok_iff.1 h
    simp only [hk, if_true] at h
    obtain ⟨hfits, rfl⟩ := shortDistance_eq_ok_iff.1 h
    have hgoal : ((start + 1 : Nat) : Int) + (Int8.ofInt d).toInt = (offsets.getD t 0 : Nat) := by
      rw [toInt_ofInt_of_fitsShort hfits, (distance_eq_ok_iff.1 hd).2]
      omega
    rw [readOperand, readSingle_append, hgoal]
    rfl
  case target.branch t =>
    simp only [Instruction.operandSize, hk, OperandKind.size?] at h
    obtain ⟨d, hd, h⟩ := bind_eq_ok_iff.1 h
    simp only [hk, reduceCtorEq, if_false] at h
    obtain ⟨hfits, rfl⟩ := longDistance_eq_ok_iff.1 h
    have hgoal : ((start + 4 : Nat) : Int) + (Int32.ofInt d).toInt = (offsets.getD t 0 : Nat) := by
      rw [toInt_ofInt_of_fitsLong hfits, (distance_eq_ok_iff.1 hd).2]
      omega
    rw [readOperand, readSingle_append, hgoal]
    rfl
  case switch.switch ts =>
    simp only [Instruction.operandSize, hk, OperandKind.size?] at h hsize
    obtain ⟨entries, hentries, h⟩ := bind_eq_ok_iff.1 h
    cases h
    exact readSwitch_append rest (by omega) hentries
  all_goals
    cases h
    rw [readOperand, readSingle_append]
    rfl

theorem length_of_operandBytes {offsets : List Nat} {count index next : Nat} {i : Instruction}
    {bytes : Bytes} (hwf : i.isWellFormed = true)
    (h : operandBytes offsets count index next i = .ok bytes) : bytes.length = i.operandSize := by
  obtain ⟨op, o⟩ := i
  unfold Instruction.isWellFormed at hwf
  cases o <;> cases hk : op.operand <;> simp only [hk, Operand.isOf, Bool.false_eq_true] at hwf
  all_goals simp only [Instruction.operandSize, hk, OperandKind.size?]
  case none.none => cases h; rfl
  case target.shortBranch t =>
    obtain ⟨d, -, h⟩ := bind_eq_ok_iff.1 h
    simp only [hk, if_true] at h
    obtain ⟨-, rfl⟩ := shortDistance_eq_ok_iff.1 h
    exact Word.length_toBytes _
  case target.branch t =>
    obtain ⟨d, -, h⟩ := bind_eq_ok_iff.1 h
    simp only [hk, reduceCtorEq, if_false] at h
    obtain ⟨-, rfl⟩ := longDistance_eq_ok_iff.1 h
    exact Word.length_toBytes _
  case switch.switch ts =>
    obtain ⟨entries, hentries, h⟩ := bind_eq_ok_iff.1 h
    cases h
    have hwidth : (Word.toBytes (UInt32.ofNat ts.length)).length = 4 := Word.length_toBytes _
    rw [List.length_append, hwidth, length_of_tableBytes hentries]
  all_goals
    cases h
    exact Word.length_toBytes _

theorem targets_lt_of_operandBytes {offsets : List Nat} {count index next : Nat}
    {i : Instruction} {bytes : Bytes} (h : operandBytes offsets count index next i = .ok bytes) :
    ∀ t ∈ i.targets, t < count := by
  obtain ⟨op, o⟩ := i
  cases o
  case target t =>
    obtain ⟨d, hd, -⟩ := bind_eq_ok_iff.1 h
    intro t' ht'
    obtain rfl : t' = t := by simpa [Instruction.targets, Operand.targets] using ht'
    exact (distance_eq_ok_iff.1 hd).1
  case switch ts =>
    obtain ⟨entries, hentries, -⟩ := bind_eq_ok_iff.1 h
    exact lt_of_tableBytes hentries
  all_goals exact nofun

/-! ## Instructions -/

/-- What the bytes of one instruction are made of. -/
theorem instructionBytes_eq_ok_iff {offsets : List Nat} {count index next : Nat}
    {i : Instruction} {bytes : Bytes} :
    instructionBytes offsets count index next i = .ok bytes ↔
      i.isWellFormed = true ∧
        ∃ operand, operandBytes offsets count index next i = .ok operand ∧
          bytes = i.opcode.bytes ++ operand := by
  unfold instructionBytes
  split
  · rename_i hwf
    rw [bind_eq_ok_iff]
    constructor
    · rintro ⟨operand, ho, hb⟩
      cases hb
      exact ⟨hwf, operand, ho, rfl⟩
    · rintro ⟨-, operand, ho, rfl⟩
      exact ⟨operand, ho, rfl⟩
  · rename_i hwf
    exact ⟨nofun, fun h => absurd h.1 hwf⟩

/-- **The bytes of one instruction read back** as its raw form, whatever follows them. -/
theorem readInstruction_append {offsets : List Nat} {count index start : Nat} {i : Instruction}
    {bytes : Bytes} (rest : Bytes) (hsize : i.size < 0x100000000)
    (h : instructionBytes offsets count index (start + i.size) i = .ok bytes) :
    readInstruction start (bytes ++ rest) = .ok (i.raw offsets, rest) := by
  obtain ⟨hwf, operand, ho, rfl⟩ := instructionBytes_eq_ok_iff.1 h
  unfold Instruction.size at hsize ho
  rw [← Nat.add_assoc] at ho
  have hread := readOperand_append rest hwf (by omega) ho
  simp only [readInstruction, List.append_assoc, readOpCode_append, bind, Except.bind, hread]
  rfl

theorem length_of_instructionBytes {offsets : List Nat} {count index next : Nat}
    {i : Instruction} {bytes : Bytes}
    (h : instructionBytes offsets count index next i = .ok bytes) : bytes.length = i.size := by
  obtain ⟨hwf, operand, ho, rfl⟩ := instructionBytes_eq_ok_iff.1 h
  rw [List.length_append, OpCode.length_bytes, length_of_operandBytes hwf ho, Instruction.size]

theorem size_raw (offsets : List Nat) {i : Instruction} (hwf : i.isWellFormed = true) :
    (i.raw offsets).size = i.size := by
  obtain ⟨op, o⟩ := i
  unfold Instruction.isWellFormed at hwf
  unfold Instruction.size Instruction.operandSize RawInstruction.size Instruction.raw
  cases o <;> cases hk : op.operand <;> simp only [hk, Operand.isOf, Bool.false_eq_true] at hwf
  all_goals simp [OperandKind.size?, Operand.raw]

/-! ## The first pass -/

theorem length_of_encodeFrom {offsets : List Nat} {count index start : Nat}
    {xs : List Instruction} {bytes : Bytes}
    (h : encodeFrom offsets count index start xs = .ok bytes) : bytes.length = codeSize xs := by
  induction xs generalizing index start bytes with
  | nil => cases h; rfl
  | cons i rest ih =>
    obtain ⟨front, hfront, h⟩ := bind_eq_ok_iff.1 h
    obtain ⟨others, hothers, h⟩ := bind_eq_ok_iff.1 h
    cases h
    rw [List.length_append, length_of_instructionBytes hfront, ih hothers, codeSize]

theorem targets_lt_of_encodeFrom {offsets : List Nat} {count index start : Nat}
    {xs : List Instruction} {bytes : Bytes}
    (h : encodeFrom offsets count index start xs = .ok bytes) :
    ∀ i ∈ xs, ∀ t ∈ i.targets, t < count := by
  induction xs generalizing index start bytes with
  | nil => simp
  | cons i rest ih =>
    obtain ⟨front, hfront, h⟩ := bind_eq_ok_iff.1 h
    obtain ⟨others, hothers, -⟩ := bind_eq_ok_iff.1 h
    obtain ⟨-, operand, ho, -⟩ := instructionBytes_eq_ok_iff.1 hfront
    exact List.forall_mem_cons.2 ⟨targets_lt_of_operandBytes ho, ih hothers⟩

/-- One step of the first pass. -/
theorem scan_cons {start : Nat} {bytes rest : Bytes} {raw : RawInstruction}
    {raws : List RawInstruction} {os : List Nat} (hstart : start < 0x100000000)
    (hread : readInstruction start bytes = .ok (raw, rest))
    (hrest : scan (start + raw.size) rest = .ok (raws, os)) :
    scan start bytes = .ok (raw :: raws, start :: os) := by
  have hlt := length_lt_of_readInstruction hread
  cases bytes with
  | nil => simp at hlt
  | cons b bs =>
    rw [scan, if_neg (by omega)]
    split
    · rename_i e he
      rw [hread] at he
      cases he
    · rename_i raw' rest' hread'
      rw [hread] at hread'
      cases hread'
      rw [hrest]

/-- **The first pass finds every instruction where the layout has it.** -/
theorem scan_of_encodeFrom {offsets : List Nat} {count index start : Nat}
    {xs : List Instruction} {bytes : Bytes} (hend : start + codeSize xs < 0x100000000)
    (h : encodeFrom offsets count index start xs = .ok bytes) :
    scan start bytes = .ok (xs.map (Instruction.raw offsets), offsetsFrom start xs) := by
  induction xs generalizing index start bytes with
  | nil =>
    cases h
    unfold codeSize at hend
    rw [scan, if_neg (by omega)]
    rfl
  | cons i rest ih =>
    obtain ⟨front, hfront, h⟩ := bind_eq_ok_iff.1 h
    obtain ⟨others, hothers, h⟩ := bind_eq_ok_iff.1 h
    cases h
    unfold codeSize at hend
    obtain ⟨hwf, -⟩ := instructionBytes_eq_ok_iff.1 hfront
    have hread := readInstruction_append others (by omega) hfront
    have hrest := ih (by omega) hothers
    rw [← size_raw offsets hwf] at hrest
    rw [scan_cons (by omega) hread hrest, size_raw offsets hwf]
    rfl

/-! ## The second pass -/

section Binding

variable {xs : List Instruction} (index : Nat)

/-- The offset of an instruction leads back to the instruction. -/
theorem bindTarget_offset (hend : codeSize xs < 0x100000000) {t : Nat} (ht : t < xs.length) :
    bindTarget (offsetsFrom 0 xs) xs.length index (((offsetsFrom 0 xs).getD t 0 : Nat) : Int) =
      .ok t := by
  have hget := getElem?_offsetsFrom 0 (Nat.le_of_lt ht)
  have hle := le_end_of_getElem?_offsetsFrom hget
  rw [List.getD_eq_getElem?_getD, hget, Option.getD_some]
  unfold bindTarget
  rw [if_neg (by omega), Int.toNat_natCast,
    indexOfOffset_of_getElem? (pairwise_offsetsFrom 0 xs) hget]
  simp [bind, Except.bind, ht]

theorem bindTargets_offsets (hend : codeSize xs < 0x100000000) {ts : List Nat}
    (hts : ∀ t ∈ ts, t < xs.length) :
    bindTargets (offsetsFrom 0 xs) xs.length index
      (ts.map fun t => (((offsetsFrom 0 xs).getD t 0 : Nat) : Int)) = .ok ts := by
  induction ts with
  | nil => rfl
  | cons t ts ih =>
    obtain ⟨ht, hts⟩ := List.forall_mem_cons.1 hts
    simp only [List.map_cons, bindTargets, bindTarget_offset index hend ht, ih hts, bind,
      Except.bind]

theorem bindOperand_raw (hend : codeSize xs < 0x100000000) {o : Operand}
    (ho : ∀ t ∈ o.targets, t < xs.length) :
    bindOperand (offsetsFrom 0 xs) xs.length index (o.raw (offsetsFrom 0 xs)) = .ok o := by
  cases o
  case target t =>
    have ht : t < xs.length := ho t (by simp [Operand.targets])
    simp only [Operand.raw, bindOperand, bindTarget_offset index hend ht, bind, Except.bind]
  case switch ts =>
    have hts : ∀ t ∈ ts, t < xs.length := ho
    simp only [Operand.raw, bindOperand, bindTargets_offsets index hend hts, bind, Except.bind]
  all_goals rfl

/-- **The second pass turns offsets into the indices they came from.** -/
theorem bindFrom_raw (hend : codeSize xs < 0x100000000) {ys : List Instruction}
    (hys : ∀ i ∈ ys, ∀ t ∈ i.targets, t < xs.length) :
    bindFrom (offsetsFrom 0 xs) xs.length index (ys.map (Instruction.raw (offsetsFrom 0 xs))) =
      .ok ys := by
  induction ys generalizing index with
  | nil => rfl
  | cons i ys ih =>
    obtain ⟨hi, hys⟩ := List.forall_mem_cons.1 hys
    simp only [List.map_cons, bindFrom, Instruction.raw, bindOperand_raw index hend hi, bind,
      Except.bind]
    rw [ih (index + 1) hys]

end Binding

/-! ## Both passes -/

theorem encode_eq_ok_iff {xs : List Instruction} {code : Bytes} :
    encode xs = .ok code ↔
      codeSize xs < 0x100000000 ∧ encodeFrom (offsetsFrom 0 xs) xs.length 0 0 xs = .ok code := by
  unfold encode
  rw [bind_eq_ok_iff]
  constructor
  · rintro ⟨offsets, hoffsets, h⟩
    obtain ⟨hend, rfl⟩ := layout_eq_ok_iff.1 hoffsets
    exact ⟨hend, h⟩
  · rintro ⟨hend, h⟩
    exact ⟨_, layout_eq_ok_iff.2 ⟨hend, rfl⟩, h⟩

theorem length_of_encode {xs : List Instruction} {code : Bytes} (h : encode xs = .ok code) :
    code.length = codeSize xs :=
  length_of_encodeFrom (encode_eq_ok_iff.1 h).2

/-- Code that is written has a length of 32 bits. -/
theorem length_lt_of_encode {xs : List Instruction} {code : Bytes} (h : encode xs = .ok code) :
    code.length < 0x100000000 := by
  rw [length_of_encode h]
  exact (encode_eq_ok_iff.1 h).1

theorem decode_of_encode {xs : List Instruction} {code : Bytes} (h : encode xs = .ok code) :
    decode code = .ok (xs, offsetsFrom 0 xs) := by
  obtain ⟨hend, hbytes⟩ := encode_eq_ok_iff.1 h
  have hscan := scan_of_encodeFrom (by omega) hbytes
  have hbind := bindFrom_raw 0 hend (targets_lt_of_encodeFrom hbytes)
  simp only [decode, hscan, List.length_map, hbind, bind, Except.bind]

/-- **Decoding undoes encoding.**  Whatever list has an encoding, its bytes decode to the very
list, with the layout from which they were written; the last entry of the layout is their number. -/
theorem decode_encode {xs : List Instruction} {code : Bytes} (h : encode xs = .ok code) :
    ∃ offsets, layout xs = .ok offsets ∧ decode code = .ok (xs, offsets) ∧
      offsets.getLast? = some code.length := by
  have hend := (encode_eq_ok_iff.1 h).1
  refine ⟨offsetsFrom 0 xs, layout_eq_ok_iff.2 ⟨hend, rfl⟩, decode_of_encode h, ?_⟩
  rw [List.getLast?_eq_getElem?, length_offsetsFrom, Nat.add_sub_cancel,
    getElem?_offsetsFrom_length, length_of_encode h, Nat.zero_add]

/-- A backward branch, a table with a target in front and one behind, a two-byte opcode and a NaN
with a payload. -/
theorem decode_encode_mixed :
    let xs : List Instruction :=
      [⟨.ldcR4, .float32 ⟨0x7FC00001⟩⟩, ⟨.switch, .switch [0, 4]⟩, ⟨.ldarg, .uint16 300⟩,
        ⟨.brS, .target 1⟩, ⟨.ret, .none⟩]
    let code : Bytes :=
      [0x22, 0x01, 0x00, 0xC0, 0x7F, 0x45, 2, 0, 0, 0, 0xEE, 0xFF, 0xFF, 0xFF, 6, 0, 0, 0,
        0xFE, 0x09, 0x2C, 0x01, 0x2B, 0xED, 0x2A]
    encode xs = .ok code ∧
      ∃ offsets, layout xs = .ok offsets ∧ decode code = .ok (xs, offsets) ∧
        offsets.getLast? = some code.length := by
  intro xs code
  have h : encode xs = .ok code := by rfl
  exact ⟨h, decode_encode h⟩

end CilGraft
