import CilGraft.Proofs.CodeRoundTrip

/-!
# The code that is accepted

The readers take nothing but what the writers produce: a word, an opcode, an operand is read only
where its very bytes stand, and a target is bound only where an instruction starts.  What is read
and bound is therefore written back to the same bytes.

* `operandBytes_of_readOperand`, `instructionBytes_of_readInstruction` — what is read and bound is
  written back, for one operand and for one instruction.
* `encode_of_decode` — **encoding undoes decoding**.
* `Piece`, `IsStream` — a byte string cut into opcodes with their operands, none of them cut short,
  every distance leading to the start of a piece.
* `decode_accepts` — **the code that is accepted is the code that is written**, and it is such a
  stream.
-/

set_option autoImplicit false

namespace CilGraft

/-! ## Words and opcodes -/

theorem eq_append_of_readWord {α : Type} [Word α] {v : α} {bytes rest : Bytes}
    (h : readWord α bytes = .ok (v, rest)) : bytes = Word.toBytes v ++ rest := by
  unfold readWord at h
  split at h
  · rename_i r hr
    cases h
    exact eq_toBytes_append_of_readFirst? hr
  · cases h

theorem eq_cons_of_readWord {b : UInt8} {bytes rest : Bytes}
    (h : readWord UInt8 bytes = .ok (b, rest)) : bytes = b :: rest := by
  have hbytes := eq_append_of_readWord h
  have hb : Word.toBytes b = [b] := by
    show leBytes 1 b.toNat = [b]
    simp [leBytes]
  rwa [hb] at hbytes

/-- The value of an opcode is read from one byte, or from the escape byte and one more. -/
theorem readCode_cases {bytes rest : Bytes} {code : UInt16}
    (h : readCode bytes = .ok (code, rest)) :
    (∃ b, bytes = OpCode.escape :: b :: rest ∧ code.toNat = 0xFE00 + b.toNat) ∨
      ∃ b, bytes = b :: rest ∧ code.toNat = b.toNat := by
  obtain ⟨⟨first, r⟩, hfirst, hvalue⟩ := bind_eq_ok_iff.1 h
  obtain rfl := eq_cons_of_readWord hfirst
  dsimp only at hvalue
  split at hvalue
  · rename_i hesc
    subst hesc
    obtain ⟨⟨second, r'⟩, hsecond, hlow⟩ := bind_eq_ok_iff.1 hvalue
    obtain rfl := eq_cons_of_readWord hsecond
    cases hlow
    refine Or.inl ⟨second, rfl, ?_⟩
    have hlt := second.toNat_lt
    have hesc : OpCode.escape.toNat = 0xFE := rfl
    simp only [UInt16.toNat_add, UInt16.toNat_mul, UInt8.toNat_toUInt16, UInt16.toNat_ofNat, hesc]
    omega
  · cases hvalue
    exact Or.inr ⟨first, rfl, UInt8.toNat_toUInt16 first⟩

/-- The opcode of an encoded value has the bytes from which the value is read. -/
theorem OpCode.bytes_of_toNat_code {op : OpCode} {b : UInt8} :
    (op.code.toNat = 0xFE00 + b.toNat → op.bytes = [OpCode.escape, b]) ∧
      (op.code.toNat = b.toNat → op.bytes = [b]) := by
  have hlt := b.toNat_lt
  have hescaped : op.isEscaped = decide (0xFF < op.code.toNat) := rfl
  constructor
  · intro hcode
    have hlow : UInt8.ofNat op.code.toNat = b := by
      apply UInt8.toNat_inj.1
      rw [UInt8.toNat_ofNat']
      omega
    rw [OpCode.bytes, if_pos (by rw [hescaped, decide_eq_true_eq]; omega), hlow]
  · intro hcode
    have hlow : UInt8.ofNat op.code.toNat = b := by
      apply UInt8.toNat_inj.1
      rw [UInt8.toNat_ofNat']
      omega
    rw [OpCode.bytes, if_neg (by rw [hescaped, decide_eq_true_eq]; omega), hlow]

theorem eq_append_of_readOpCode {op : OpCode} {bytes rest : Bytes}
    (h : readOpCode bytes = .ok (op, rest)) : bytes = op.bytes ++ rest := by
  obtain ⟨⟨code, r⟩, hcode, h⟩ := bind_eq_ok_iff.1 h
  simp only at h
  split at h
  · rename_i op' hop
    cases h
    obtain rfl := OpCode.code_of_ofCode? hop
    obtain ⟨b, rfl, hvalue⟩ | ⟨b, rfl, hvalue⟩ := readCode_cases hcode
    · rw [OpCode.bytes_of_toNat_code.1 hvalue]
      rfl
    · rw [OpCode.bytes_of_toNat_code.2 hvalue]
      rfl
  · cases h

/-! ## Operands -/

theorem eq_append_of_readSingle {α : Type} [Word α] {f : α → RawOperand} {bytes rest : Bytes}
    {raw : RawOperand} (h : readSingle f bytes = .ok (raw, rest)) :
    ∃ v, raw = f v ∧ bytes = Word.toBytes v ++ rest := by
  obtain ⟨⟨v, r⟩, hv, h⟩ := bind_eq_ok_iff.1 h
  cases h
  exact ⟨v, rfl, eq_append_of_readWord hv⟩

theorem fitsShort_toInt (d : Int8) : fitsShort d.toInt = true := by
  have hlow := d.le_toInt
  have hhigh := d.toInt_lt
  simp only [fitsShort, Bool.and_eq_true, decide_eq_true_eq]
  omega

theorem fitsLong_toInt (d : Int32) : fitsLong d.toInt = true := by
  have hlow := d.le_toInt
  have hhigh := d.toInt_lt
  simp only [fitsLong, Bool.and_eq_true, decide_eq_true_eq]
  omega

section Operands

variable {offsets : List Nat} {count index : Nat}

/-- A target that is bound is an instruction that starts at the offset. -/
theorem bindTarget_eq_ok {goal : Int} {t : Nat} (h : bindTarget offsets count index goal = .ok t) :
    t < count ∧ goal = ((offsets.getD t 0 : Nat) : Int) := by
  unfold bindTarget at h
  split at h
  · cases h
  · rename_i hgoal
    obtain ⟨target, htarget, h⟩ := bind_eq_ok_iff.1 h
    split at h
    · rename_i hlt
      cases h
      have hget := getElem?_of_indexOfOffset htarget
      refine ⟨hlt, ?_⟩
      rw [List.getD_eq_getElem?_getD, hget, Option.getD_some]
      omega
    · cases h

/-- A distance that is read and bound is the distance to the target. -/
theorem distance_of_bindTarget {next t : Nat} {d : Int}
    (h : bindTarget offsets count index ((next : Nat) + d) = .ok t) :
    distance offsets count index t next = .ok d := by
  obtain ⟨hlt, hgoal⟩ := bindTarget_eq_ok h
  refine distance_eq_ok_iff.2 ⟨hlt, ?_⟩
  omega

/-- A table that is read and bound is written back. -/
theorem tableBytes_of_readTable {next n : Nat} {bytes rest : Bytes} {goals : List Int}
    {ts : List Nat} (hread : readTable next n bytes = .ok (goals, rest))
    (hbind : bindTargets offsets count index goals = .ok ts) :
    goals.length = n ∧ ts.length = n ∧
      ∃ entries, tableBytes offsets count index next ts = .ok entries ∧
        bytes = entries ++ rest := by
  induction n generalizing bytes goals ts with
  | zero =>
    cases hread
    cases hbind
    exact ⟨rfl, rfl, [], rfl, rfl⟩
  | succ n ih =>
    obtain ⟨⟨d, r⟩, hd, hread⟩ := bind_eq_ok_iff.1 hread
    obtain ⟨⟨goals', r'⟩, hgoals, hread⟩ := bind_eq_ok_iff.1 hread
    cases hread
    obtain ⟨t, ht, hbind⟩ := bind_eq_ok_iff.1 hbind
    obtain ⟨ts', hts, hbind⟩ := bind_eq_ok_iff.1 hbind
    cases hbind
    obtain ⟨hgoalsLen, htsLen, entries, hentries, rfl⟩ := ih hgoals hts
    have hlong : longDistance index d.toInt = .ok (Word.toBytes d) := by
      rw [longDistance, if_pos (fitsLong_toInt d), Int32.ofInt_toInt]
    refine ⟨by rw [List.length_cons, hgoalsLen], by rw [List.length_cons, htsLen],
      Word.toBytes d ++ entries, ?_, ?_⟩
    · simp only [tableBytes, distance_of_bindTarget ht, hlong, hentries, bind, Except.bind]
    · rw [eq_append_of_readWord hd, List.append_assoc]

/-- What the two passes make of an operand: it is of the kind that the opcode asks for, it has the
size that the first pass has counted, and it is written back. -/
theorem operandBytes_of_readOperand {start : Nat} {op : OpCode} {raw : RawOperand} {o : Operand}
    {bytes rest : Bytes} (hread : readOperand start op.operand bytes = .ok (raw, rest))
    (hbind : bindOperand offsets count index raw = .ok o) :
    Instruction.isWellFormed ⟨op, o⟩ = true ∧
      RawInstruction.size ⟨op, raw⟩ = Instruction.size ⟨op, o⟩ ∧
      ∃ front, operandBytes offsets count index (start + Instruction.operandSize ⟨op, o⟩) ⟨op, o⟩ =
        .ok front ∧ bytes = front ++ rest := by
  unfold Instruction.isWellFormed RawInstruction.size Instruction.size Instruction.operandSize
  cases hk : op.operand <;> simp only [hk, readOperand] at hread
  case none =>
    cases hread
    cases hbind
    exact ⟨rfl, rfl, [], rfl, rfl⟩
  case shortBranch =>
    obtain ⟨d, rfl, rfl⟩ := eq_append_of_readSingle hread
    obtain ⟨t, ht, hbind⟩ := bind_eq_ok_iff.1 hbind
    cases hbind
    have hshort : shortDistance index d.toInt = .ok (Word.toBytes d) := by
      rw [shortDistance, if_pos (fitsShort_toInt d), Int8.ofInt_toInt]
    refine ⟨rfl, rfl, Word.toBytes d, ?_, rfl⟩
    simp only [operandBytes, OperandKind.size?, distance_of_bindTarget ht, hk, hshort, bind,
      Except.bind, if_true]
  case branch =>
    obtain ⟨d, rfl, rfl⟩ := eq_append_of_readSingle hread
    obtain ⟨t, ht, hbind⟩ := bind_eq_ok_iff.1 hbind
    cases hbind
    have hlong : longDistance index d.toInt = .ok (Word.toBytes d) := by
      rw [longDistance, if_pos (fitsLong_toInt d), Int32.ofInt_toInt]
    refine ⟨rfl, rfl, Word.toBytes d, ?_, rfl⟩
    simp only [operandBytes, OperandKind.size?, distance_of_bindTarget ht, hk, hlong, bind,
      Except.bind, reduceCtorEq, if_false]
  case switch =>
    obtain ⟨⟨n, r⟩, hn, hread⟩ := bind_eq_ok_iff.1 hread
    simp only at hread
    split at hread
    · cases hread
    · obtain ⟨⟨goals, r'⟩, hgoals, hread⟩ := bind_eq_ok_iff.1 hread
      cases hread
      obtain ⟨ts, hts, hbind⟩ := bind_eq_ok_iff.1 hbind
      cases hbind
      obtain ⟨hgoalsLen, htsLen, entries, hentries, rfl⟩ := tableBytes_of_readTable hgoals hts
      have hcount : UInt32.ofNat ts.length = n := by rw [htsLen, UInt32.ofNat_toNat]
      refine ⟨rfl, ?_, Word.toBytes n ++ entries, ?_, ?_⟩
      · simp only [OperandKind.size?, hgoalsLen, htsLen]
      · rw [← htsLen, Nat.add_assoc] at hentries
        simp only [operandBytes, OperandKind.size?, hentries, hcount, bind, Except.bind]
      · rw [eq_append_of_readWord hn, List.append_assoc]
  all_goals
    obtain ⟨v, rfl, rfl⟩ := eq_append_of_readSingle hread
    cases hbind
    exact ⟨rfl, rfl, Word.toBytes v, rfl, rfl⟩

/-- What is read and bound as an instruction is written back. -/
theorem instructionBytes_of_readInstruction {start : Nat} {raw : RawInstruction} {o : Operand}
    {bytes rest : Bytes} (hread : readInstruction start bytes = .ok (raw, rest))
    (hbind : bindOperand offsets count index raw.operand = .ok o) :
    raw.size = Instruction.size ⟨raw.opcode, o⟩ ∧
      ∃ front, instructionBytes offsets count index
        (start + Instruction.size ⟨raw.opcode, o⟩) ⟨raw.opcode, o⟩ = .ok front ∧
        bytes = front ++ rest := by
  obtain ⟨⟨op, r⟩, hop, hread⟩ := bind_eq_ok_iff.1 hread
  obtain ⟨⟨operand, r'⟩, hoperand, hread⟩ := bind_eq_ok_iff.1 hread
  cases hread
  obtain ⟨hwf, hsize, front, hfront, rfl⟩ := operandBytes_of_readOperand hoperand hbind
  rw [Nat.add_assoc] at hfront
  refine ⟨hsize, op.bytes ++ front, instructionBytes_eq_ok_iff.2 ⟨hwf, front, hfront, rfl⟩, ?_⟩
  rw [eq_append_of_readOpCode hop, List.append_assoc]

end Operands

/-! ## Both passes -/

/-- What the first pass has found. -/
theorem scan_cases {start : Nat} {bytes : Bytes} {raws : List RawInstruction} {offsets : List Nat}
    (h : scan start bytes = .ok (raws, offsets)) :
    start < 0x100000000 ∧
      ((bytes = [] ∧ raws = [] ∧ offsets = [start]) ∨
        ∃ raw rest raws' offsets', readInstruction start bytes = .ok (raw, rest) ∧
          scan (start + raw.size) rest = .ok (raws', offsets') ∧ raws = raw :: raws' ∧
          offsets = start :: offsets') := by
  unfold scan at h
  split at h
  · cases h
  · rename_i hstart
    refine ⟨by omega, ?_⟩
    split at h
    · cases h
      exact Or.inl ⟨rfl, rfl, rfl⟩
    · split at h
      · cases h
      · rename_i raw rest hread
        split at h
        · cases h
        · rename_i raws' offsets' hrest
          cases h
          exact Or.inr ⟨raw, rest, raws', offsets', hread, hrest, rfl, rfl⟩

/-- **What the two passes make of code is written back to it**, and the layout is the one that the
first pass has noted. -/
theorem encodeFrom_of_scan {offsets os : List Nat} {count index start : Nat} {bytes : Bytes}
    {raws : List RawInstruction} {xs : List Instruction}
    (hscan : scan start bytes = .ok (raws, os))
    (hbind : bindFrom offsets count index raws = .ok xs) :
    raws.length = xs.length ∧ start + codeSize xs < 0x100000000 ∧ os = offsetsFrom start xs ∧
      encodeFrom offsets count index start xs = .ok bytes := by
  induction raws generalizing index start bytes os xs with
  | nil =>
    obtain ⟨hstart, ⟨rfl, -, rfl⟩ | ⟨raw, rest, raws', os', -, -, hcons, -⟩⟩ := scan_cases hscan
    · cases hbind
      exact ⟨rfl, hstart, rfl, rfl⟩
    · cases hcons
  | cons raw raws ih =>
    obtain ⟨-, ⟨-, hnil, -⟩ | ⟨raw', rest, raws', os', hread, hrest, hcons, rfl⟩⟩ :=
      scan_cases hscan
    · cases hnil
    · cases hcons
      obtain ⟨o, ho, hbind⟩ := bind_eq_ok_iff.1 hbind
      obtain ⟨ys, hys, hbind⟩ := bind_eq_ok_iff.1 hbind
      cases hbind
      obtain ⟨hsize, front, hfront, rfl⟩ := instructionBytes_of_readInstruction hread ho
      rw [hsize] at hrest
      obtain ⟨hlen, hend, rfl, hothers⟩ := ih hrest hys
      refine ⟨by rw [List.length_cons, hlen, List.length_cons], ?_, rfl, ?_⟩
      · rw [codeSize]
        omega
      · simp only [encodeFrom, hfront, hothers, bind, Except.bind]

/-- **Encoding undoes decoding.** -/
theorem encode_of_decode {code : Bytes} {xs : List Instruction} {offsets : List Nat}
    (h : decode code = .ok (xs, offsets)) :
    encode xs = .ok code ∧ offsets = offsetsFrom 0 xs := by
  obtain ⟨⟨raws, os⟩, hscan, h⟩ := bind_eq_ok_iff.1 h
  obtain ⟨ys, hbind, h⟩ := bind_eq_ok_iff.1 h
  cases h
  obtain ⟨hlen, hend, rfl, hbytes⟩ := encodeFrom_of_scan hscan hbind
  rw [hlen] at hbytes
  exact ⟨encode_eq_ok_iff.2 ⟨by omega, hbytes⟩, rfl⟩

/-! ## Streams -/

/-- An opcode with the bytes of its operand. -/
structure Piece where
  opcode : OpCode
  operand : Bytes
  deriving DecidableEq

/-- The words of four bytes that stand one behind the other, as signed numbers. -/
def longDistances : Bytes → List Int
  | a :: b :: c :: d :: rest => (Word.ofBytes Int32 [a, b, c, d]).toInt :: longDistances rest
  | _ => []

namespace Piece

/-- The bytes of a piece. -/
def bytes (p : Piece) : Bytes := p.opcode.bytes ++ p.operand

/-- The number of bytes that the operand has when it is not cut short. The one of a switch has four
bytes for the number of its entries and four for each of them. -/
def operandSize (p : Piece) : Nat :=
  p.opcode.operand.size?.getD (4 + 4 * leValue (p.operand.take 4))

/-- The distances in the operand, each from the end of the piece. -/
def distances (p : Piece) : List Int :=
  match p.opcode.operand with
  | .shortBranch => [(Word.ofBytes Int8 p.operand).toInt]
  | .branch => longDistances p.operand
  | .switch => longDistances (p.operand.drop 4)
  | _ => []

end Piece

/-- Where piece `k` starts. -/
def pieceStart (ps : List Piece) (k : Nat) : Nat := ((ps.take k).flatMap Piece.bytes).length

/-- The code is a sequence of pieces: known opcodes, each with its whole operand, and every distance
leads to the start of one of them. -/
structure IsStream (code : Bytes) (ps : List Piece) : Prop where
  code_eq : code = ps.flatMap Piece.bytes
  complete : ∀ p ∈ ps, p.operand.length = p.operandSize
  lands : ∀ k p, ps[k]? = some p → ∀ d ∈ p.distances,
    ∃ t < ps.length, (pieceStart ps t : Int) = pieceStart ps (k + 1) + d

theorem pieceStart_cons_succ (p : Piece) (ps : List Piece) (k : Nat) :
    pieceStart (p :: ps) (k + 1) = p.bytes.length + pieceStart ps k := by
  simp [pieceStart]

theorem leValue_toBytes {α : Type} [Word α] (v : α) : leValue (Word.toBytes v) = Word.toNat v := by
  rw [Word.toBytes, leValue_leBytes, Nat.mod_eq_of_lt (Word.toNat_lt v)]

theorem longDistances_toBytes_append (d : Int32) (rest : Bytes) :
    longDistances (Word.toBytes d ++ rest) = d.toInt :: longDistances rest := by
  have hback := Word.ofBytes_toBytes d
  have hlen : (Word.toBytes d).length = 4 := Word.length_toBytes d
  match hd : Word.toBytes d, hlen with
  | [a, b, c, e], _ =>
    rw [hd] at hback
    simp only [List.cons_append, List.nil_append, longDistances, hback]

section Pieces

variable {offsets : List Nat} {count index : Nat}

/-- The entries of a table are the distances to its targets. -/
theorem longDistances_of_tableBytes {next : Nat} {ts : List Nat} {bytes : Bytes}
    (h : tableBytes offsets count index next ts = .ok bytes) :
    longDistances bytes = ts.map fun t => ((offsets.getD t 0 : Nat) : Int) - next := by
  induction ts generalizing bytes with
  | nil =>
    cases h
    rfl
  | cons t ts ih =>
    obtain ⟨d, hd, h⟩ := bind_eq_ok_iff.1 h
    obtain ⟨entry, hentry, h⟩ := bind_eq_ok_iff.1 h
    obtain ⟨entries, hentries, h⟩ := bind_eq_ok_iff.1 h
    cases h
    obtain ⟨hfits, rfl⟩ := longDistance_eq_ok_iff.1 hentry
    obtain ⟨-, rfl⟩ := distance_eq_ok_iff.1 hd
    rw [longDistances_toBytes_append, toInt_ofInt_of_fitsLong hfits, ih hentries, List.map_cons]

/-- What an operand that is written has in it: all of its bytes, and the distances to the targets of
the instruction. -/
theorem distances_of_operandBytes {next : Nat} {i : Instruction} {operand : Bytes}
    (hwf : i.isWellFormed = true) (hsize : i.size < 0x100000000)
    (h : operandBytes offsets count index next i = .ok operand) :
    operand.length = Piece.operandSize ⟨i.opcode, operand⟩ ∧
      Piece.distances ⟨i.opcode, operand⟩ =
        i.targets.map fun t => ((offsets.getD t 0 : Nat) : Int) - next := by
  have hlen := length_of_operandBytes hwf h
  obtain ⟨op, o⟩ := i
  unfold Instruction.size Instruction.operandSize at hsize
  unfold Instruction.isWellFormed at hwf
  unfold Instruction.operandSize at hlen
  unfold Piece.operandSize Piece.distances Instruction.targets
  cases o <;> cases hk : op.operand <;> simp only [hk, Operand.isOf, Bool.false_eq_true] at hwf
  all_goals simp only [hk, OperandKind.size?] at hlen hsize
  case target.shortBranch t =>
    obtain ⟨d, hd, h⟩ := bind_eq_ok_iff.1 h
    simp only [hk, if_true] at h
    obtain ⟨hfits, rfl⟩ := shortDistance_eq_ok_iff.1 h
    obtain ⟨-, rfl⟩ := distance_eq_ok_iff.1 hd
    refine ⟨hlen, ?_⟩
    simp only [Word.ofBytes_toBytes, toInt_ofInt_of_fitsShort hfits, Operand.targets,
      List.map_cons, List.map_nil]
  case target.branch t =>
    obtain ⟨d, hd, h⟩ := bind_eq_ok_iff.1 h
    simp only [hk, reduceCtorEq, if_false] at h
    obtain ⟨hfits, rfl⟩ := longDistance_eq_ok_iff.1 h
    obtain ⟨-, rfl⟩ := distance_eq_ok_iff.1 hd
    have hone := longDistances_toBytes_append (Int32.ofInt ((offsets.getD t 0 : Nat) - next)) []
    rw [List.append_nil, toInt_ofInt_of_fitsLong hfits] at hone
    refine ⟨hlen, ?_⟩
    simp only [hone, Operand.targets, List.map_cons, List.map_nil, longDistances]
  case switch.switch ts =>
    obtain ⟨entries, hentries, h⟩ := bind_eq_ok_iff.1 h
    cases h
    have hwidth : (Word.toBytes (UInt32.ofNat ts.length)).length = 4 := Word.length_toBytes _
    have hroom : ts.length < UInt32.size := by
      show _ < 0x100000000
      omega
    have hcount : leValue (Word.toBytes (UInt32.ofNat ts.length)) = ts.length := by
      rw [leValue_toBytes]
      exact UInt32.toNat_ofNat_of_lt' hroom
    have htake : (Word.toBytes (UInt32.ofNat ts.length) ++ entries).take 4 =
        Word.toBytes (UInt32.ofNat ts.length) := List.take_left' hwidth
    have hdrop : (Word.toBytes (UInt32.ofNat ts.length) ++ entries).drop 4 = entries :=
      List.drop_left' hwidth
    refine ⟨?_, ?_⟩
    · simp only [OperandKind.size?, Option.getD_none, htake, hcount]
      exact hlen
    · simp only [hdrop, longDistances_of_tableBytes hentries, Operand.targets]
  all_goals
    refine ⟨by simp only [OperandKind.size?, Option.getD_some]; exact hlen, ?_⟩
    simp only [Operand.targets, List.map_nil]

/-- Code that is written is cut into pieces where its layout has the instructions. -/
theorem exists_pieces_of_encodeFrom {start : Nat} {xs : List Instruction} {bytes : Bytes}
    (hend : codeSize xs < 0x100000000)
    (h : encodeFrom offsets count index start xs = .ok bytes) :
    ∃ ps : List Piece, bytes = ps.flatMap Piece.bytes ∧
      ps.map Piece.opcode = xs.map Instruction.opcode ∧
      (∀ p ∈ ps, p.operand.length = p.operandSize) ∧
      (∀ k, pieceStart ps k = codeSize (xs.take k)) ∧
      ∀ k p, ps[k]? = some p → ∀ d ∈ p.distances, ∃ t < count,
        ((offsets.getD t 0 : Nat) : Int) = (start + codeSize (xs.take (k + 1)) : Nat) + d := by
  induction xs generalizing index start bytes with
  | nil =>
    cases h
    exact ⟨[], rfl, rfl, by simp, fun k => by simp [pieceStart, codeSize], by simp⟩
  | cons i rest ih =>
    obtain ⟨front, hfront, h⟩ := bind_eq_ok_iff.1 h
    obtain ⟨others, hothers, h⟩ := bind_eq_ok_iff.1 h
    cases h
    rw [codeSize] at hend
    obtain ⟨ps, rfl, hops, hcomplete, hstarts, hlands⟩ := ih (by omega) hothers
    have hlen := length_of_instructionBytes hfront
    obtain ⟨hwf, operand, ho, rfl⟩ := instructionBytes_eq_ok_iff.1 hfront
    obtain ⟨hwhole, hdistances⟩ := distances_of_operandBytes hwf (by omega) ho
    refine ⟨⟨i.opcode, operand⟩ :: ps, rfl, by simp [hops],
      List.forall_mem_cons.2 ⟨hwhole, hcomplete⟩, ?_, ?_⟩
    · intro k
      cases k with
      | zero => rfl
      | succ k =>
        rw [pieceStart_cons_succ, hstarts, List.take_succ_cons, codeSize, ← hlen]
        rfl
    · intro k p hp d hd
      cases k with
      | zero =>
        obtain rfl : (⟨i.opcode, operand⟩ : Piece) = p := by simpa using hp
        rw [hdistances] at hd
        obtain ⟨t, ht, rfl⟩ := List.mem_map.1 hd
        refine ⟨t, targets_lt_of_operandBytes ho t ht, ?_⟩
        rw [List.take_succ_cons, List.take_zero, codeSize, codeSize]
        omega
      | succ k =>
        rw [List.getElem?_cons_succ] at hp
        obtain ⟨t, ht, hgoal⟩ := hlands k p hp d hd
        refine ⟨t, ht, ?_⟩
        rw [hgoal, List.take_succ_cons (i := k + 1), codeSize, Nat.add_assoc]

end Pieces

/-- **Code that is written is a stream**, cut where the layout has the instructions. -/
theorem exists_isStream_of_encode {xs : List Instruction} {code : Bytes}
    (h : encode xs = .ok code) :
    ∃ ps, IsStream code ps ∧ ps.map Piece.opcode = xs.map Instruction.opcode ∧
      offsetsFrom 0 xs = (List.range (ps.length + 1)).map (pieceStart ps) := by
  obtain ⟨hend, hbytes⟩ := encode_eq_ok_iff.1 h
  obtain ⟨ps, hcode, hops, hcomplete, hstarts, hlands⟩ := exists_pieces_of_encodeFrom hend hbytes
  have hlen : ps.length = xs.length := by simpa using congrArg List.length hops
  have hentry : ∀ k ≤ xs.length, (offsetsFrom 0 xs)[k]? = some (pieceStart ps k) := by
    intro k hk
    rw [getElem?_offsetsFrom 0 hk, hstarts, Nat.zero_add]
  refine ⟨ps, ⟨hcode, hcomplete, ?_⟩, hops, ?_⟩
  · intro k p hp d hd
    obtain ⟨t, ht, hgoal⟩ := hlands k p hp d hd
    refine ⟨t, by omega, ?_⟩
    rw [List.getD_eq_getElem?_getD, hentry t (by omega), Option.getD_some] at hgoal
    rw [hgoal, hstarts, Nat.zero_add]
  · apply List.ext_getElem?
    intro k
    by_cases hk : k ≤ xs.length
    · rw [hentry k hk, List.getElem?_map, List.getElem?_range (by omega), Option.map_some]
    · rw [List.getElem?_eq_none (by rw [length_offsetsFrom]; omega),
        List.getElem?_eq_none (by simp; omega)]

/-- **The code that is accepted is the code that is written.**  Bytes decode exactly when some list
has them as its encoding; the list that they decode to is then written back to the very bytes.  They
are a stream, cut at the noted offsets: no unknown opcode, no operand cut short, and no branch that
leads elsewhere than to the start of an instruction. -/
theorem decode_accepts (code : Bytes) :
    ((∃ r, decode code = .ok r) ↔ ∃ xs, encode xs = .ok code) ∧
      ∀ xs offsets, decode code = .ok (xs, offsets) →
        encode xs = .ok code ∧
          ∃ ps, IsStream code ps ∧ ps.map Piece.opcode = xs.map Instruction.opcode ∧
            offsets = (List.range (ps.length + 1)).map (pieceStart ps) := by
  refine ⟨⟨?_, ?_⟩, ?_⟩
  · rintro ⟨⟨xs, offsets⟩, h⟩
    exact ⟨xs, (encode_of_decode h).1⟩
  · rintro ⟨xs, h⟩
    exact ⟨_, decode_of_encode h⟩
  · intro xs offsets h
    obtain ⟨hback, rfl⟩ := encode_of_decode h
    exact ⟨hback, exists_isStream_of_encode hback⟩

/-- A two-byte opcode, a table that leads back and forth, and a short branch that leads back. -/
theorem decode_accepts_mixed :
    let code : Bytes :=
      [0xFE, 0x09, 0x2C, 0x01, 0x45, 2, 0, 0, 0, 0xEF, 0xFF, 0xFF, 0xFF, 2, 0, 0, 0, 0x2B, 0xF1,
        0x2A]
    let xs : List Instruction :=
      [⟨.ldarg, .uint16 300⟩, ⟨.switch, .switch [0, 3]⟩, ⟨.brS, .target 1⟩, ⟨.ret, .none⟩]
    decode code = .ok (xs, [0, 4, 17, 19, 20]) ∧ encode xs = .ok code ∧
      ∃ ps, IsStream code ps ∧ ps.map Piece.opcode = xs.map Instruction.opcode ∧
        [0, 4, 17, 19, 20] = (List.range (ps.length + 1)).map (pieceStart ps) := by
  intro code xs
  have hxs : encode xs = .ok code := by rfl
  have h : decode code = .ok (xs, [0, 4, 17, 19, 20]) := decode_of_encode hxs
  exact ⟨h, (decode_accepts code).2 xs _ h⟩

end CilGraft
