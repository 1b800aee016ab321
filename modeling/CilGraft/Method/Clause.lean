import CilGraft.Bytes.Buffer
import CilGraft.Cil.Decoding
import CilGraft.Method.Body

/-!
# Exception clauses

A clause is a handler as it is stored: ranges are byte offsets and lengths, and one field holds
the filter or the class.

* `Clause.bind`, `Handler.toClause` — between offsets and indices.
* `smallClauseBytes`, `fatClauseBytes` — the two stored forms, of 12 and of 24 bytes; `readSmall`
  and `readFat` read them.
* `sectionBytes` — the section with all clauses, small when every field fits.
* `readSections` — the clauses of a chain of sections.
-/

set_option autoImplicit false

namespace CilGraft

/-- An exception handler as it is stored. -/
structure Clause where
  flags : HandlerFlags
  tryOffset : UInt32
  tryLength : UInt32
  handlerOffset : UInt32
  handlerLength : UInt32
  /-- the offset of the filter or the token of the class -/
  extra : UInt32
  deriving DecidableEq, Repr

/-! ## Offsets and indices -/

/-- The end of a range. -/
def rangeEnd (start length : UInt32) : Except CodeError Nat :=
  if start.toNat + length.toNat < 0x100000000 then .ok (start.toNat + length.toNat)
  else .error (.malformed (.rangeOverflow start length))

/-- The handler that a clause describes, in a body with the given layout. -/
def Clause.bind (offsets : List Nat) (c : Clause) : Except CodeError Handler := do
  let tryStart ← indexOfOffset offsets c.tryOffset.toNat
  let tryEnd ← indexOfOffset offsets (← rangeEnd c.tryOffset c.tryLength)
  let handlerStart ← indexOfOffset offsets c.handlerOffset.toNat
  let handlerEnd ← indexOfOffset offsets (← rangeEnd c.handlerOffset c.handlerLength)
  let filterStart ←
    if c.flags.filter then do
      let i ← indexOfOffset offsets c.extra.toNat
      .ok (some i)
    else .ok none
  .ok { flags := c.flags, tryStart, tryEnd, handlerStart, handlerEnd, filterStart
        classToken := if c.flags.isTyped then some ⟨c.extra⟩ else none }

/-- The offset of the instruction at an index. -/
def offsetOf (offsets : List Nat) (index : Nat) : Except CodeError Nat :=
  match offsets[index]? with
  | some o => .ok o
  | none => .error (.malformed (.handlerOutside index (offsets.length - 1)))

/-- The number of bytes between two instructions. -/
def lengthBetween (offsets : List Nat) (start stop : Nat) : Except CodeError Nat := do
  let s ← offsetOf offsets start
  let e ← offsetOf offsets stop
  if s ≤ e then .ok (e - s) else .error (.malformed .rangeReversed)

/-- The field that holds the filter or the class of a handler, as its flags say. -/
def Handler.extra (offsets : List Nat) (h : Handler) : Except CodeError UInt32 :=
  match h.flags.filter, h.filterStart, h.flags.isTyped, h.classToken with
  | true, some filter, _, _ => do
    let o ← offsetOf offsets filter
    .ok (UInt32.ofNat o)
  | _, _, true, some token => .ok token.value
  | _, _, _, _ => .ok 0

/-- The stored form of a handler, in a body with the given layout. -/
def Handler.toClause (offsets : List Nat) (h : Handler) : Except CodeError Clause := do
  let extra ← h.extra offsets
  let tryOffset ← offsetOf offsets h.tryStart
  let tryLength ← lengthBetween offsets h.tryStart h.tryEnd
  let handlerOffset ← offsetOf offsets h.handlerStart
  let handlerLength ← lengthBetween offsets h.handlerStart h.handlerEnd
  .ok { flags := h.flags
        tryOffset := UInt32.ofNat tryOffset
        tryLength := UInt32.ofNat tryLength
        handlerOffset := UInt32.ofNat handlerOffset
        handlerLength := UInt32.ofNat handlerLength
        extra }

/-- The stored forms of the handlers, in a body with the given layout. -/
def clausesOf (offsets : List Nat) : List Handler → Except CodeError (List Clause)
  | [] => .ok []
  | h :: rest => do
    let c ← h.toClause offsets
    let others ← clausesOf offsets rest
    .ok (c :: others)

/-- The handlers that the clauses describe, in a body with the given layout. -/
def bindClauses (offsets : List Nat) : List Clause → Except CodeError (List Handler)
  | [] => .ok []
  | c :: rest => do
    let h ← c.bind offsets
    let others ← bindClauses offsets rest
    .ok (h :: others)

/-! ## Sections -/

/-- The number of bytes in front of the clauses of a section. -/
def sectionHeaderSize : Nat := 4

/-- The number of bytes of a small clause. -/
def smallClauseSize : Nat := 12

/-- The number of bytes of a fat clause. -/
def fatClauseSize : Nat := 24

/-- The bit of the first byte of a section that is set when it holds exception clauses. -/
def sectionHasClauses : Nat := 0

/-- The bit of the first byte of a section that is set when its clauses are fat. -/
def sectionIsFat : Nat := 6

/-- The bit of the first byte of a section that is set when another section follows. -/
def sectionGoesOn : Nat := 7

/-- The next multiple of four. -/
def align4 (n : Nat) : Nat := (n + 3) / 4 * 4

/-- Every field of the clause fits the small form. -/
def Clause.isSmall (c : Clause) : Bool :=
  c.tryOffset.toNat ≤ 0xFFFF && c.tryLength.toNat ≤ 0xFF && c.handlerOffset.toNat ≤ 0xFFFF &&
    c.handlerLength.toNat ≤ 0xFF

/-- The small form of a clause. -/
def smallClauseBytes (c : Clause) : Bytes :=
  Word.toBytes c.flags.bits ++ Word.toBytes c.tryOffset.toUInt16 ++
    Word.toBytes c.tryLength.toUInt8 ++ Word.toBytes c.handlerOffset.toUInt16 ++
    Word.toBytes c.handlerLength.toUInt8 ++ Word.toBytes c.extra

/-- The fat form of a clause. -/
def fatClauseBytes (c : Clause) : Bytes :=
  Word.toBytes c.flags.bits.toUInt32 ++ Word.toBytes c.tryOffset ++
    Word.toBytes c.tryLength ++ Word.toBytes c.handlerOffset ++ Word.toBytes c.handlerLength ++
    Word.toBytes c.extra

/-- The section that holds the clauses. -/
def sectionBytes (clauses : List Clause) : Except CodeError Bytes :=
  let smallSize := sectionHeaderSize + clauses.length * smallClauseSize
  let fatSize := sectionHeaderSize + clauses.length * fatClauseSize
  if smallSize ≤ 0xFF ∧ clauses.all Clause.isSmall then
    .ok (0x01 :: UInt8.ofNat smallSize :: 0 :: 0 :: clauses.flatMap smallClauseBytes)
  else if fatSize ≤ 0xFFFFFF then
    .ok (0x41 :: leBytes 3 fatSize ++ clauses.flatMap fatClauseBytes)
  else .error (.malformed (.tooManyHandlers clauses.length))

/-- The small clause at the front of the bytes. -/
def readSmall (bytes : Bytes) : Except CodeError (Clause × Bytes) := do
  let (flags, bytes) ← readWord UInt16 bytes
  let (tryOffset, bytes) ← readWord UInt16 bytes
  let (tryLength, bytes) ← readWord UInt8 bytes
  let (handlerOffset, bytes) ← readWord UInt16 bytes
  let (handlerLength, bytes) ← readWord UInt8 bytes
  let (extra, bytes) ← readWord UInt32 bytes
  .ok (⟨HandlerFlags.ofNat flags.toNat, tryOffset.toUInt32, tryLength.toUInt32,
    handlerOffset.toUInt32, handlerLength.toUInt32, extra⟩, bytes)

/-- The fat clause at the front of the bytes. -/
def readFat (bytes : Bytes) : Except CodeError (Clause × Bytes) := do
  let (flags, bytes) ← readWord UInt32 bytes
  let (tryOffset, bytes) ← readWord UInt32 bytes
  let (tryLength, bytes) ← readWord UInt32 bytes
  let (handlerOffset, bytes) ← readWord UInt32 bytes
  let (handlerLength, bytes) ← readWord UInt32 bytes
  let (extra, bytes) ← readWord UInt32 bytes
  .ok (⟨HandlerFlags.ofNat flags.toNat, tryOffset, tryLength, handlerOffset, handlerLength, extra⟩,
    bytes)

/-- A number of clauses at the front of the bytes. -/
def readClauses (read : Bytes → Except CodeError (Clause × Bytes)) :
    Nat → Bytes → Except CodeError (List Clause)
  | 0, _ => .ok []
  | count + 1, bytes => do
    let (c, rest) ← read bytes
    let others ← readClauses read count rest
    .ok (c :: others)

/-- The size that the header of a section gives: three bytes in a fat section, one in a small one. -/
def sectionSize (header : Bytes) : Nat :=
  if (header.headD 0).toNat.testBit sectionIsFat then leValue ((header.drop 1).take 3)
  else leValue ((header.drop 1).take 1)

/-- The clauses of the section at the front of the bytes, which has the given size. -/
def sectionClauses (header : Bytes) (size : Nat) : Except CodeError (List Clause) :=
  let body := header.drop sectionHeaderSize
  if (header.headD 0).toNat.testBit sectionIsFat then
    readClauses readFat ((size - sectionHeaderSize) / fatClauseSize) body
  else readClauses readSmall ((size - sectionHeaderSize) / smallClauseSize) body

/-- The clauses of the sections from `cursor` on. A section starts at a multiple of four; a section
without exception clauses ends the chain, and so does the end of the data. -/
def readSections (data : Bytes) (cursor : Nat) : Except CodeError (List Clause) :=
  let header := data.drop cursor
  if _hroom : header.length < sectionHeaderSize then .ok []
  else if (header.headD 0).toNat.testBit sectionHasClauses then
    let size := sectionSize header
    if _hsize : size < sectionHeaderSize ∨ header.length < size then .error .outOfBounds
    else do
      let clauses ← sectionClauses header size
      if (header.headD 0).toNat.testBit sectionGoesOn then
        let others ← readSections data (align4 (cursor + size))
        .ok (clauses ++ others)
      else .ok clauses
  else .ok []
termination_by data.length - cursor
decreasing_by
  have hlen : header.length = data.length - cursor := List.length_drop
  have hsame : sectionSize header = sectionSize (data.drop cursor) := rfl
  simp only [sectionHeaderSize] at _hroom _hsize
  simp only [align4]
  omega

end CilGraft
