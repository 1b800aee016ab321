import CilGraft.Method.Clause

/-!
# The stored form of a body

A body is stored as a header, its code, and, when it has handlers, a section of clauses at the
next multiple of four. A tiny header is one byte and stands for fixed values; a fat header has
twelve bytes or more.

* `Body.encode` — the bytes of a body, with a tiny header where one will do.
* `Body.parse` — the body at the front of a byte string.
-/

set_option autoImplicit false

namespace CilGraft

namespace Body

/-- The largest code size that a tiny header can give. -/
def tinyMaxCode : Nat := 63

/-- The number of bytes of the fat header that is written. -/
def fatHeaderSize : Nat := 12

/-- A tiny header describes the body, whose code has the given size. -/
def isTiny (b : Body) (codeSize : Nat) : Bool :=
  codeSize ≤ tinyMaxCode && b.maxStack ≤ tinyMaxStack && b.locals.isNull && !b.initLocals &&
    b.handlers.isEmpty

/-- The first two bytes of the fat header: the format, the two flags, and the size of the header in
units of four bytes. -/
def fatFlags (b : Body) : UInt16 :=
  0x3003 ||| (if b.handlers.isEmpty then 0 else 0x8) ||| (if b.initLocals then 0x10 else 0)

/-- The fat header of the body. -/
def fatHeader (b : Body) (codeSize : Nat) : Bytes :=
  Word.toBytes b.fatFlags ++ Word.toBytes b.maxStack ++ Word.toBytes (UInt32.ofNat codeSize) ++
    Word.toBytes b.locals.value

/-- The bytes of the body. -/
def encode (b : Body) : Except CodeError Bytes := do
  let code ← CilGraft.encode b.code
  if b.isTiny code.length then .ok (UInt8.ofNat (4 * code.length + 2) :: code)
  else
    let front := b.fatHeader code.length ++ code
    if b.handlers.isEmpty then .ok front
    else do
      let offsets ← layout b.code
      let clauses ← clausesOf offsets b.handlers
      let section_ ← sectionBytes clauses
      .ok (front ++ List.replicate (align4 front.length - front.length) 0 ++ section_)

/-- The bytes of the data from `start` up to `stop`. -/
def slice (data : Bytes) (start stop : Nat) : Except CodeError Bytes :=
  if start ≤ stop ∧ stop ≤ data.length then .ok ((data.drop start).take (stop - start))
  else .error .outOfBounds

/-- The word at an offset, or the error of an access beyond the end. -/
def wordAt (α : Type) [Word α] (data : Bytes) (offset : Nat) : Except CodeError α :=
  match readAt α data offset with
  | some v => .ok v
  | none => .error .outOfBounds

/-- The body with a tiny header at the front of the data. -/
def parseTiny (first : UInt8) (data : Bytes) : Except CodeError Body := do
  let code ← slice data 1 (first.toNat / 4 + 1)
  let (instructions, _) ← decode code
  .ok (ofCode instructions)

/-- The body with a fat header at the front of the data. -/
def parseFat (data : Bytes) : Except CodeError Body :=
  if data.length < fatHeaderSize then .error .outOfBounds
  else do
    let flags ← wordAt UInt16 data 0
    let maxStack ← wordAt UInt16 data 2
    let codeSize ← wordAt UInt32 data 4
    let locals ← wordAt UInt32 data 8
    let codeStart := flags.toNat / 0x1000 * 4
    let codeEnd := codeStart + codeSize.toNat
    let code ← slice data codeStart codeEnd
    let (instructions, offsets) ← decode code
    let clauses ← if flags.toNat.testBit 3 then readSections data (align4 codeEnd) else .ok []
    let handlers ← bindClauses offsets clauses
    .ok ⟨maxStack, ⟨locals⟩, flags.toNat.testBit 4, instructions, handlers⟩

/-- The body at the front of the data. -/
def parse (data : Bytes) : Except CodeError Body :=
  match data with
  | [] => .error (.malformed .noData)
  | first :: _ =>
    match first.toNat % 4 with
    | 2 => parseTiny first data
    | 3 => parseFat data
    | _ => .error (.malformed (.unknownHeader first))

end Body

end CilGraft
