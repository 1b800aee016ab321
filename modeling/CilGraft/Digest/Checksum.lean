import CilGraft.Digest.Md5
import CilGraft.Disk.Access
import CilGraft.Error
import CilGraft.Text.Blank
import CilGraft.Text.Digits

/-!
# Checksums

The checksum of a content is its digest of sixteen bytes. It is stored as a text of thirty-two
digits.

* `Checksum.of` — the checksum of a content; `Checksum.ofFile` of the file at a path.
* `Checksum.hex` — the text that is stored.
* `Checksum.agreesWith` — a stored text names this checksum, whatever its case and the blanks
  around it.
* `Checksum.parse` — the checksum of a stored text, read as sixteen pairs of characters. A pair is
  two digits, or a plus sign and one digit.
-/

set_option autoImplicit false

namespace CilGraft

/-- The number of bytes of a checksum. -/
def checksumSize : Nat := 16

/-- The digest of a content. -/
structure Checksum where
  bytes : Bytes
  length_bytes : bytes.length = checksumSize
  deriving DecidableEq, Repr

namespace Checksum

/-- The checksum of a content. -/
def of (content : Bytes) : Checksum := ⟨md5 content, length_md5 content⟩

/-- The checksum of the file at a path. -/
def ofFile (d : Disk) (p : Path) : Except Error Checksum :=
  match d.readFile p with
  | .error e => .error (.onDisk p e)
  | .ok content => .ok (of content)

/-- The text of a checksum. -/
def hex (c : Checksum) : List Char := c.bytes.flatMap Text.hexByte

/-- The text of a checksum as it is stored in a record. -/
def text (c : Checksum) : String := String.ofList c.hex

/-- The text of a checksum with what it is. -/
def description (c : Checksum) : String := s!"Checksum({c.text})"

/-- A stored text names this checksum. -/
def agreesWith (c : Checksum) (stored : List Char) : Bool :=
  Text.sameIgnoringAsciiCase (Text.trim stored) c.hex

/-- The byte of a pair of characters: two digits, or a plus sign and one digit. -/
def pairByte? (high low : Char) : Option UInt8 :=
  match Text.hexValue? low with
  | none => none
  | some l =>
    if high = '+' then some (UInt8.ofNat l)
    else (Text.hexValue? high).map fun h => UInt8.ofNat (16 * h + l)

/-- The bytes of a text of pairs. -/
def pairBytes? : List Char → Option Bytes
  | [] => some []
  | [_] => none
  | high :: low :: rest =>
    match pairByte? high low, pairBytes? rest with
    | some b, some others => some (b :: others)
    | _, _ => none

/-- The checksum of a stored text. -/
def parse (stored : List Char) : Except Error Checksum :=
  let digits := Text.trim stored
  match pairBytes? digits with
  | none => .error (.invalidChecksum (String.ofList digits))
  | some bytes =>
    if h : bytes.length = checksumSize then .ok ⟨bytes, h⟩
    else .error (.invalidChecksum (String.ofList digits))

end Checksum

end CilGraft
