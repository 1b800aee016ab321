import CilGraft.Text.Digits

/-!
# Metadata tokens

A token names a row of a metadata table: the table in its high byte, the row in the three low
bytes.

* `Table` — the tables that an instruction or a patch refers to; `Table.id`, `Table.name`.
* `Token.ofRow table row` — the token of a row; only its low three bytes are used.
* `Token.table`, `Token.row` — the parts of a token (`table_ofRow`, `row_ofRow`).
-/

set_option autoImplicit false

namespace CilGraft

/-- The metadata tables with a role in patching. -/
inductive Table where
  | typeRef
  | typeDef
  | field
  | methodDef
  | memberRef
  | standAloneSig
  | typeSpec
  | methodSpec
  | userString
  deriving DecidableEq, Repr

namespace Table

/-- Every table, in the order of the identifiers. -/
def all : List Table :=
  [.typeRef, .typeDef, .field, .methodDef, .memberRef, .standAloneSig, .typeSpec, .methodSpec,
   .userString]

/-- The byte that stands for the table in a token. -/
def id : Table → UInt8
  | .typeRef => 0x01
  | .typeDef => 0x02
  | .field => 0x04
  | .methodDef => 0x06
  | .memberRef => 0x0A
  | .standAloneSig => 0x11
  | .typeSpec => 0x1B
  | .methodSpec => 0x2B
  | .userString => 0x70

/-- The name of the table in the metadata standard. -/
def name : Table → String
  | .typeRef => "TypeRef"
  | .typeDef => "TypeDef"
  | .field => "Field"
  | .methodDef => "MethodDef"
  | .memberRef => "MemberRef"
  | .standAloneSig => "StandAloneSig"
  | .typeSpec => "TypeSpec"
  | .methodSpec => "MethodSpec"
  | .userString => "UserString"

/-- The table with the given identifier. -/
def ofId? (b : UInt8) : Option Table := all.find? (·.id == b)

end Table

/-- A metadata token. -/
structure Token where
  value : UInt32
  deriving DecidableEq, Repr, Inhabited

namespace Token

/-- The highest row of a table. -/
def maxRow : Nat := 0xFFFFFF

/-- The token of a row of a table. -/
def ofRow (table : Table) (row : Nat) : Token :=
  ⟨UInt32.ofNat (table.id.toNat * 0x1000000 + row % 0x1000000)⟩

/-- The byte that stands for the table. -/
def table (t : Token) : UInt8 := UInt8.ofNat (t.value.toNat / 0x1000000)

/-- The table, when it is a known one. -/
def table? (t : Token) : Option Table := Table.ofId? t.table

/-- The row. -/
def row (t : Token) : Nat := t.value.toNat % 0x1000000

/-- The token that names nothing. -/
def isNull (t : Token) : Bool := t.value == 0

/-- The eight hexadecimal digits of the token. -/
def text (t : Token) : String := "0x" ++ String.ofList (Text.hexPadded 8 t.value.toNat)

/-- The token with its parts spelled out. -/
def description (t : Token) : String :=
  "Token(" ++ t.text ++ ", table: 0x" ++ String.ofList (Text.hexPadded 2 t.table.toNat) ++
    ", row: " ++ String.ofList (Text.decimal t.row) ++ ")"

theorem toNat_ofRow (table : Table) (row : Nat) :
    (ofRow table row).value.toNat = table.id.toNat * 0x1000000 + row % 0x1000000 := by
  have ht : table.id.toNat < 256 := table.id.toNat_lt
  have hr : row % 0x1000000 < 0x1000000 := Nat.mod_lt _ (by decide)
  rw [ofRow, UInt32.toNat_ofNat']
  omega

@[simp] theorem row_ofRow (table : Table) (n : Nat) : (ofRow table n).row = n % 0x1000000 := by
  rw [Token.row, toNat_ofRow]
  omega

@[simp] theorem table_ofRow (table : Table) (n : Nat) : (ofRow table n).table = table.id := by
  have hr : n % 0x1000000 < 0x1000000 := Nat.mod_lt _ (by decide)
  rw [Token.table, toNat_ofRow, show (table.id.toNat * 0x1000000 + n % 0x1000000) / 0x1000000 =
    table.id.toNat by omega, UInt8.ofNat_toNat]

end Token

end CilGraft
