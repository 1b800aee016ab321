import CilGraft.Text.Digits

/-!
# Opcodes of the Common Intermediate Language

The opcodes of ECMA-335, Partition III. One table gives the code, the mnemonic, the operand and
the effect on control flow of each; everything else about an opcode is read off it.

* `OperandKind`, `Flow` — the layout of an operand, the effect on control flow.
* `OpCode.spec` — the row of an opcode; `OpCode.all` — every opcode in the order of the codes.
* `OpCode.ofCode?`, `OpCode.ofMnemonic?` — look-ups in the table. An opcode is found under its own
  code and under no other (`ofCode?_code`, `code_of_ofCode?`), and the codes are distinct
  (`code_injective`).
* `OpCode.longBranch?`, `OpCode.shortBranch?` — the two forms of the branches that have both.
-/

set_option autoImplicit false

namespace CilGraft

/-- The layout of the operand behind an opcode. -/
inductive OperandKind where
  | none
  | int8
  | uint8
  | uint16
  | int32
  | int64
  | float32
  | float64
  | token
  /-- a distance of one signed byte -/
  | shortBranch
  /-- a distance of four bytes -/
  | branch
  /-- a count and as many distances of four bytes -/
  | switch
  deriving DecidableEq, Repr

/-- The number of bytes of an operand; a switch table has no fixed number. -/
def OperandKind.size? : OperandKind → Option Nat
  | .none => some 0
  | .int8 | .uint8 | .shortBranch => some 1
  | .uint16 => some 2
  | .int32 | .float32 | .token | .branch => some 4
  | .int64 | .float64 => some 8
  | .switch => Option.none

/-- The effect of an instruction on control flow. -/
inductive Flow where
  | sequential
  | conditionalBranch
  | unconditionalBranch
  | calls
  | returns
  | multiway
  | raises
  | endsHandler
  | leaves
  deriving DecidableEq, Repr

/-- A row of the opcode table. -/
structure OpCodeSpec where
  /-- The encoded value; the two-byte opcodes have the escape byte above their second byte. -/
  code : UInt16
  mnemonic : String
  operand : OperandKind
  flow : Flow

/-- The opcodes, named after their mnemonics. -/
inductive OpCode where
  | nop | breakpoint | ldarg0 | ldarg1 | ldarg2 | ldarg3 | ldloc0 | ldloc1 | ldloc2 | ldloc3
  | stloc0 | stloc1 | stloc2 | stloc3 | ldargS | ldargaS | stargS | ldlocS | ldlocaS | stlocS
  | ldnull | ldcI4M1 | ldcI40 | ldcI41 | ldcI42 | ldcI43 | ldcI44 | ldcI45 | ldcI46 | ldcI47
  | ldcI48 | ldcI4S | ldcI4 | ldcI8 | ldcR4 | ldcR8 | dup | pop | jmp | call | calli | ret
  | brS | brfalseS | brtrueS | beqS | bgeS | bgtS | bleS | bltS | bneUnS | bgeUnS | bgtUnS
  | bleUnS | bltUnS | br | brfalse | brtrue | beq | bge | bgt | ble | blt | bneUn | bgeUn
  | bgtUn | bleUn | bltUn | switch | ldindI1 | ldindU1 | ldindI2 | ldindU2 | ldindI4 | ldindU4
  | ldindI8 | ldindI | ldindR4 | ldindR8 | ldindRef | stindRef | stindI1 | stindI2 | stindI4
  | stindI8 | stindR4 | stindR8 | add | sub | mul | div | divUn | rem | remUn | and | or | xor
  | shl | shr | shrUn | neg | not | convI1 | convI2 | convI4 | convI8 | convR4 | convR8
  | convU4 | convU8 | callvirt | cpobj | ldobj | ldstr | newobj | castclass | isinst | convRUn
  | unbox | throw | ldfld | ldflda | stfld | ldsfld | ldsflda | stsfld | stobj | convOvfI1Un
  | convOvfI2Un | convOvfI4Un | convOvfI8Un | convOvfU1Un | convOvfU2Un | convOvfU4Un
  | convOvfU8Un | convOvfIUn | convOvfUUn | box | newarr | ldlen | ldelema | ldelemI1
  | ldelemU1 | ldelemI2 | ldelemU2 | ldelemI4 | ldelemU4 | ldelemI8 | ldelemI | ldelemR4
  | ldelemR8 | ldelemRef | stelemI | stelemI1 | stelemI2 | stelemI4 | stelemI8 | stelemR4
  | stelemR8 | stelemRef | ldelem | stelem | unboxAny | convOvfI1 | convOvfU1 | convOvfI2
  | convOvfU2 | convOvfI4 | convOvfU4 | convOvfI8 | convOvfU8 | refanyval | ckfinite | mkrefany
  | ldtoken | convU2 | convU1 | convI | convOvfI | convOvfU | addOvf | addOvfUn | mulOvf
  | mulOvfUn | subOvf | subOvfUn | endfinally | leave | leaveS | stindI | convU | arglist | ceq
  | cgt | cgtUn | clt | cltUn | ldftn | ldvirtftn | ldarg | ldarga | starg | ldloc | ldloca
  | stloc | localloc | endfilter | unaligned | volatile | tail | initobj | constrained | cpblk
  | initblk | no | rethrow | sizeof | refanytype | readonly
  deriving DecidableEq, Repr

namespace OpCode

/-- The row of an opcode. -/
def spec : OpCode → OpCodeSpec
  | .nop => ⟨0x00, "nop", .none, .sequential⟩
  | .breakpoint => ⟨0x01, "break", .none, .sequential⟩
  | .ldarg0 => ⟨0x02, "ldarg.0", .none, .sequential⟩
  | .ldarg1 => ⟨0x03, "ldarg.1", .none, .sequential⟩
  | .ldarg2 => ⟨0x04, "ldarg.2", .none, .sequential⟩
  | .ldarg3 => ⟨0x05, "ldarg.3", .none, .sequential⟩
  | .ldloc0 => ⟨0x06, "ldloc.0", .none, .sequential⟩
  | .ldloc1 => ⟨0x07, "ldloc.1", .none, .sequential⟩
  | .ldloc2 => ⟨0x08, "ldloc.2", .none, .sequential⟩
  | .ldloc3 => ⟨0x09, "ldloc.3", .none, .sequential⟩
  | .stloc0 => ⟨0x0a, "stloc.0", .none, .sequential⟩
  | .stloc1 => ⟨0x0b, "stloc.1", .none, .sequential⟩
  | .stloc2 => ⟨0x0c, "stloc.2", .none, .sequential⟩
  | .stloc3 => ⟨0x0d, "stloc.3", .none, .sequential⟩
  | .ldargS => ⟨0x0e, "ldarg.s", .uint8, .sequential⟩
  | .ldargaS => ⟨0x0f, "ldarga.s", .uint8, .sequential⟩
  | .stargS => ⟨0x10, "starg.s", .uint8, .sequential⟩
  | .ldlocS => ⟨0x11, "ldloc.s", .uint8, .sequential⟩
  | .ldlocaS => ⟨0x12, "ldloca.s", .uint8, .sequential⟩
  | .stlocS => ⟨0x13, "stloc.s", .uint8, .sequential⟩
  | .ldnull => ⟨0x14, "ldnull", .none, .sequential⟩
  | .ldcI4M1 => ⟨0x15, "ldc.i4.m1", .none, .sequential⟩
  | .ldcI40 => ⟨0x16, "ldc.i4.0", .none, .sequential⟩
  | .ldcI41 => ⟨0x17, "ldc.i4.1", .none, .sequential⟩
  | .ldcI42 => ⟨0x18, "ldc.i4.2", .none, .sequential⟩
  | .ldcI43 => ⟨0x19, "ldc.i4.3", .none, .sequential⟩
  | .ldcI44 => ⟨0x1a, "ldc.i4.4", .none, .sequential⟩
  | .ldcI45 => ⟨0x1b, "ldc.i4.5", .none, .sequential⟩
  | .ldcI46 => ⟨0x1c, "ldc.i4.6", .none, .sequential⟩
  | .ldcI47 => ⟨0x1d, "ldc.i4.7", .none, .sequential⟩
  | .ldcI48 => ⟨0x1e, "ldc.i4.8", .none, .sequential⟩
  | .ldcI4S => ⟨0x1f, "ldc.i4.s", .int8, .sequential⟩
  | .ldcI4 => ⟨0x20, "ldc.i4", .int32, .sequential⟩
  | .ldcI8 => ⟨0x21, "ldc.i8", .int64, .sequential⟩
  | .ldcR4 => ⟨0x22, "ldc.r4", .float32, .sequential⟩
  | .ldcR8 => ⟨0x23, "ldc.r8", .float64, .sequential⟩
  | .dup => ⟨0x25, "dup", .none, .sequential⟩
  | .pop => ⟨0x26, "pop", .none, .sequential⟩
  | .jmp => ⟨0x27, "jmp", .token, .calls⟩
  | .call => ⟨0x28, "call", .token, .calls⟩
  | .calli => ⟨0x29, "calli", .token, .calls⟩
  | .ret => ⟨0x2a, "ret", .none, .returns⟩
  | .brS => ⟨0x2b, "br.s", .shortBranch, .unconditionalBranch⟩
  | .brfalseS => ⟨0x2c, "brfalse.s", .shortBranch, .conditionalBranch⟩
  | .brtrueS => ⟨0x2d, "brtrue.s", .shortBranch, .conditionalBranch⟩
  | .beqS => ⟨0x2e, "beq.s", .shortBranch, .conditionalBranch⟩
  | .bgeS => ⟨0x2f, "bge.s", .shortBranch, .conditionalBranch⟩
  | .bgtS => ⟨0x30, "bgt.s", .shortBranch, .conditionalBranch⟩
  | .bleS => ⟨0x31, "ble.s", .shortBranch, .conditionalBranch⟩
  | .bltS => ⟨0x32, "blt.s", .shortBranch, .conditionalBranch⟩
  | .bneUnS => ⟨0x33, "bne.un.s", .shortBranch, .conditionalBranch⟩
  | .bgeUnS => ⟨0x34, "bge.un.s", .shortBranch, .conditionalBranch⟩
  | .bgtUnS => ⟨0x35, "bgt.un.s", .shortBranch, .conditionalBranch⟩
  | .bleUnS => ⟨0x36, "ble.un.s", .shortBranch, .conditionalBranch⟩
  | .bltUnS => ⟨0x37, "blt.un.s", .shortBranch, .conditionalBranch⟩
  | .br => ⟨0x38, "br", .branch, .unconditionalBranch⟩
  | .brfalse => ⟨0x39, "brfalse", .branch, .conditionalBranch⟩
  | .brtrue => ⟨0x3a, "brtrue", .branch, .conditionalBranch⟩
  | .beq => ⟨0x3b, "beq", .branch, .conditionalBranch⟩
  | .bge => ⟨0x3c, "bge", .branch, .conditionalBranch⟩
  | .bgt => ⟨0x3d, "bgt", .branch, .conditionalBranch⟩
  | .ble => ⟨0x3e, "ble", .branch, .conditionalBranch⟩
  | .blt => ⟨0x3f, "blt", .branch, .conditionalBranch⟩
  | .bneUn => ⟨0x40, "bne.un", .branch, .conditionalBranch⟩
  | .bgeUn => ⟨0x41, "bge.un", .branch, .conditionalBranch⟩
  | .bgtUn => ⟨0x42, "bgt.un", .branch, .conditionalBranch⟩
  | .bleUn => ⟨0x43, "ble.un", .branch, .conditionalBranch⟩
  | .bltUn => ⟨0x44, "blt.un", .branch, .conditionalBranch⟩
  | .switch => ⟨0x45, "switch", .switch, .multiway⟩
  | .ldindI1 => ⟨0x46, "ldind.i1", .none, .sequential⟩
  | .ldindU1 => ⟨0x47, "ldind.u1", .none, .sequential⟩
  | .ldindI2 => ⟨0x48, "ldind.i2", .none, .sequential⟩
  | .ldindU2 => ⟨0x49, "ldind.u2", .none, .sequential⟩
  | .ldindI4 => ⟨0x4a, "ldind.i4", .none, .sequential⟩
  | .ldindU4 => ⟨0x4b, "ldind.u4", .none, .sequential⟩
  | .ldindI8 => ⟨0x4c, "ldind.i8", .none, .sequential⟩
  | .ldindI => ⟨0x4d, "ldind.i", .none, .sequential⟩
  | .ldindR4 => ⟨0x4e, "ldind.r4", .none, .sequential⟩
  | .ldindR8 => ⟨0x4f, "ldind.r8", .none, .sequential⟩
  | .ldindRef => ⟨0x50, "ldind.ref", .none, .sequential⟩
  | .stindRef => ⟨0x51, "stind.ref", .none, .sequential⟩
  | .stindI1 => ⟨0x52, "stind.i1", .none, .sequential⟩
  | .stindI2 => ⟨0x53, "stind.i2", .none, .sequential⟩
  | .stindI4 => ⟨0x54, "stind.i4", .none, .sequential⟩
  | .stindI8 => ⟨0x55, "stind.i8", .none, .sequential⟩
  | .stindR4 => ⟨0x56, "stind.r4", .none, .sequential⟩
  | .stindR8 => ⟨0x57, "stind.r8", .none, .sequential⟩
  | .add => ⟨0x58, "add", .none, .sequential⟩
  | .sub => ⟨0x59, "sub", .none, .sequential⟩
  | .mul => ⟨0x5a, "mul", .none, .sequential⟩
  | .div => ⟨0x5b, "div", .none, .sequential⟩
  | .divUn => ⟨0x5c, "div.un", .none, .sequential⟩
  | .rem => ⟨0x5d, "rem", .none, .sequential⟩
  | .remUn => ⟨0x5e, "rem.un", .none, .sequential⟩
  | .and => ⟨0x5f, "and", .none, .sequential⟩
  | .or => ⟨0x60, "or", .none, .sequential⟩
  | .xor => ⟨0x61, "xor", .none, .sequential⟩
  | .shl => ⟨0x62, "shl", .none, .sequential⟩
  | .shr => ⟨0x63, "shr", .none, .sequential⟩
  | .shrUn => ⟨0x64, "shr.un", .none, .sequential⟩
  | .neg => ⟨0x65, "neg", .none, .sequential⟩
  | .not => ⟨0x66, "not", .none, .sequential⟩
  | .convI1 => ⟨0x67, "conv.i1", .none, .sequential⟩
  | .convI2 => ⟨0x68, "conv.i2", .none, .sequential⟩
  | .convI4 => ⟨0x69, "conv.i4", .none, .sequential⟩
  | .convI8 => ⟨0x6a, "conv.i8", .none, .sequential⟩
  | .convR4 => ⟨0x6b, "conv.r4", .none, .sequential⟩
  | .convR8 => ⟨0x6c, "conv.r8", .none, .sequential⟩
  | .convU4 => ⟨0x6d, "conv.u4", .none, .sequential⟩
  | .convU8 => ⟨0x6e, "conv.u8", .none, .sequential⟩
  | .callvirt => ⟨0x6f, "callvirt", .token, .calls⟩
  | .cpobj => ⟨0x70, "cpobj", .token, .sequential⟩
  | .ldobj => ⟨0x71, "ldobj", .token, .sequential⟩
  | .ldstr => ⟨0x72, "ldstr", .token, .sequential⟩
  | .newobj => ⟨0x73, "newobj", .token, .calls⟩
  | .castclass => ⟨0x74, "castclass", .token, .sequential⟩
  | .isinst => ⟨0x75, "isinst", .token, .sequential⟩
  | .convRUn => ⟨0x76, "conv.r.un", .none, .sequential⟩
  | .unbox => ⟨0x79, "unbox", .token, .sequential⟩
  | .throw => ⟨0x7a, "throw", .none, .raises⟩
  | .ldfld => ⟨0x7b, "ldfld", .token, .sequential⟩
  | .ldflda => ⟨0x7c, "ldflda", .token, .sequential⟩
  | .stfld => ⟨0x7d, "stfld", .token, .sequential⟩
  | .ldsfld => ⟨0x7e, "ldsfld", .token, .sequential⟩
  | .ldsflda => ⟨0x7f, "ldsflda", .token, .sequential⟩
  | .stsfld => ⟨0x80, "stsfld", .token, .sequential⟩
  | .stobj => ⟨0x81, "stobj", .token, .sequential⟩
  | .convOvfI1Un => ⟨0x82, "conv.ovf.i1.un", .none, .sequential⟩
  | .convOvfI2Un => ⟨0x83, "conv.ovf.i2.un", .none, .sequential⟩
  | .convOvfI4Un => ⟨0x84, "conv.ovf.i4.un", .none, .sequential⟩
  | .convOvfI8Un => ⟨0x85, "conv.ovf.i8.un", .none, .sequential⟩
  | .convOvfU1Un => ⟨0x86, "conv.ovf.u1.un", .none, .sequential⟩
  | .convOvfU2Un => ⟨0x87, "conv.ovf.u2.un", .none, .sequential⟩
  | .convOvfU4Un => ⟨0x88, "conv.ovf.u4.un", .none, .sequential⟩
  | .convOvfU8Un => ⟨0x89, "conv.ovf.u8.un", .none, .sequential⟩
  | .convOvfIUn => ⟨0x8a, "conv.ovf.i.un", .none, .sequential⟩
  | .convOvfUUn => ⟨0x8b, "conv.ovf.u.un", .none, .sequential⟩
  | .box => ⟨0x8c, "box", .token, .sequential⟩
  | .newarr => ⟨0x8d, "newarr", .token, .sequential⟩
  | .ldlen => ⟨0x8e, "ldlen", .none, .sequential⟩
  | .ldelema => ⟨0x8f, "ldelema", .token, .sequential⟩
  | .ldelemI1 => ⟨0x90, "ldelem.i1", .none, .sequential⟩
  | .ldelemU1 => ⟨0x91, "ldelem.u1", .none, .sequential⟩
  | .ldelemI2 => ⟨0x92, "ldelem.i2", .none, .sequential⟩
  | .ldelemU2 => ⟨0x93, "ldelem.u2", .none, .sequential⟩
  | .ldelemI4 => ⟨0x94, "ldelem.i4", .none, .sequential⟩
  | .ldelemU4 => ⟨0x95, "ldelem.u4", .none, .sequential⟩
  | .ldelemI8 => ⟨0x96, "ldelem.i8", .none, .sequential⟩
  | .ldelemI => ⟨0x97, "ldelem.i", .none, .sequential⟩
  | .ldelemR4 => ⟨0x98, "ldelem.r4", .none, .sequential⟩
  | .ldelemR8 => ⟨0x99, "ldelem.r8", .none, .sequential⟩
  | .ldelemRef => ⟨0x9a, "ldelem.ref", .none, .sequential⟩
  | .stelemI => ⟨0x9b, "stelem.i", .none, .sequential⟩
  | .stelemI1 => ⟨0x9c, "stelem.i1", .none, .sequential⟩
  | .stelemI2 => ⟨0x9d, "stelem.i2", .none, .sequential⟩
  | .stelemI4 => ⟨0x9e, "stelem.i4", .none, .sequential⟩
  | .stelemI8 => ⟨0x9f, "stelem.i8", .none, .sequential⟩
  | .stelemR4 => ⟨0xa0, "stelem.r4", .none, .sequential⟩
  | .stelemR8 => ⟨0xa1, "stelem.r8", .none, .sequential⟩
  | .stelemRef => ⟨0xa2, "stelem.ref", .none, .sequential⟩
  | .ldelem => ⟨0xa3, "ldelem", .token, .sequential⟩
  | .stelem => ⟨0xa4, "stelem", .token, .sequential⟩
  | .unboxAny => ⟨0xa5, "unbox.any", .token, .sequential⟩
  | .convOvfI1 => ⟨0xb3, "conv.ovf.i1", .none, .sequential⟩
  | .convOvfU1 => ⟨0xb4, "conv.ovf.u1", .none, .sequential⟩
  | .convOvfI2 => ⟨0xb5, "conv.ovf.i2", .none, .sequential⟩
  | .convOvfU2 => ⟨0xb6, "conv.ovf.u2", .none, .sequential⟩
  | .convOvfI4 => ⟨0xb7, "conv.ovf.i4", .none, .sequential⟩
  | .convOvfU4 => ⟨0xb8, "conv.ovf.u4", .none, .sequential⟩
  | .convOvfI8 => ⟨0xb9, "conv.ovf.i8", .none, .sequential⟩
  | .convOvfU8 => ⟨0xba, "conv.ovf.u8", .none, .sequential⟩
  | .refanyval => ⟨0xc2, "refanyval", .token, .sequential⟩
  | .ckfinite => ⟨0xc3, "ckfinite", .none, .sequential⟩
  | .mkrefany => ⟨0xc6, "mkrefany", .token, .sequential⟩
  | .ldtoken => ⟨0xd0, "ldtoken", .token, .sequential⟩
  | .convU2 => ⟨0xd1, "conv.u2", .none, .sequential⟩
  | .convU1 => ⟨0xd2, "conv.u1", .none, .sequential⟩
  | .convI => ⟨0xd3, "conv.i", .none, .sequential⟩
  | .convOvfI => ⟨0xd4, "conv.ovf.i", .none, .sequential⟩
  | .convOvfU => ⟨0xd5, "conv.ovf.u", .none, .sequential⟩
  | .addOvf => ⟨0xd6, "add.ovf", .none, .sequential⟩
  | .addOvfUn => ⟨0xd7, "add.ovf.un", .none, .sequential⟩
  | .mulOvf => ⟨0xd8, "mul.ovf", .none, .sequential⟩
  | .mulOvfUn => ⟨0xd9, "mul.ovf.un", .none, .sequential⟩
  | .subOvf => ⟨0xda, "sub.ovf", .none, .sequential⟩
  | .subOvfUn => ⟨0xdb, "sub.ovf.un", .none, .sequential⟩
  | .endfinally => ⟨0xdc, "endfinally", .none, .endsHandler⟩
  | .leave => ⟨0xdd, "leave", .branch, .leaves⟩
  | .leaveS => ⟨0xde, "leave.s", .shortBranch, .leaves⟩
  | .stindI => ⟨0xdf, "stind.i", .none, .sequential⟩
  | .convU => ⟨0xe0, "conv.u", .none, .sequential⟩
  | .arglist => ⟨0xfe00, "arglist", .none, .sequential⟩
  | .ceq => ⟨0xfe01, "ceq", .none, .sequential⟩
  | .cgt => ⟨0xfe02, "cgt", .none, .sequential⟩
  | .cgtUn => ⟨0xfe03, "cgt.un", .none, .sequential⟩
  | .clt => ⟨0xfe04, "clt", .none, .sequential⟩
  | .cltUn => ⟨0xfe05, "clt.un", .none, .sequential⟩
  | .ldftn => ⟨0xfe06, "ldftn", .token, .sequential⟩
  | .ldvirtftn => ⟨0xfe07, "ldvirtftn", .token, .sequential⟩
  | .ldarg => ⟨0xfe09, "ldarg", .uint16, .sequential⟩
  | .ldarga => ⟨0xfe0a, "ldarga", .uint16, .sequential⟩
  | .starg => ⟨0xfe0b, "starg", .uint16, .sequential⟩
  | .ldloc => ⟨0xfe0c, "ldloc", .uint16, .sequential⟩
  | .ldloca => ⟨0xfe0d, "ldloca", .uint16, .sequential⟩
  | .stloc => ⟨0xfe0e, "stloc", .uint16, .sequential⟩
  | .localloc => ⟨0xfe0f, "localloc", .none, .sequential⟩
  | .endfilter => ⟨0xfe11, "endfilter", .none, .endsHandler⟩
  | .unaligned => ⟨0xfe12, "unaligned.", .uint8, .sequential⟩
  | .volatile => ⟨0xfe13, "volatile.", .none, .sequential⟩
  | .tail => ⟨0xfe14, "tail.", .none, .sequential⟩
  | .initobj => ⟨0xfe15, "initobj", .token, .sequential⟩
  | .constrained => ⟨0xfe16, "constrained.", .token, .sequential⟩
  | .cpblk => ⟨0xfe17, "cpblk", .none, .sequential⟩
  | .initblk => ⟨0xfe18, "initblk", .none, .sequential⟩
  | .no => ⟨0xfe19, "no.", .uint8, .sequential⟩
  | .rethrow => ⟨0xfe1a, "rethrow", .none, .raises⟩
  | .sizeof => ⟨0xfe1c, "sizeof", .token, .sequential⟩
  | .refanytype => ⟨0xfe1d, "refanytype", .none, .sequential⟩
  | .readonly => ⟨0xfe1e, "readonly.", .none, .sequential⟩

/-- Every opcode, in the order of the codes. -/
def all : List OpCode :=
  [.nop, .breakpoint, .ldarg0, .ldarg1, .ldarg2, .ldarg3, .ldloc0, .ldloc1, .ldloc2, .ldloc3,
   .stloc0, .stloc1, .stloc2, .stloc3, .ldargS, .ldargaS, .stargS, .ldlocS, .ldlocaS, .stlocS,
   .ldnull, .ldcI4M1, .ldcI40, .ldcI41, .ldcI42, .ldcI43, .ldcI44, .ldcI45, .ldcI46, .ldcI47,
   .ldcI48, .ldcI4S, .ldcI4, .ldcI8, .ldcR4, .ldcR8, .dup, .pop, .jmp, .call, .calli, .ret, .brS,
   .brfalseS, .brtrueS, .beqS, .bgeS, .bgtS, .bleS, .bltS, .bneUnS, .bgeUnS, .bgtUnS, .bleUnS,
   .bltUnS, .br, .brfalse, .brtrue, .beq, .bge, .bgt, .ble, .blt, .bneUn, .bgeUn, .bgtUn, .bleUn,
   .bltUn, .switch, .ldindI1, .ldindU1, .ldindI2, .ldindU2, .ldindI4, .ldindU4, .ldindI8,
   .ldindI, .ldindR4, .ldindR8, .ldindRef, .stindRef, .stindI1, .stindI2, .stindI4, .stindI8,
   .stindR4, .stindR8, .add, .sub, .mul, .div, .divUn, .rem, .remUn, .and, .or, .xor, .shl, .shr,
   .shrUn, .neg, .not, .convI1, .convI2, .convI4, .convI8, .convR4, .convR8, .convU4, .convU8,
   .callvirt, .cpobj, .ldobj, .ldstr, .newobj, .castclass, .isinst, .convRUn, .unbox, .throw,
   .ldfld, .ldflda, .stfld, .ldsfld, .ldsflda, .stsfld, .stobj, .convOvfI1Un, .convOvfI2Un,
   .convOvfI4Un, .convOvfI8Un, .convOvfU1Un, .convOvfU2Un, .convOvfU4Un, .convOvfU8Un,
   .convOvfIUn, .convOvfUUn, .box, .newarr, .ldlen, .ldelema, .ldelemI1, .ldelemU1, .ldelemI2,
   .ldelemU2, .ldelemI4, .ldelemU4, .ldelemI8, .ldelemI, .ldelemR4, .ldelemR8, .ldelemRef,
   .stelemI, .stelemI1, .stelemI2, .stelemI4, .stelemI8, .stelemR4, .stelemR8, .stelemRef,
   .ldelem, .stelem, .unboxAny, .convOvfI1, .convOvfU1, .convOvfI2, .convOvfU2, .convOvfI4,
   .convOvfU4, .convOvfI8, .convOvfU8, .refanyval, .ckfinite, .mkrefany, .ldtoken, .convU2,
   .convU1, .convI, .convOvfI, .convOvfU, .addOvf, .addOvfUn, .mulOvf, .mulOvfUn, .subOvf,
   .subOvfUn, .endfinally, .leave, .leaveS, .stindI, .convU, .arglist, .ceq, .cgt, .cgtUn, .clt,
   .cltUn, .ldftn, .ldvirtftn, .ldarg, .ldarga, .starg, .ldloc, .ldloca, .stloc, .localloc,
   .endfilter, .unaligned, .volatile, .tail, .initobj, .constrained, .cpblk, .initblk, .no,
   .rethrow, .sizeof, .refanytype, .readonly]

/-- The encoded value. -/
def code (op : OpCode) : UInt16 := op.spec.code

/-- The name in assembler text. -/
def mnemonic (op : OpCode) : String := op.spec.mnemonic

/-- The layout of the operand. -/
def operand (op : OpCode) : OperandKind := op.spec.operand

/-- The effect on control flow. -/
def flow (op : OpCode) : Flow := op.spec.flow

/-- The opcode with the given encoded value. -/
def ofCode? (code : UInt16) : Option OpCode := all.find? (·.code == code)

/-- The opcode with the given name. -/
def ofMnemonic? (mnemonic : String) : Option OpCode := all.find? (·.mnemonic == mnemonic)

/-- The byte in front of the second byte of a two-byte opcode. -/
def escape : UInt8 := 0xFE

/-- The opcode is written as the escape byte and a second byte. -/
def isEscaped (op : OpCode) : Bool := 0xFF < op.code

/-- The number of bytes of the opcode itself. -/
def size (op : OpCode) : Nat := if op.isEscaped then 2 else 1

/-- The operand is the distance to a target; `leave` is a branch as well. -/
def isBranch (op : OpCode) : Bool :=
  match op.operand with
  | .shortBranch | .branch => true
  | _ => false

/-! ## Short and long branches -/

/-- The branches with a short and a long form, in this order. -/
def branchForms : List (OpCode × OpCode) :=
  [(.brS, .br), (.brfalseS, .brfalse), (.brtrueS, .brtrue), (.beqS, .beq), (.bgeS, .bge),
   (.bgtS, .bgt), (.bleS, .ble), (.bltS, .blt), (.bneUnS, .bneUn), (.bgeUnS, .bgeUn),
   (.bgtUnS, .bgtUn), (.bleUnS, .bleUn), (.bltUnS, .bltUn), (.leaveS, .leave)]

/-- The long form of a short branch. -/
def longBranch? (op : OpCode) : Option OpCode := (branchForms.find? (·.1 == op)).map (·.2)

/-- The short form of a long branch. -/
def shortBranch? (op : OpCode) : Option OpCode := (branchForms.find? (·.2 == op)).map (·.1)

/-! ## The table -/

theorem code_of_ofCode? {code : UInt16} {op : OpCode} (h : ofCode? code = some op) :
    op.code = code := by
  simpa using List.find?_some h

theorem getElem?_all (op : OpCode) : all[op.ctorIdx]? = some op := by
  cases op <;> rfl

theorem mem_all (op : OpCode) : op ∈ all := List.mem_of_getElem? (getElem?_all op)

/-- Each number is below the next one. -/
def isAscending : List Nat → Bool
  | a :: b :: l => a < b && isAscending (b :: l)
  | _ => true

theorem lt_of_isAscending {a : Nat} {l : List Nat} (h : isAscending (a :: l) = true) :
    ∀ b ∈ l, a < b := by
  induction l generalizing a with
  | nil => simp
  | cons c l ih =>
    simp only [isAscending, Bool.and_eq_true, decide_eq_true_eq] at h
    intro b hb
    rcases List.mem_cons.1 hb with rfl | hb
    · exact h.1
    · exact Nat.lt_trans h.1 (ih h.2 b hb)

theorem isAscending_tail {a : Nat} {l : List Nat} (h : isAscending (a :: l) = true) :
    isAscending l = true := by
  cases l with
  | nil => rfl
  | cons c l =>
    simp only [isAscending, Bool.and_eq_true, decide_eq_true_eq] at h
    exact h.2

theorem eq_of_isAscending_map {α : Type} (f : α → Nat) {l : List α}
    (h : isAscending (l.map f) = true) {a b : α} (ha : a ∈ l) (hb : b ∈ l) (hab : f a = f b) :
    a = b := by
  induction l with
  | nil => cases ha
  | cons c l ih =>
    have hlt := lt_of_isAscending h
    rcases List.mem_cons.1 ha with rfl | ha' <;> rcases List.mem_cons.1 hb with rfl | hb'
    · rfl
    · have := hlt _ (List.mem_map_of_mem hb'); omega
    · have := hlt _ (List.mem_map_of_mem ha'); omega
    · exact ih (isAscending_tail h) ha' hb'

/-- The table is ordered by code. -/
theorem isAscending_codes : isAscending (all.map fun op => op.code.toNat) = true := by
  decide +kernel

/-- No two opcodes share a code. -/
theorem code_injective {a b : OpCode} (h : a.code = b.code) : a = b := by
  have hab : a.code.toNat = b.code.toNat := congrArg UInt16.toNat h
  exact eq_of_isAscending_map _ isAscending_codes (mem_all a) (mem_all b) hab

/-- Every opcode is found under its code. -/
theorem ofCode?_code (op : OpCode) : ofCode? op.code = some op := by
  have hsome : (ofCode? op.code).isSome = true :=
    List.find?_isSome.2 ⟨op, mem_all op, by simp⟩
  obtain ⟨found, hfound⟩ := Option.isSome_iff_exists.1 hsome
  rw [hfound, code_injective (code_of_ofCode? hfound)]

end OpCode

end CilGraft
