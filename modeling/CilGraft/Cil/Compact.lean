import CilGraft.Cil.Canonical
import CilGraft.Cil.Encoding

/-!
# Compact forms

The most compact encoding of a list. Indices and constants are chosen one by one; the branches
depend on each other through the layout and are chosen together: all start long, and as long as
some branch could reach its target in short form, every branch that could is shortened.

* `Instruction.compact` — the most compact index or constant form.
* `reachesShort` — whether one branch would reach its target if it alone were shortened.
* `shrinkable` and `shortenMarked` — one pass over the list; `shrinkAll` — passes until none shortens
  a branch.
* `optimizeBranches`, `optimize` — the branches of a list, and all of its instructions.

A target outside the list, or a list too long to be laid out, stops the work; the list then is
what it had become until then.
-/

set_option autoImplicit false

namespace CilGraft

namespace OpCode

/-- The form with the index in its opcode. -/
def withFixedIndex? (op : OpCode) (index : UInt16) : Option OpCode :=
  match op, index.toNat with
  | .ldarg, 0 => some .ldarg0
  | .ldarg, 1 => some .ldarg1
  | .ldarg, 2 => some .ldarg2
  | .ldarg, 3 => some .ldarg3
  | .ldloc, 0 => some .ldloc0
  | .ldloc, 1 => some .ldloc1
  | .ldloc, 2 => some .ldloc2
  | .ldloc, 3 => some .ldloc3
  | .stloc, 0 => some .stloc0
  | .stloc, 1 => some .stloc1
  | .stloc, 2 => some .stloc2
  | .stloc, 3 => some .stloc3
  | _, _ => none

/-- The form with one byte for the index. -/
def shortIndexed? : OpCode → Option OpCode
  | .ldarg => some .ldargS
  | .ldarga => some .ldargaS
  | .starg => some .stargS
  | .ldloc => some .ldlocS
  | .ldloca => some .ldlocaS
  | .stloc => some .stlocS
  | _ => none

/-- The form that loads the constant without an operand. -/
def withFixedConstant? (v : Int32) : Option OpCode :=
  match v.toInt with
  | -1 => some .ldcI4M1
  | 0 => some .ldcI40
  | 1 => some .ldcI41
  | 2 => some .ldcI42
  | 3 => some .ldcI43
  | 4 => some .ldcI44
  | 5 => some .ldcI45
  | 6 => some .ldcI46
  | 7 => some .ldcI47
  | 8 => some .ldcI48
  | _ => none

end OpCode

namespace Instruction

/-- The most compact form of an instruction with an index of two bytes. -/
def compactIndex (i : Instruction) : Instruction :=
  match i.operand with
  | .uint16 index =>
    match i.opcode.withFixedIndex? index with
    | some op => plain op
    | none =>
      match i.opcode.shortIndexed? with
      | some op => if index.toNat ≤ 255 then ⟨op, .uint8 index.toUInt8⟩ else i
      | none => i
  | _ => i

/-- The most compact form of an instruction that loads a constant of four bytes. -/
def compactConstant (i : Instruction) : Instruction :=
  match i.opcode, i.operand with
  | .ldcI4, .int32 v =>
    match OpCode.withFixedConstant? v with
    | some op => plain op
    | none => if fitsShort v.toInt then ⟨.ldcI4S, .int8 v.toInt8⟩ else i
  | _, _ => i

/-- The most compact form of an instruction that is not a branch. -/
def compact (i : Instruction) : Instruction := i.compactIndex.compactConstant

/-- The short form of a long branch; any other instruction as it is. -/
def shorten (i : Instruction) : Instruction :=
  match i.opcode.shortBranch? with
  | some short => { i with opcode := short }
  | none => i

end Instruction

/-- The bytes by which a branch is shorter in its short form. -/
def branchSaving : Int := 3

/-- The long branch at `index`, which starts at `start`, would reach its target if it were short and
nothing else changed: the end of the branch is two bytes behind its start, and a target behind it
comes closer by what the branch saves. -/
def reachesShort (offsets : List Nat) (count index start : Nat) (i : Instruction) :
    Except CodeError Bool :=
  match i.opcode.shortBranch?, i.operand with
  | some _, .target t => do
    let d ← distance offsets count index t (start + 2)
    .ok (fitsShort (if index < t then d - branchSaving else d))
  | _, _ => .ok false

/-- For the instructions from `index` on, which start at `start`: whether each would reach its target
in short form. -/
def reachesShortFrom (offsets : List Nat) (count index start : Nat) :
    List Instruction → Except CodeError (List Bool)
  | [] => .ok []
  | i :: rest => do
    let here ← reachesShort offsets count index start i
    let others ← reachesShortFrom offsets count (index + 1) (start + i.size) rest
    .ok (here :: others)

/-- The long branches that would reach their targets in short form, in the layout of the list. -/
def shrinkable (xs : List Instruction) : Except CodeError (List Bool) := do
  let offsets ← layout xs
  reachesShortFrom offsets xs.length 0 0 xs

/-- The marked instructions in their short forms. -/
def shortenMarked (marks : List Bool) (xs : List Instruction) : List Instruction :=
  List.zipWith (fun mark i => if mark then i.shorten else i) marks xs

/-- Passes that shorten every branch that can be shortened, until a pass finds none; at most
`passes` of them. -/
def shrinkAll : Nat → List Instruction → List Instruction × Except CodeError Unit
  | 0, xs => (xs, .ok ())
  | passes + 1, xs =>
    match shrinkable xs with
    | .error e => (xs, .error e)
    | .ok marks => if marks.any id then shrinkAll passes (shortenMarked marks xs) else (xs, .ok ())

/-- The branches of the list in their most compact forms. A pass that goes on shortens a branch, so
there is no more than one pass for each instruction and a last one that finds none. -/
def optimizeBranches (xs : List Instruction) : List Instruction × Except CodeError Unit :=
  shrinkAll (xs.length + 1) (xs.map Instruction.widen)

/-- Every instruction of the list in its most compact form. -/
def optimize (xs : List Instruction) : List Instruction × Except CodeError Unit :=
  optimizeBranches (xs.map Instruction.compact)

end CilGraft
