import CilGraft.Cil.Compact
import CilGraft.Steps

/-!
# What an instruction does

Several instructions do the same thing and differ in their encoding. `Instruction.operation` says
what is done: a variable is accessed, a constant is loaded, a branch is taken, or whatever else the
opcode stands for with its operand.

* `OpCode.form` — where the operation of an opcode finds its index, its constant or its target.
* `operation_expand`, `operation_compact`, `operation_widen`, `operation_shorten` — the canonical
  and the compact forms do what the instruction did.
* `map_optimize` — a property of instructions that compact forms keep is kept by a list that is
  optimized, instruction by instruction.
-/

set_option autoImplicit false

namespace CilGraft

/-! ## Operations -/

/-- The two kinds of variables that an instruction names by an index. -/
inductive Variable where
  | argument
  | local
  deriving DecidableEq, Repr

/-- What is done to a variable. -/
inductive Access where
  | load
  | loadAddress
  | store
  deriving DecidableEq, Repr

/-- The condition of a branch, and whether it leaves a protected range. -/
inductive Jump where
  | always | ifFalse | ifTrue | eq | ge | gt | le | lt | neUn | geUn | gtUn | leUn | ltUn | leave
  deriving DecidableEq, Repr

/-- What an instruction does, whichever way it is encoded. -/
inductive Operation where
  | access (access : Access) (kind : Variable) (index : Nat)
  | constant (value : Int)
  | jump (condition : Jump) (operand : Operand)
  | other (opcode : OpCode) (operand : Operand)
  deriving DecidableEq, Repr

namespace Operation

/-- The indices that the operation may transfer control to. -/
def targets : Operation → List Nat
  | jump _ o | other _ o => o.targets
  | _ => []

/-- The operation with every target replaced. -/
def mapTargets (f : Nat → Nat) : Operation → Operation
  | jump c o => jump c (o.mapTargets f)
  | other op o => other op (o.mapTargets f)
  | o => o

/-- The operation ends the method. -/
def isReturn : Operation → Bool
  | other op _ => op == .ret
  | _ => false

@[simp] theorem isReturn_mapTargets (f : Nat → Nat) (o : Operation) :
    (o.mapTargets f).isReturn = o.isReturn := by
  cases o <;> rfl

@[simp] theorem targets_mapTargets (f : Nat → Nat) (o : Operation) :
    (o.mapTargets f).targets = o.targets.map f := by
  cases o <;> simp [targets, mapTargets]

end Operation

/-- Where the operation of an opcode finds its index or its constant, and the condition of a
branch. -/
inductive Form where
  | fixedIndex (access : Access) (kind : Variable) (index : Nat)
  | index8 (access : Access) (kind : Variable)
  | index16 (access : Access) (kind : Variable)
  | fixedConstant (value : Int)
  | constant8
  | constant32
  | jump (condition : Jump)
  | plain
  deriving DecidableEq, Repr

/-- The form of an opcode. -/
def OpCode.form : OpCode → Form
  | .ldarg0 => .fixedIndex .load .argument 0
  | .ldarg1 => .fixedIndex .load .argument 1
  | .ldarg2 => .fixedIndex .load .argument 2
  | .ldarg3 => .fixedIndex .load .argument 3
  | .ldloc0 => .fixedIndex .load .local 0
  | .ldloc1 => .fixedIndex .load .local 1
  | .ldloc2 => .fixedIndex .load .local 2
  | .ldloc3 => .fixedIndex .load .local 3
  | .stloc0 => .fixedIndex .store .local 0
  | .stloc1 => .fixedIndex .store .local 1
  | .stloc2 => .fixedIndex .store .local 2
  | .stloc3 => .fixedIndex .store .local 3
  | .ldargS => .index8 .load .argument
  | .ldargaS => .index8 .loadAddress .argument
  | .stargS => .index8 .store .argument
  | .ldlocS => .index8 .load .local
  | .ldlocaS => .index8 .loadAddress .local
  | .stlocS => .index8 .store .local
  | .ldarg => .index16 .load .argument
  | .ldarga => .index16 .loadAddress .argument
  | .starg => .index16 .store .argument
  | .ldloc => .index16 .load .local
  | .ldloca => .index16 .loadAddress .local
  | .stloc => .index16 .store .local
  | .ldcI4M1 => .fixedConstant (-1)
  | .ldcI40 => .fixedConstant 0
  | .ldcI41 => .fixedConstant 1
  | .ldcI42 => .fixedConstant 2
  | .ldcI43 => .fixedConstant 3
  | .ldcI44 => .fixedConstant 4
  | .ldcI45 => .fixedConstant 5
  | .ldcI46 => .fixedConstant 6
  | .ldcI47 => .fixedConstant 7
  | .ldcI48 => .fixedConstant 8
  | .ldcI4S => .constant8
  | .ldcI4 => .constant32
  | .br | .brS => .jump .always
  | .brfalse | .brfalseS => .jump .ifFalse
  | .brtrue | .brtrueS => .jump .ifTrue
  | .beq | .beqS => .jump .eq
  | .bge | .bgeS => .jump .ge
  | .bgt | .bgtS => .jump .gt
  | .ble | .bleS => .jump .le
  | .blt | .bltS => .jump .lt
  | .bneUn | .bneUnS => .jump .neUn
  | .bgeUn | .bgeUnS => .jump .geUn
  | .bgtUn | .bgtUnS => .jump .gtUn
  | .bleUn | .bleUnS => .jump .leUn
  | .bltUn | .bltUnS => .jump .ltUn
  | .leave | .leaveS => .jump .leave
  | _ => .plain

/-- The index or the constant is part of the opcode. -/
def Form.isFixed : Form → Bool
  | fixedIndex .. | fixedConstant _ => true
  | _ => false

/-- An opcode of a fixed form has no operand. -/
theorem OpCode.operand_of_isFixed {op : OpCode} (h : op.form.isFixed = true) :
    op.operand = .none := by
  have hall : ∀ op ∈ OpCode.all, op.form.isFixed = true → op.operand = .none := by decide +kernel
  exact hall op op.mem_all h

namespace Instruction

/-- What the instruction does. One whose operand is not what the opcode asks for stands for
itself. -/
def operation (i : Instruction) : Operation :=
  match i.opcode.form, i.operand with
  | .fixedIndex a v n, _ => .access a v n
  | .index8 a v, .uint8 n => .access a v n.toNat
  | .index16 a v, .uint16 n => .access a v n.toNat
  | .fixedConstant c, _ => .constant c
  | .constant8, .int8 c => .constant c.toInt
  | .constant32, .int32 c => .constant c.toInt
  | .jump c, o => .jump c o
  | _, o => .other i.opcode o

/-- An operation without another encoding has the very instruction. -/
theorem eq_of_operation_other {i : Instruction} {op : OpCode} {o : Operand}
    (h : i.operation = .other op o) : i = ⟨op, o⟩ := by
  obtain ⟨op', o'⟩ := i
  unfold operation at h
  split at h <;> cases h
  rfl

theorem isReturn_operation (i : Instruction) : i.operation.isReturn = i.isReturn := by
  obtain ⟨op, o⟩ := i
  by_cases hret : op = .ret
  · subst hret
    rfl
  · have hfalse : (op == OpCode.ret) = false := by simpa using hret
    unfold operation isReturn
    split <;> simp [Operation.isReturn, hfalse]

theorem operation_mapTargets (f : Nat → Nat) (i : Instruction) :
    (i.mapTargets f).operation = i.operation.mapTargets f := by
  obtain ⟨op, o⟩ := i
  unfold operation mapTargets
  cases op.form <;> cases o <;> rfl

/-- The targets of a well-formed instruction are those of its operation. -/
theorem targets_operation {i : Instruction} (hwf : i.isWellFormed = true) :
    i.operation.targets = i.targets := by
  obtain ⟨op, o⟩ := i
  have hnone (h : op.form.isFixed = true) : o.targets = [] := by
    unfold isWellFormed at hwf
    rw [OpCode.operand_of_isFixed h] at hwf
    cases o <;> first | rfl | cases hwf
  cases hform : op.form with
  | fixedIndex a v n =>
    rw [targets, hnone (by rw [hform]; rfl)]
    simp only [operation, hform, Operation.targets]
  | fixedConstant c =>
    rw [targets, hnone (by rw [hform]; rfl)]
    simp only [operation, hform, Operation.targets]
  | _ => cases o <;> simp only [operation, hform, Operation.targets, targets, Operand.targets]

end Instruction

/-! ## Canonical forms -/

namespace OpCode

theorem form_branchForms : ∀ p ∈ branchForms, p.1.form = p.2.form ∧
    ∃ c, p.2.form = .jump c := by
  intro p hp
  simp only [branchForms, List.mem_cons, List.not_mem_nil, or_false] at hp
  rcases hp with
    rfl | rfl | rfl | rfl | rfl | rfl | rfl | rfl | rfl | rfl | rfl | rfl | rfl | rfl <;>
  exact ⟨rfl, _, rfl⟩

theorem form_of_longBranch? {op long : OpCode} (h : op.longBranch? = some long) :
    op.form = long.form ∧ ∃ c, long.form = .jump c := by
  obtain ⟨⟨short, long'⟩, hfind, rfl⟩ := Option.map_eq_some_iff.1 h
  have hshort : short = op := by simpa using List.find?_some hfind
  subst hshort
  exact form_branchForms _ (List.mem_of_find?_eq_some hfind)

theorem form_of_shortBranch? {op short : OpCode} (h : op.shortBranch? = some short) :
    short.form = op.form ∧ ∃ c, op.form = .jump c := by
  obtain ⟨⟨short', long⟩, hfind, rfl⟩ := Option.map_eq_some_iff.1 h
  have hlong : long = op := by simpa using List.find?_some hfind
  subst hlong
  exact form_branchForms _ (List.mem_of_find?_eq_some hfind)

theorem form_of_fixedIndex? {op long : OpCode} {n : UInt16} (h : op.fixedIndex? = some (long, n)) :
    ∃ a v, op.form = .fixedIndex a v n.toNat ∧ long.form = .index16 a v := by
  unfold fixedIndex? at h
  split at h <;> cases h <;> exact ⟨_, _, rfl, rfl⟩

theorem form_of_longIndexed? {op long : OpCode} (h : op.longIndexed? = some long) :
    ∃ a v, op.form = .index8 a v ∧ long.form = .index16 a v := by
  unfold longIndexed? at h
  split at h <;> cases h <;> exact ⟨_, _, rfl, rfl⟩

theorem form_of_fixedConstant? {op : OpCode} {c : Int32} (h : op.fixedConstant? = some c) :
    op.form = .fixedConstant c.toInt := by
  unfold fixedConstant? at h
  split at h <;> cases h <;> rfl

theorem form_of_withFixedIndex? {op fixed : OpCode} {n : UInt16}
    (h : op.withFixedIndex? n = some fixed) :
    ∃ a v, op.form = .index16 a v ∧ fixed.form = .fixedIndex a v n.toNat := by
  unfold withFixedIndex? at h
  split at h <;> cases h <;> rename_i hn <;> rw [hn] <;> exact ⟨_, _, rfl, rfl⟩

theorem form_of_shortIndexed? {op short : OpCode} (h : op.shortIndexed? = some short) :
    ∃ a v, op.form = .index16 a v ∧ short.form = .index8 a v := by
  unfold shortIndexed? at h
  split at h <;> cases h <;> exact ⟨_, _, rfl, rfl⟩

theorem form_of_withFixedConstant? {c : Int32} {fixed : OpCode}
    (h : withFixedConstant? c = some fixed) : fixed.form = .fixedConstant c.toInt := by
  unfold withFixedConstant? at h
  split at h <;> cases h <;> rename_i hc <;> rw [hc] <;> rfl

end OpCode

namespace Instruction

section Forms

variable {op : OpCode} (o : Operand)

theorem operation_of_fixedIndex {a : Access} {v : Variable} {n : Nat}
    (h : op.form = .fixedIndex a v n) : operation ⟨op, o⟩ = .access a v n := by
  cases o <;> simp only [operation, h]

theorem operation_of_fixedConstant {c : Int} (h : op.form = .fixedConstant c) :
    operation ⟨op, o⟩ = .constant c := by
  cases o <;> simp only [operation, h]

theorem operation_of_jump {c : Jump} (h : op.form = .jump c) :
    operation ⟨op, o⟩ = .jump c o := by
  cases o <;> simp only [operation, h]

end Forms

theorem operation_widen (i : Instruction) : i.widen.operation = i.operation := by
  obtain ⟨op, o⟩ := i
  unfold widen
  split
  · rename_i long hlong
    obtain ⟨hsame, c, hjump⟩ := OpCode.form_of_longBranch? hlong
    rw [operation_of_jump o hjump, operation_of_jump o (hsame.trans hjump)]
  · rfl

theorem operation_shorten (i : Instruction) : i.shorten.operation = i.operation := by
  obtain ⟨op, o⟩ := i
  unfold shorten
  split
  · rename_i short hshort
    obtain ⟨hsame, c, hjump⟩ := OpCode.form_of_shortBranch? hshort
    rw [operation_of_jump o hjump, operation_of_jump o (hsame.trans hjump)]
  · rfl

theorem operation_of_expandIndex? {i j : Instruction} (h : i.expandIndex? = some j) :
    j.operation = i.operation := by
  obtain ⟨op, o⟩ := i
  unfold expandIndex? at h
  split at h
  · rename_i long n hfixed
    obtain ⟨a, v, hform, hlong⟩ := OpCode.form_of_fixedIndex? hfixed
    cases h
    rw [operation_of_fixedIndex o hform]
    simp only [operation, hlong]
  · split at h
    · rename_i long n hindexed hoperand
      obtain ⟨a, v, hform, hlong⟩ := OpCode.form_of_longIndexed? hindexed
      simp only at hform hoperand
      subst hoperand
      cases h
      simp only [operation, hform, hlong, UInt8.toNat_toUInt16]
    · cases h

theorem operation_of_expandConstant? {i j : Instruction} (h : i.expandConstant? = some j) :
    j.operation = i.operation := by
  obtain ⟨op, o⟩ := i
  unfold expandConstant? at h
  split at h
  · rename_i c hfixed
    cases h
    rw [operation_of_fixedConstant o (OpCode.form_of_fixedConstant? hfixed)]
    rfl
  · split at h
    · rename_i c hop hoperand
      cases h
      simp only at hop hoperand
      subst hop hoperand
      show Operation.constant c.toInt32.toInt = Operation.constant c.toInt
      rw [Int8.toInt_toInt32]
    · cases h

/-- **The canonical form does what the instruction does.** -/
theorem operation_expand (i : Instruction) : i.expand.operation = i.operation := by
  unfold expand
  split
  · rename_i long hlong
    have hwiden := i.operation_widen
    simp only [widen, hlong] at hwiden
    exact hwiden
  · split
    · rename_i j hj
      exact operation_of_expandIndex? hj
    · cases hconstant : i.expandConstant? with
      | none => rfl
      | some j => exact operation_of_expandConstant? hconstant

theorem isReturn_expand (i : Instruction) : i.expand.isReturn = i.isReturn := by
  rw [← isReturn_operation, operation_expand, isReturn_operation]

/-! ## Compact forms -/

theorem operation_compactIndex (i : Instruction) : i.compactIndex.operation = i.operation := by
  obtain ⟨op, o⟩ := i
  unfold compactIndex
  split
  · rename_i n hoperand
    simp only at hoperand
    subst hoperand
    split
    · rename_i fixed hfixed
      obtain ⟨a, v, hform, hfixed⟩ := OpCode.form_of_withFixedIndex? hfixed
      rw [plain, operation_of_fixedIndex .none hfixed]
      simp only [operation, hform]
    · split
      · rename_i short hshort
        obtain ⟨a, v, hform, hshort⟩ := OpCode.form_of_shortIndexed? hshort
        split
        · rename_i hle
          have hn : n.toUInt8.toNat = n.toNat := by
            rw [UInt16.toNat_toUInt8]
            omega
          simp only [operation, hform, hshort, hn]
        · rfl
      · rfl
  · rfl

theorem operation_compactConstant (i : Instruction) :
    i.compactConstant.operation = i.operation := by
  obtain ⟨op, o⟩ := i
  unfold compactConstant
  split
  · rename_i c hop hoperand
    simp only at hop hoperand
    subst hop hoperand
    split
    · rename_i fixed hfixed
      rw [plain, operation_of_fixedConstant .none (OpCode.form_of_withFixedConstant? hfixed)]
      rfl
    · split
      · rename_i hshort
        simp only [fitsShort, Bool.and_eq_true, decide_eq_true_eq] at hshort
        have hc : c.toInt8.toInt = c.toInt := by
          rw [Int32.toInt_toInt8]
          exact Int.bmod_eq_of_le (by omega) (by omega)
        exact congrArg Operation.constant hc
      · rfl
  · rfl

/-- **The compact form does what the instruction does.** -/
theorem operation_compact (i : Instruction) : i.compact.operation = i.operation := by
  rw [compact, operation_compactConstant, operation_compactIndex]

/-! ## Targets -/

theorem targets_widen (i : Instruction) : i.widen.targets = i.targets := by
  unfold widen
  split <;> rfl

theorem targets_shorten (i : Instruction) : i.shorten.targets = i.targets := by
  unfold shorten
  split <;> rfl

theorem targets_compact (i : Instruction) : i.compact.targets = i.targets := by
  have hindex : i.compactIndex.targets = i.targets := by
    unfold compactIndex
    split
    · rename_i n hoperand
      split
      · simp only [targets, plain, hoperand, Operand.targets]
      · split
        · split <;> simp only [targets, hoperand, Operand.targets]
        · rfl
    · rfl
  rw [compact, ← hindex]
  generalize i.compactIndex = j
  unfold compactConstant
  split
  · rename_i c hop hoperand
    split
    · simp only [targets, plain, hoperand, Operand.targets]
    · split <;> simp only [targets, hoperand, Operand.targets]
  · rfl

end Instruction

/-! ## Lists -/

theorem length_of_reachesShortFrom {offsets : List Nat} {count index start : Nat}
    {xs : List Instruction} {marks : List Bool}
    (h : reachesShortFrom offsets count index start xs = .ok marks) : marks.length = xs.length := by
  induction xs generalizing index start marks with
  | nil => cases h; rfl
  | cons i rest ih =>
    obtain ⟨here, -, h⟩ := bind_eq_ok_iff.1 h
    obtain ⟨others, hothers, h⟩ := bind_eq_ok_iff.1 h
    cases h
    rw [List.length_cons, ih hothers, List.length_cons]

theorem length_of_shrinkable {xs : List Instruction} {marks : List Bool}
    (h : shrinkable xs = .ok marks) : marks.length = xs.length := by
  obtain ⟨offsets, -, h⟩ := bind_eq_ok_iff.1 h
  exact length_of_reachesShortFrom h

section Kept

variable {β : Type} {view : Instruction → β}

theorem map_shortenMarked (hshorten : ∀ i : Instruction, view i.shorten = view i)
    {marks : List Bool} {xs : List Instruction} (hlen : marks.length = xs.length) :
    (shortenMarked marks xs).map view = xs.map view := by
  induction xs generalizing marks with
  | nil => cases marks <;> rfl
  | cons i rest ih =>
    cases marks with
    | nil => cases hlen
    | cons mark marks =>
      have hrest := ih (Nat.succ.inj hlen)
      simp only [shortenMarked] at hrest
      simp only [shortenMarked, List.zipWith_cons_cons, List.map_cons, hrest]
      cases mark with
      | true => rw [if_pos rfl, hshorten]
      | false => rw [if_neg Bool.false_ne_true]

theorem map_shrinkAll (hshorten : ∀ i : Instruction, view i.shorten = view i) (passes : Nat)
    (xs : List Instruction) : (shrinkAll passes xs).1.map view = xs.map view := by
  induction passes generalizing xs with
  | zero => rfl
  | succ passes ih =>
    unfold shrinkAll
    split
    · rfl
    · rename_i marks hmarks
      split
      · rw [ih, map_shortenMarked hshorten (length_of_shrinkable hmarks)]
      · rfl

/-- **A property of instructions that no compact form changes is not changed by compacting a
list**, whether or not the work comes to its end. -/
theorem map_optimize (hcompact : ∀ i : Instruction, view i.compact = view i)
    (hwiden : ∀ i : Instruction, view i.widen = view i)
    (hshorten : ∀ i : Instruction, view i.shorten = view i) (xs : List Instruction) :
    (optimize xs).1.map view = xs.map view := by
  rw [optimize, optimizeBranches, map_shrinkAll hshorten, List.map_map, List.map_map]
  refine List.map_congr_left fun i _ => ?_
  exact (hwiden i.compact).trans (hcompact i)

end Kept

end CilGraft
