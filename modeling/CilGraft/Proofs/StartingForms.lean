import CilGraft.Proofs.CompactLists

/-!
# The forms that a list starts from

A list with its branches in any forms becomes the same compact list, for every branch starts long.
An index or a constant is compacted from its canonical form only: one that has a byte for itself
keeps it, even where the opcode could hold it.

* `Instruction.isLoose` — the index or the constant has a byte that it does not need.
* `widen_compact_of_not_loose`, `widen_compact_of_loose` — what an instruction becomes from the form
  in which it is.
* `optimize_eq_normalize_iff` — **a list becomes what its canonical forms become exactly when no
  instruction of it is loose**.
* `loose_kept` — a loose instruction that stays as it is.
-/

set_option autoImplicit false

namespace CilGraft

/-! ## Loose instructions -/

namespace Instruction

/-- The instruction has a byte for an index or a constant that the opcode of another form holds. -/
def isLoose (i : Instruction) : Bool :=
  match i.opcode, i.operand with
  | .ldargS, .uint8 n => n.toNat ≤ 3
  | .ldlocS, .uint8 n => n.toNat ≤ 3
  | .stlocS, .uint8 n => n.toNat ≤ 3
  | .ldcI4S, .int8 c => -1 ≤ c.toInt && c.toInt ≤ 8
  | _, _ => false

/-- Only canonical forms are compacted. -/
theorem compact_of_form {i : Instruction} (hindex : ∀ a v, i.opcode.form ≠ .index16 a v)
    (hconstant : i.opcode.form ≠ .constant32) : i.compact = i := by
  have hsame : i.compactIndex = i := by
    unfold compactIndex
    split
    · split
      · rename_i hfixed
        obtain ⟨a, v, hform, -⟩ := OpCode.form_of_withFixedIndex? hfixed
        exact absurd hform (hindex a v)
      · split
        · rename_i hshort
          obtain ⟨a, v, hform, -⟩ := OpCode.form_of_shortIndexed? hshort
          exact absurd hform (hindex a v)
        · rfl
    · rfl
  rw [compact, hsame]
  unfold compactConstant
  split
  · rename_i hop _
    rw [hop] at hconstant
    exact absurd rfl hconstant
  · rfl

theorem isLoose_of_withFixedIndex? {op long fixed : OpCode} {n : UInt8}
    (hlong : op.longIndexed? = some long)
    (h : long.withFixedIndex? n.toUInt16 = some fixed) : isLoose ⟨op, .uint8 n⟩ = true := by
  have hshort := OpCode.shortIndexed?_of_longIndexed? hlong
  unfold OpCode.withFixedIndex? at h
  rw [UInt8.toNat_toUInt16] at h
  split at h <;> cases h <;> cases hshort <;> rename_i hn <;> simp only [isLoose, hn] <;> decide

theorem isLoose_of_withFixedConstant? {fixed : OpCode} {c : Int8}
    (h : OpCode.withFixedConstant? c.toInt32 = some fixed) : isLoose ⟨.ldcI4S, .int8 c⟩ = true := by
  unfold OpCode.withFixedConstant? at h
  rw [Int8.toInt_toInt32] at h
  split at h <;> cases h <;> rename_i hc <;> simp only [isLoose, hc] <;> decide

/-! ## From any form -/

theorem compactConstant_of_operand {i : Instruction} (h : ∀ c, i.operand ≠ .int32 c) :
    i.compactConstant = i := by
  unfold compactConstant
  split
  · rename_i hoperand
    exact absurd hoperand (h _)
  · rfl

section Forms

variable {op : OpCode}

/-- An opcode that holds its index or its constant is the compact form of what it does. -/
theorem compact_expand_of_isFixed (h : op.form.isFixed = true) :
    (plain op).expand.compact = plain op := by
  cases hform : op.form with
  | fixedIndex a v n =>
    have hlong := @OpCode.longBranch?_of_form op (by simp [hform])
    have hfixed := OpCode.fixedIndex?_of_fixedIndex hform
    simp only [plain, expand, hlong, expandIndex?, hfixed, compact, compactIndex,
      OpCode.withFixedIndex?_of_fixedIndex? hfixed]
    exact compactConstant_of_operand (by simp)
  | fixedConstant c =>
    have hlong := @OpCode.longBranch?_of_form op (by simp [hform])
    obtain ⟨hfixed, hindexed, hconstant⟩ := OpCode.fixedConstant?_of_fixedConstant hform
    simp only [plain, expand, hlong, expandIndex?, hfixed, hindexed, expandConstant?, hconstant,
      Option.getD_some]
    show compactConstant ⟨.ldcI4, .int32 (Int32.ofInt c)⟩ = _
    simp only [compactConstant, OpCode.withFixedConstant?_of_fixedConstant? hconstant]
    rfl
  | _ =>
    rw [hform] at h
    cases h

/-- A byte that holds an index which no opcode holds is the compact form. -/
theorem compact_expand_of_index8 {a : Access} {v : Variable} {n : UInt8}
    (hform : op.form = .index8 a v) (htight : isLoose ⟨op, .uint8 n⟩ = false) :
    (expand ⟨op, .uint8 n⟩).compact = ⟨op, .uint8 n⟩ := by
  have hlong := @OpCode.longBranch?_of_form op (by simp [hform])
  obtain ⟨hfixed, hindexed⟩ := OpCode.longIndexed?_of_index8 hform
  have hnone : (a.opcode v).withFixedIndex? n.toUInt16 = none := by
    cases hsome : (a.opcode v).withFixedIndex? n.toUInt16 with
    | none => rfl
    | some fixed =>
      rw [isLoose_of_withFixedIndex? hindexed hsome] at htight
      cases htight
  have hle : n.toUInt16.toNat ≤ 255 := by
    have hlt := n.toNat_lt
    rw [UInt8.toNat_toUInt16]
    omega
  simp only [expand, hlong, expandIndex?, hfixed, hindexed, compact, compactIndex, hnone,
    OpCode.shortIndexed?_of_longIndexed? hindexed, if_pos hle, UInt8.toUInt8_toUInt16]
  exact compactConstant_of_operand (by simp)

/-- A byte that holds a constant which no opcode holds is the compact form. -/
theorem compact_expand_of_constant8 {c : Int8} (htight : isLoose ⟨.ldcI4S, .int8 c⟩ = false) :
    (expand ⟨.ldcI4S, .int8 c⟩).compact = ⟨.ldcI4S, .int8 c⟩ := by
  have hnone : OpCode.withFixedConstant? c.toInt32 = none := by
    cases hsome : OpCode.withFixedConstant? c.toInt32 with
    | none => rfl
    | some fixed =>
      rw [isLoose_of_withFixedConstant? hsome] at htight
      cases htight
  have hshort : fitsShort c.toInt32.toInt = true := by
    have hlo := c.le_toInt
    have hhi := c.toInt_lt
    rw [Int8.toInt_toInt32, fitsShort_iff]
    omega
  show compactConstant ⟨.ldcI4, .int32 c.toInt32⟩ = _
  simp only [compactConstant, hnone, if_pos hshort, Int8.toInt8_toInt32]

/-- A branch has its long form for the canonical one, and no other form that is compact. -/
theorem compact_expand_of_jump {c : Jump} (o : Operand) (hform : op.form = .jump c) :
    (expand ⟨op, o⟩).compact = widen ⟨op, o⟩ := by
  have hwiden : widen ⟨op, o⟩ = ⟨c.opcode, o⟩ := by
    obtain ⟨rfl, -⟩ | hlong := OpCode.longBranch?_of_jump hform
    · exact widen_of_longBranch?_eq_none (by cases c <;> rfl)
    · simp only [widen, hlong]
  have hjump : c.opcode.form = .jump c := by cases c <;> rfl
  rw [hwiden, expand_eq_canonical, operation_of_jump o hform]
  exact @compact_of_form ⟨c.opcode, o⟩ (by simp [hjump]) (by simp [hjump])

end Forms

/-- **What is not loose becomes what its canonical form becomes**, up to the form of a branch. -/
theorem widen_compact_of_not_loose {i : Instruction} (hwf : i.isWellFormed = true)
    (htight : i.isLoose = false) : i.compact.widen = i.expand.compact := by
  obtain ⟨op, o⟩ := i
  have hcanonical (h : expand ⟨op, o⟩ = ⟨op, o⟩) :
      (compact ⟨op, o⟩).widen = (expand ⟨op, o⟩).compact := by
    rw [← widen_compact_expand, h]
  have hcompact (hjump : ∀ c, op.form ≠ .jump c) (hsame : compact ⟨op, o⟩ = ⟨op, o⟩)
      (h : (expand ⟨op, o⟩).compact = ⟨op, o⟩) :
      (compact ⟨op, o⟩).widen = (expand ⟨op, o⟩).compact := by
    rw [hsame, h, widen_of_longBranch?_eq_none (OpCode.longBranch?_of_form hjump)]
  have hnone (hfixed : op.form.isFixed = true) : o = .none := by
    simp only [isWellFormed, OpCode.operand_of_isFixed hfixed] at hwf
    cases o <;> first | rfl | cases hwf
  cases hform : op.form with
  | fixedIndex a v n =>
    have hfixed : op.form.isFixed = true := by rw [hform]; rfl
    obtain rfl := hnone hfixed
    exact hcompact (by simp [hform]) (compact_of_form (by simp [hform]) (by simp [hform]))
      (compact_expand_of_isFixed hfixed)
  | fixedConstant c =>
    have hfixed : op.form.isFixed = true := by rw [hform]; rfl
    obtain rfl := hnone hfixed
    exact hcompact (by simp [hform]) (compact_of_form (by simp [hform]) (by simp [hform]))
      (compact_expand_of_isFixed hfixed)
  | index8 a v =>
    obtain ⟨n, rfl⟩ : ∃ n, o = .uint8 n := by
      simp only [isWellFormed, OpCode.operand_of_indexed.1 hform] at hwf
      cases o <;> first | exact ⟨_, rfl⟩ | cases hwf
    exact hcompact (by simp [hform]) (compact_of_form (by simp [hform]) (by simp [hform]))
      (compact_expand_of_index8 hform htight)
  | constant8 =>
    obtain rfl := OpCode.eq_of_constant.1 hform
    obtain ⟨c, rfl⟩ : ∃ c, o = .int8 c := by
      cases o <;> first | exact ⟨_, rfl⟩ | cases hwf
    exact hcompact (by simp [hform]) (compact_of_form (by simp [hform]) (by simp [hform]))
      (compact_expand_of_constant8 htight)
  | jump c =>
    rw [compact_of_form (by simp [hform]) (by simp [hform]), compact_expand_of_jump o hform]
  | index16 a v =>
    obtain rfl := OpCode.eq_opcode_of_index16 hform
    exact hcanonical (by cases a <;> cases v <;> rfl)
  | constant32 =>
    obtain rfl := OpCode.eq_of_constant.2 hform
    exact hcanonical rfl
  | plain =>
    refine hcanonical ?_
    rw [expand_eq_canonical]
    simp only [operation, hform, Operation.canonical]

/-- **What is loose stays as it is**, and the compact form of what it does is one byte smaller. -/
theorem widen_compact_of_loose {i : Instruction} (h : i.isLoose = true) :
    i.compact.widen = i ∧ i.expand.compact.size + 1 = i.size := by
  obtain ⟨op, o⟩ := i
  have hindex {n : UInt8} (hn : n.toNat ≤ 3) (op : OpCode)
      (hop : op = .ldarg ∨ op = .ldloc ∨ op = .stloc) :
      (compact ⟨op, .uint16 n.toUInt16⟩).size = 1 := by
    have hcases : n.toNat = 0 ∨ n.toNat = 1 ∨ n.toNat = 2 ∨ n.toNat = 3 := by omega
    rcases hop with rfl | rfl | rfl <;> rcases hcases with hn | hn | hn | hn <;>
      simp only [compact, compactIndex, OpCode.withFixedIndex?, UInt8.toNat_toUInt16, hn] <;> rfl
  unfold isLoose at h
  split at h <;> rename_i hop hoperand <;> dsimp only at hop hoperand
  · subst hop hoperand
    exact ⟨rfl, congrArg (· + 1) (hindex (of_decide_eq_true h) .ldarg (by simp))⟩
  · subst hop hoperand
    exact ⟨rfl, congrArg (· + 1) (hindex (of_decide_eq_true h) .ldloc (by simp))⟩
  · subst hop hoperand
    exact ⟨rfl, congrArg (· + 1) (hindex (of_decide_eq_true h) .stloc (by simp))⟩
  · rename_i c
    subst hop hoperand
    simp only [Bool.and_eq_true, decide_eq_true_eq] at h
    refine ⟨rfl, ?_⟩
    show (compactConstant ⟨.ldcI4, .int32 c.toInt32⟩).size + 1 = 2
    have hcases : c.toInt = -1 ∨ c.toInt = 0 ∨ c.toInt = 1 ∨ c.toInt = 2 ∨ c.toInt = 3 ∨
        c.toInt = 4 ∨ c.toInt = 5 ∨ c.toInt = 6 ∨ c.toInt = 7 ∨ c.toInt = 8 := by omega
    rcases hcases with hc | hc | hc | hc | hc | hc | hc | hc | hc | hc <;>
      simp only [compactConstant, OpCode.withFixedConstant?, Int8.toInt_toInt32, hc] <;> rfl
  · cases h

/-- What is loose is no branch. -/
theorem eq_of_widen_eq {i j : Instruction} (hloose : i.isLoose = true) (h : j.widen = i) :
    j = i := by
  unfold widen at h
  split at h
  · rename_i long hlong
    obtain ⟨-, c, hjump⟩ := OpCode.form_of_longBranch? hlong
    subst h
    unfold isLoose at hloose
    split at hloose <;> rename_i hop _ <;> dsimp only at hop
    all_goals first
      | subst hop
        cases hjump
      | cases hloose
  · exact h

/-- Nothing but a loose instruction becomes other than its canonical form does. -/
theorem widen_compact_eq_iff {i : Instruction} (hwf : i.isWellFormed = true) :
    i.compact.widen = i.expand.compact ↔ i.isLoose = false := by
  refine ⟨fun hsame => ?_, widen_compact_of_not_loose hwf⟩
  by_contra hloose
  obtain ⟨hkept, hsize⟩ := widen_compact_of_loose (by simpa using hloose)
  rw [← hsame, hkept] at hsize
  omega

end Instruction

/-! ## Lists -/

theorem widen_optimize (xs : List Instruction) :
    (optimize xs).1.map Instruction.widen = xs.map fun i => i.compact.widen := by
  rw [optimize, optimizeBranches, map_shrinkAll Instruction.widen_shorten]
  simp only [List.map_map]
  refine List.map_congr_left fun i _ => ?_
  exact Instruction.widen_of_longBranch?_eq_none (Instruction.longBranch?_widen i.compact)

/-- Lists whose instructions have the same long compact forms become the same list. -/
theorem optimize_congr {xs ys : List Instruction}
    (h : (xs.map fun i => i.compact.widen) = ys.map fun i => i.compact.widen) :
    optimize xs = optimize ys := by
  have hlen := congrArg List.length h
  simp only [List.length_map] at hlen
  simp only [optimize, optimizeBranches, List.map_map, List.length_map, hlen]
  exact congrArg _ h

/-- **A compact list and the forms that it comes from.**  A list of well-formed instructions becomes
what its canonical forms become exactly when none of them is loose.  A loose instruction comes out
as it came in, although another form of it is one byte smaller; every other one comes out in the
smallest form of what it does, apart from the choice between the two forms of a branch. -/
theorem optimize_eq_normalize_iff {xs : List Instruction} (hwf : ∀ i ∈ xs, i.isWellFormed = true) :
    (optimize xs = optimize (expandAll xs) ↔ ∀ i ∈ xs, i.isLoose = false) ∧
      List.Forall₂ (fun x y =>
        if x.isLoose then
          y = x ∧ ∃ z : Instruction, z.isWellFormed = true ∧ z.operation = x.operation ∧
            z.size + 1 = y.size
        else ∀ z : Instruction, z.operation = x.operation → y.widen.size ≤ z.widen.size)
        xs (optimize xs).1 := by
  have hcanonical : (expandAll xs).map (fun i => i.compact.widen) =
      xs.map fun i => i.expand.compact := by
    rw [expandAll, List.map_map]
    exact List.map_congr_left fun i _ => i.widen_compact_expand
  refine ⟨⟨fun hsame i hi => ?_, fun htight => optimize_congr ?_⟩, ?_⟩
  · have hforms : (optimize xs).1.map Instruction.widen =
        (optimize (expandAll xs)).1.map Instruction.widen := by rw [hsame]
    rw [widen_optimize, widen_optimize, hcanonical] at hforms
    exact (Instruction.widen_compact_eq_iff (hwf i hi)).1 (List.map_inj_left.1 hforms i hi)
  · rw [hcanonical]
    exact List.map_congr_left fun i hi =>
      (Instruction.widen_compact_eq_iff (hwf i hi)).2 (htight i hi)
  · have hforms := (List.forall₂_and_left xs _).2 ⟨hwf, forall₂_of_map_eq (widen_optimize xs)⟩
    refine hforms.imp fun x y hxy => ?_
    obtain ⟨hx, hy⟩ := hxy
    split
    · rename_i hloose
      obtain ⟨hkept, hsize⟩ := Instruction.widen_compact_of_loose hloose
      obtain rfl := Instruction.eq_of_widen_eq hloose (hy.trans hkept)
      refine ⟨rfl, y.expand.compact, ?_, ?_, hsize⟩
      · exact Instruction.isWellFormed_compact (Instruction.isWellFormed_expand hx)
      · rw [Instruction.operation_compact, Instruction.operation_expand]
    · rename_i htight
      intro z hz
      rw [hy, Instruction.widen_compact_of_not_loose hx (by simpa using htight), x.compact_expand,
        ← hz, ← z.compact_expand]
      exact z.size_compact_expand_le

/-- A list of the longest and the shortest forms, with branches in both forms. -/
def mixedForms : List Instruction :=
  [⟨.ldarg, .uint16 1⟩, .plain .ldloc2, ⟨.ldlocS, .uint8 9⟩, ⟨.brtrueS, .target 6⟩,
    ⟨.ldcI4S, .int8 100⟩, ⟨.br, .target 0⟩, .plain .ret]

theorem mixedForms_any_form :
    (∀ i ∈ mixedForms, i.isWellFormed = true) ∧
      optimize mixedForms = optimize (expandAll mixedForms) := by
  have hwf : ∀ i ∈ mixedForms, i.isWellFormed = true := by decide
  exact ⟨hwf, (optimize_eq_normalize_iff hwf).1.2 (by decide)⟩

/-- An argument that the opcode could name, with a byte for it. -/
def looseArgument : List Instruction := [⟨.ldargS, .uint8 0⟩, .plain .ret]

/-- **A loose instruction stays as it is**, and becomes smaller when its canonical form is compacted
in its place. -/
theorem loose_kept :
    (∀ i ∈ looseArgument, i.isWellFormed = true) ∧
      (∀ i ∈ looseArgument, ∀ t ∈ i.targets, t < looseArgument.length) ∧
      codeSize (looseArgument.map Instruction.widen) < 0x80000000 ∧
      optimize looseArgument = (looseArgument, .ok ()) ∧
      optimize (expandAll looseArgument) = ([.plain .ldarg0, .plain .ret], .ok ()) ∧
      optimize looseArgument ≠ optimize (expandAll looseArgument) := by
  have hkept : optimize looseArgument = (looseArgument, .ok ()) := rfl
  have hsmaller : optimize (expandAll looseArgument) = ([.plain .ldarg0, .plain .ret], .ok ()) := rfl
  refine ⟨by decide, by decide, by decide, hkept, hsmaller, fun hsame => ?_⟩
  rw [hkept, hsmaller] at hsame
  exact absurd (congrArg Prod.fst hsame) (by decide)

end CilGraft
