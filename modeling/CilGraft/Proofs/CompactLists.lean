import CilGraft.Proofs.ShorteningOrder

/-!
# What a compact list is

A compact list does what the list did, can be written, and is nearly the shortest that does.  Every
instruction but a branch is as small as its operation allows.  A branch is long only when it alone
could not be shortened: several branches that jump over each other may stay long although they could
all be short.

* `Instruction.expand_eq_canonical` — the canonical form depends on the operation only.
* `Instruction.size_compact_expand_le` — the compact form of an operation is its smallest one.
* `optimize_keeps_meaning` — **a compact list does what the list did, and can be written**.
* `normalize_shortest_iff` — it is the shortest list that does exactly when no list with more short
  branches can be written.
* `crossing_not_shortest` — two branches that stay long although both could be short.
-/

set_option autoImplicit false

namespace CilGraft

/-! ## The canonical form of an operation -/

/-- The opcode of an access with an index of two bytes. -/
def Access.opcode : Access → Variable → OpCode
  | .load, .argument => .ldarg
  | .load, .local => .ldloc
  | .loadAddress, .argument => .ldarga
  | .loadAddress, .local => .ldloca
  | .store, .argument => .starg
  | .store, .local => .stloc

/-- The opcode of a long branch. -/
def Jump.opcode : Jump → OpCode
  | .always => .br
  | .ifFalse => .brfalse
  | .ifTrue => .brtrue
  | .eq => .beq
  | .ge => .bge
  | .gt => .bgt
  | .le => .ble
  | .lt => .blt
  | .neUn => .bneUn
  | .geUn => .bgeUn
  | .gtUn => .bgtUn
  | .leUn => .bleUn
  | .ltUn => .bltUn
  | .leave => .leave

/-- The instruction whose operand reaches every index, constant and distance. -/
def Operation.canonical : Operation → Instruction
  | .access a v n => ⟨a.opcode v, .uint16 (UInt16.ofNat n)⟩
  | .constant c => ⟨.ldcI4, .int32 (Int32.ofInt c)⟩
  | .jump c o => ⟨c.opcode, o⟩
  | .other op o => ⟨op, o⟩

namespace OpCode

variable {op : OpCode} {a : Access} {v : Variable}

theorem eq_opcode_of_index16 (h : op.form = .index16 a v) : op = a.opcode v := by
  unfold form at h
  split at h <;> cases h <;> rfl

theorem longIndexed?_of_index8 (h : op.form = .index8 a v) :
    op.fixedIndex? = none ∧ op.longIndexed? = some (a.opcode v) := by
  unfold form at h
  split at h <;> cases h <;> exact ⟨rfl, rfl⟩

theorem fixedIndex?_of_fixedIndex {n : Nat} (h : op.form = .fixedIndex a v n) :
    op.fixedIndex? = some (a.opcode v, UInt16.ofNat n) := by
  unfold form at h
  split at h <;> cases h <;> rfl

theorem fixedConstant?_of_fixedConstant {c : Int} (h : op.form = .fixedConstant c) :
    op.fixedIndex? = none ∧ op.longIndexed? = none ∧ op.fixedConstant? = some (Int32.ofInt c) := by
  unfold form at h
  split at h <;> cases h <;> exact ⟨rfl, rfl, rfl⟩

theorem eq_of_constant :
    (op.form = .constant8 → op = .ldcI4S) ∧ (op.form = .constant32 → op = .ldcI4) := by
  constructor <;> intro h <;> unfold form at h <;> split at h <;> cases h <;> rfl

/-- A branch is long, or it has the long form of its condition. -/
theorem longBranch?_of_jump {c : Jump} (h : op.form = .jump c) :
    (op = c.opcode ∧ op.shortBranch?.isSome = true) ∨ op.longBranch? = some c.opcode := by
  unfold form at h
  split at h <;> cases h <;> first | exact Or.inl ⟨rfl, rfl⟩ | exact Or.inr rfl

/-! The compact forms of what the canonical forms are made of. -/

theorem withFixedIndex?_of_fixedIndex? {long : OpCode} {n : UInt16}
    (h : op.fixedIndex? = some (long, n)) : long.withFixedIndex? n = some op := by
  unfold fixedIndex? at h
  split at h <;> cases h <;> rfl

theorem shortIndexed?_of_longIndexed? {long : OpCode} (h : op.longIndexed? = some long) :
    long.shortIndexed? = some op := by
  unfold longIndexed? at h
  split at h <;> cases h <;> rfl

theorem withFixedConstant?_of_fixedConstant? {c : Int32} (h : op.fixedConstant? = some c) :
    withFixedConstant? c = some op := by
  unfold fixedConstant? at h
  split at h <;> cases h <;> rfl

end OpCode

namespace Instruction

theorem expand_of_access {i : Instruction} {a : Access} {v : Variable} {n : Nat}
    (h : i.operation = .access a v n) : i.expand = (Operation.access a v n).canonical := by
  obtain ⟨op, o⟩ := i
  unfold operation at h
  split at h <;> cases h
  · rename_i hform
    dsimp only at hform
    have hlong := @OpCode.longBranch?_of_form op (by rw [hform]; nofun)
    simp only [expand, hlong, expandIndex?, OpCode.fixedIndex?_of_fixedIndex hform,
      Operation.canonical]
  · rename_i n hoperand hform
    dsimp only at hform hoperand
    subst hoperand
    have hlong := @OpCode.longBranch?_of_form op (by rw [hform]; nofun)
    obtain ⟨hfixed, hindexed⟩ := OpCode.longIndexed?_of_index8 hform
    simp only [expand, hlong, expandIndex?, hfixed, hindexed, Operation.canonical,
      UInt16.ofNat_uInt8ToNat]
  · rename_i n hoperand hform
    dsimp only at hform hoperand
    subst hoperand
    obtain rfl := OpCode.eq_opcode_of_index16 hform
    rw [Operation.canonical, UInt16.ofNat_toNat]
    cases a <;> cases v <;> rfl

theorem expand_of_constant {i : Instruction} {c : Int} (h : i.operation = .constant c) :
    i.expand = (Operation.constant c).canonical := by
  obtain ⟨op, o⟩ := i
  unfold operation at h
  split at h <;> cases h
  · rename_i hform
    dsimp only at hform
    have hlong := @OpCode.longBranch?_of_form op (by rw [hform]; nofun)
    obtain ⟨hfixed, hindexed, hconstant⟩ := OpCode.fixedConstant?_of_fixedConstant hform
    simp only [expand, hlong, expandIndex?, hfixed, hindexed, expandConstant?, hconstant,
      Operation.canonical, Option.getD_some]
  · rename_i c hform hoperand
    dsimp only at hform hoperand
    obtain rfl := OpCode.eq_of_constant.1 hform
    subst hoperand
    show (⟨.ldcI4, .int32 c.toInt32⟩ : Instruction) = ⟨.ldcI4, .int32 (Int32.ofInt c.toInt)⟩
    rw [Int32.ofInt_int8ToInt]
  · rename_i c hform hoperand
    dsimp only at hform hoperand
    obtain rfl := OpCode.eq_of_constant.2 hform
    subst hoperand
    show (⟨.ldcI4, .int32 c⟩ : Instruction) = ⟨.ldcI4, .int32 (Int32.ofInt c.toInt)⟩
    rw [Int32.ofInt_toInt]

/-- **The canonical form of an instruction depends on its operation only.** -/
theorem expand_eq_canonical (i : Instruction) : i.expand = i.operation.canonical := by
  cases hoperation : i.operation with
  | other op o =>
    rw [eq_of_operation_other (i.operation_expand.trans hoperation)]
    rfl
  | access a v n => exact expand_of_access hoperation
  | constant c => exact expand_of_constant hoperation
  | jump c o =>
    obtain ⟨op, o'⟩ := i
    unfold operation at hoperation
    split at hoperation <;> cases hoperation
    rename_i hform
    obtain ⟨rfl, -⟩ | hlong := OpCode.longBranch?_of_jump hform
    · cases c <;> rfl
    · simp only [expand, hlong, Operation.canonical]

/-! ## The smallest form of an operation -/

theorem size_plain {op : OpCode} (h : op.form.isFixed = true) : (plain op).size = op.size := by
  rw [@size_of_operand (plain op) 0 (by rw [plain, OpCode.operand_of_isFixed h]; rfl)]
  rfl

theorem size_compactIndex_of_expandIndex? {i j : Instruction} (h : i.expandIndex? = some j) :
    j.compactIndex.size ≤ i.size := by
  obtain ⟨op, o⟩ := i
  unfold expandIndex? at h
  split at h
  · rename_i long n hfixed
    obtain ⟨a, v, hform, -⟩ := OpCode.form_of_fixedIndex? hfixed
    cases h
    simp only [compactIndex, OpCode.withFixedIndex?_of_fixedIndex? hfixed]
    rw [size_plain (by rw [hform]; rfl)]
    exact Nat.le_add_right _ _
  · split at h
    · rename_i long n hindexed hoperand
      obtain ⟨a, v, hform, -⟩ := OpCode.form_of_longIndexed? hindexed
      have hbyte : op.operand = .uint8 := OpCode.operand_of_indexed.1 hform
      have hsize : Instruction.size ⟨op, o⟩ = op.size + 1 :=
        size_of_operand (by rw [hbyte]; rfl)
      have hpos := opcode_size_pos op
      cases h
      simp only [compactIndex, OpCode.shortIndexed?_of_longIndexed? hindexed]
      split
      · rename_i fixed hfixed
        obtain ⟨a', v', -, hform'⟩ := OpCode.form_of_withFixedIndex? hfixed
        have hsmall := fixed.size_le_two
        rw [size_plain (by rw [hform']; rfl), hsize]
        omega
      · have hle : n.toUInt16.toNat ≤ 255 := by
          have := n.toNat_lt
          rw [UInt8.toNat_toUInt16]
          omega
        rw [if_pos hle, hsize]
        exact Nat.le_of_eq (size_of_operand (by rw [hbyte]; rfl))
    · cases h

theorem size_compactConstant_of_expandConstant? {i j : Instruction}
    (h : i.expandConstant? = some j) : j.compact.size ≤ i.size := by
  obtain ⟨op, o⟩ := i
  unfold expandConstant? at h
  split at h
  · rename_i c hfixed
    have hform := OpCode.form_of_fixedConstant? hfixed
    cases h
    show (compactConstant ⟨.ldcI4, .int32 c⟩).size ≤ _
    simp only [compactConstant, OpCode.withFixedConstant?_of_fixedConstant? hfixed]
    rw [size_plain (by rw [hform]; rfl)]
    exact Nat.le_add_right _ _
  · split at h
    · rename_i c hop hoperand
      dsimp only at hop hoperand
      subst hop hoperand
      cases h
      show (compactConstant ⟨.ldcI4, .int32 c.toInt32⟩).size ≤ 2
      simp only [compactConstant]
      split
      · rename_i fixed hfixed
        rw [size_plain (by rw [OpCode.form_of_withFixedConstant? hfixed]; rfl)]
        exact fixed.size_le_two
      · have hshort : fitsShort c.toInt32.toInt = true := by
          have hlo := c.le_toInt
          have hhi := c.toInt_lt
          rw [Int8.toInt_toInt32, fitsShort_iff]
          omega
        rw [if_pos hshort]
        exact Nat.le_refl 2
    · cases h

theorem size_compact_le (i : Instruction) : i.compact.size ≤ i.size := by
  obtain hsame | hsmaller := i.compact_cases
  · exact Nat.le_of_eq (congrArg size hsame)
  · exact hsmaller.size_le

/-- **The compact form of the canonical form is the smallest.** Apart from a short branch, no
instruction is smaller than what it becomes. -/
theorem size_compact_expand_le (i : Instruction) : i.expand.compact.size ≤ i.widen.size := by
  unfold expand
  split
  · rename_i long hlong
    have hwiden : i.widen = ⟨long, i.operand⟩ := by simp only [widen, hlong]
    rw [hwiden]
    exact size_compact_le _
  · rename_i hnone
    rw [widen_of_longBranch?_eq_none hnone]
    split
    · rename_i j hj
      refine Nat.le_trans ?_ (size_compactIndex_of_expandIndex? hj)
      obtain hsame | hsmaller := j.compactIndex.compactConstant_cases
      · exact Nat.le_of_eq (congrArg size hsame)
      · exact hsmaller.size_le
    · cases hj : i.expandConstant? with
      | none => exact size_compact_le i
      | some j => exact size_compactConstant_of_expandConstant? hj

end Instruction

/-! ## Meaning and reach -/

theorem forall₂_of_map_eq {β : Type} {f g : Instruction → β} {xs ys : List Instruction}
    (h : ys.map g = xs.map f) : List.Forall₂ (fun x y => g y = f x) xs ys := by
  have heq : List.Forall₂ (fun a b => b = a) (xs.map f) (ys.map g) := by
    rw [h]
    exact List.forall₂_same.2 fun _ _ => rfl
  exact List.forall₂_map_right_iff.1 (List.forall₂_map_left_iff.1 heq)

/-- **Compact lists do what the list did, and can be written.** The list that is left, whether or
not the work came to its end, does the same instruction by instruction, and is the same where there
is no other form. The work ends with a pass that finds no branch to shorten, or with the error of
one that cannot be made; and for a list that is well formed, has its targets inside and less than
2 GiB with its branches long, it ends well and every branch of the result reaches its target. -/
theorem optimize_keeps_meaning (xs : List Instruction) :
    List.Forall₂ (fun x y => y.operation = x.operation ∧
      ∀ op o, x.operation = .other op o → y = x) xs (optimize xs).1 ∧
    (optimize xs).2 = (shrinkable (optimize xs).1).map (fun _ => ()) ∧
    (∀ marks, shrinkable (optimize xs).1 = .ok marks → marks.any id = false) ∧
    ((∀ i ∈ xs, i.isWellFormed = true) → (∀ i ∈ xs, ∀ t ∈ i.targets, t < xs.length) →
      codeSize (xs.map Instruction.widen) < 0x80000000 →
      (optimize xs).2 = .ok () ∧ ∃ code, encode (optimize xs).1 = .ok code) := by
  have hkept := map_optimize Instruction.operation_compact Instruction.operation_widen
    Instruction.operation_shorten xs
  obtain ⟨-, houtcome, hnone⟩ := optimizeBranches_ends (xs.map Instruction.compact)
  change (optimize xs).2 = (shrinkable (optimize xs).1).map (fun _ => ()) at houtcome
  refine ⟨?_, houtcome, hnone, fun hwf hlt hsize => ?_⟩
  · refine (forall₂_of_map_eq hkept).imp fun x y h => ⟨h, fun op o hother => ?_⟩
    rw [Instruction.eq_of_operation_other (h.trans hother),
      Instruction.eq_of_operation_other hother]
  · obtain ⟨hsize', hfits⟩ := codeFits_optimize hwf hlt hsize
    have hinside : BranchesInside (optimize xs).1 :=
      (branchesInside_of_targets hlt).congr hkept
    obtain ⟨marks, hmarks⟩ := exists_shrinkable hinside (by omega)
    refine ⟨?_, exists_encode_iff.2 ⟨by omega, hfits⟩⟩
    rw [hmarks] at houtcome
    exact houtcome

/-- Branches that reach as far as a byte can, in both directions. -/
def limits : List Instruction :=
  [⟨.ldarg, .uint16 2⟩, ⟨.brtrue, .target 129⟩] ++ List.replicate 127 (.plain .nop) ++
    [⟨.ldcI4, .int32 100⟩, ⟨.br, .target 5⟩, .plain .ret]

theorem limits_keep_meaning :
    (∀ i ∈ limits, i.isWellFormed = true) ∧ (∀ i ∈ limits, ∀ t ∈ i.targets, t < limits.length) ∧
      codeSize (limits.map Instruction.widen) < 0x80000000 ∧
      (optimize limits).2 = .ok () ∧ ∃ code, encode (optimize limits).1 = .ok code := by
  have hwf : ∀ i ∈ limits, i.isWellFormed = true := by decide +kernel
  have hlt : ∀ i ∈ limits, ∀ t ∈ i.targets, t < limits.length := by decide +kernel
  have hsize : codeSize (limits.map Instruction.widen) < 0x80000000 := by decide +kernel
  exact ⟨hwf, hlt, hsize, (optimize_keeps_meaning limits).2.2.2 hwf hlt hsize⟩

/-! ## How short a compact list is -/

namespace Instruction

/-- The instruction is a branch in short form. -/
def isShortBranch (i : Instruction) : Bool := i.opcode.longBranch?.isSome

/-- A branch is three bytes shorter in its short form. -/
theorem size_widen (i : Instruction) :
    i.widen.size = i.size + if i.isShortBranch then 3 else 0 := by
  cases hlong : i.opcode.longBranch? with
  | none => simp [widen, isShortBranch, hlong]
  | some long =>
    obtain ⟨hshort, hbranch, hsize, hsize'⟩ := OpCode.operand_of_longBranch? hlong
    simp only [widen, isShortBranch, hlong, Option.isSome_some, if_true]
    rw [@size_of_operand i 1 (by rw [hshort]; rfl),
      @size_of_operand ⟨long, i.operand⟩ 4 (by rw [hbranch]; rfl)]
    dsimp only
    omega

/-- The two forms of a branch have each other. -/
theorem longBranch?_of_shortBranch? {op short : OpCode} (h : op.shortBranch? = some short) :
    op.longBranch? = none ∧ short.longBranch? = some op := by
  have hall : ∀ op ∈ OpCode.all, ∀ short ∈ op.shortBranch?,
      op.longBranch? = none ∧ short.longBranch? = some op := by
    decide +kernel
  exact hall op op.mem_all short h

theorem widen_shorten (i : Instruction) : i.shorten.widen = i.widen := by
  cases hshort : i.opcode.shortBranch? with
  | none => simp only [shorten, hshort]
  | some short =>
    obtain ⟨hnone, hlong⟩ := longBranch?_of_shortBranch? hshort
    simp only [shorten, hshort, widen, hlong, hnone]

/-- What does the same as a short branch is a branch, and has a short form. -/
theorem isShortBranch_shorten {i j : Instruction} (h : i.operation = j.operation)
    (hj : j.isShortBranch = true) : i.shorten.isShortBranch = true := by
  obtain ⟨long, hlong⟩ := Option.isSome_iff_exists.1 hj
  obtain ⟨hsame, c, hjump⟩ := OpCode.form_of_longBranch? hlong
  have hform : i.opcode.form = .jump c := by
    rw [operation_of_jump j.operand (hsame.trans hjump)] at h
    generalize j.operand = o at h
    unfold operation at h
    split at h <;> cases h
    assumption
  obtain ⟨-, hshort⟩ | hlong := OpCode.longBranch?_of_jump hform
  · obtain ⟨short, hshort⟩ := Option.isSome_iff_exists.1 hshort
    simp only [isShortBranch, shorten, hshort, (longBranch?_of_shortBranch? hshort).2,
      Option.isSome_some]
  · cases hshort : i.opcode.shortBranch? with
    | none => simp only [isShortBranch, shorten, hshort, hlong, Option.isSome_some]
    | some short =>
      rw [(longBranch?_of_shortBranch? hshort).1] at hlong
      cases hlong


end Instruction

/-- The compact form of what an operation needs at most. -/
def Operation.compact (o : Operation) : Instruction := o.canonical.compact

theorem Instruction.compact_expand (i : Instruction) : i.expand.compact = i.operation.compact := by
  rw [i.expand_eq_canonical]
  rfl

theorem Instruction.widen_compact_expand (i : Instruction) :
    i.expand.compact.widen = i.expand.compact := by
  refine widen_of_longBranch?_eq_none ?_
  obtain hsame | hsmaller := i.expand.compact_cases
  · rw [hsame]
    exact i.longBranch?_expand
  · exact hsmaller.notShort

/-- Normalizing: every instruction in its canonical form, and then the compact forms. -/
def normalize (xs : List Instruction) : List Instruction × Except CodeError Unit :=
  optimize (expandAll xs)

theorem widen_normalize (xs : List Instruction) :
    (normalize xs).1.map Instruction.widen =
      (xs.map Instruction.operation).map Operation.compact := by
  rw [normalize, optimize, optimizeBranches, map_shrinkAll Instruction.widen_shorten, expandAll]
  simp only [List.map_map]
  refine List.map_congr_left fun i _ => ?_
  show i.expand.compact.widen.widen = i.operation.compact
  rw [i.widen_compact_expand, i.widen_compact_expand, i.compact_expand]

theorem operation_normalize (xs : List Instruction) :
    (normalize xs).1.map Instruction.operation = xs.map Instruction.operation := by
  rw [normalize, map_optimize Instruction.operation_compact Instruction.operation_widen
    Instruction.operation_shorten, expandAll, List.map_map]
  exact List.map_congr_left fun i _ => i.operation_expand

/-- The second instruction does the same as the first one and, apart from the form of a branch, needs
no more for it. -/
structure Instruction.Compacts (z y : Instruction) : Prop where
  operation : y.operation = z.operation
  size_widen_le : y.widen.size ≤ z.widen.size

namespace Instruction.Compacts

variable {y z : Instruction}

theorem size_shorten_le (h : Compacts z y) (hz : z.isShortBranch = true) :
    y.shorten.size ≤ z.size := by
  have hle := h.size_widen_le
  rw [← y.widen_shorten, size_widen, size_widen, isShortBranch_shorten h.operation hz, hz] at hle
  omega

theorem size_le (h : Compacts z y) (hz : z.isShortBranch = false) : y.size ≤ z.size := by
  have hle := h.size_widen_le
  rw [size_widen, size_widen z, hz] at hle
  simp only [Bool.false_eq_true, if_false] at hle
  omega

/-- Only a branch that is long where the other one is short is larger. -/
theorem size_le_add (h : Compacts z y) :
    y.size ≤ z.size + if y.isLongBranch && z.isShortBranch then 3 else 0 := by
  cases hz : z.isShortBranch with
  | false =>
    have hle := h.size_le hz
    omega
  | true =>
    have hle := h.size_shorten_le hz
    cases hlong : y.opcode.shortBranch? with
    | none =>
      simp only [shorten, hlong] at hle
      omega
    | some short =>
      have hsizes := size_of_shortBranch? hlong
      simp only [isLongBranch, hlong, Option.isSome_some, Bool.and_self, if_true]
      omega

end Instruction.Compacts

/-- The number of branches that are long in the first list and short in the second one. -/
def longWhereShort (ys zs : List Instruction) : Nat :=
  (ys.zip zs).countP fun p => p.1.isLongBranch && p.2.isShortBranch

theorem longWhereShort_le (ys zs : List Instruction) : longWhereShort ys zs ≤ longBranches ys := by
  induction ys generalizing zs with
  | nil => exact Nat.zero_le _
  | cons y ys ih =>
    cases zs with
    | nil => exact Nat.zero_le _
    | cons z zs =>
      have hrest := ih zs
      unfold longWhereShort longBranches at hrest ⊢
      rw [List.zip_cons_cons, List.countP_cons, List.countP_cons]
      refine Nat.add_le_add hrest ?_
      cases y.isLongBranch <;> cases z.isShortBranch <;> decide

/-- The first list with the branches in short form that are short in the second list. -/
def shortenLike (zs ys : List Instruction) : List Instruction :=
  shortenMarked (zs.map Instruction.isShortBranch) ys

section Shortest

variable {xs ys zs : List Instruction}

theorem compacts_normalize (hsame : zs.map Instruction.operation = xs.map Instruction.operation) :
    List.Forall₂ Instruction.Compacts zs (normalize xs).1 := by
  have hop := forall₂_of_map_eq ((operation_normalize xs).trans hsame.symm)
  have hwiden : (normalize xs).1.map Instruction.widen =
      zs.map fun z => z.operation.compact := by
    rw [widen_normalize, ← hsame, List.map_map]
    rfl
  refine hop.mp (fun z y hop hform => ⟨hop, ?_⟩) (forall₂_of_map_eq hwiden)
  rw [hform, ← z.compact_expand]
  exact z.size_compact_expand_le

theorem codeSize_le_of_compacts (h : List.Forall₂ Instruction.Compacts zs ys) :
    codeSize ys ≤ codeSize zs + 3 * longWhereShort ys zs := by
  induction h with
  | nil => exact Nat.le_refl _
  | @cons z y zs ys hhead _ ih =>
    have hle := hhead.size_le_add
    unfold longWhereShort at ih ⊢
    rw [List.zip_cons_cons, List.countP_cons, codeSize, codeSize]
    split at hle <;> simp_all <;> omega

theorem smaller_shortenLike (h : List.Forall₂ Instruction.Compacts zs ys) :
    List.Forall₂ (fun z u => u.size ≤ z.size) zs (shortenLike zs ys) := by
  induction h with
  | nil => exact .nil
  | @cons z y zs ys hhead _ ih =>
    refine .cons ?_ ih
    cases hz : z.isShortBranch with
    | false => exact hhead.size_le hz
    | true => exact hhead.size_shorten_le hz

theorem length_shortenLike (h : List.Forall₂ Instruction.Compacts zs ys) :
    (shortenLike zs ys).length = ys.length := by
  rw [shortenLike, length_shortenMarked (by rw [List.length_map, h.length_eq])]

/-- **Branches that are short in one of two lists can be short together.** -/
theorem codeFits_shortenLike (h : List.Forall₂ Instruction.Compacts zs ys)
    (hsize : codeSize ys < 0x80000000) (hys : CodeFits ys) (hzs : CodeFits zs) :
    codeSize (shortenLike zs ys) < 0x80000000 ∧ CodeFits (shortenLike zs ys) := by
  have hlen : (zs.map Instruction.isShortBranch).length = ys.length := by
    rw [List.length_map, h.length_eq]
  have hsmaller : List.Forall₂ (fun x y => y.size ≤ x.size) ys (shortenLike zs ys) :=
    smaller_shortenMarked hlen
  have hsize' := Nat.lt_of_le_of_lt (codeSize_le hsmaller) hsize
  refine ⟨hsize', fun k u hu => ?_⟩
  have hk := (List.getElem?_eq_some_iff.1 hu).1
  rw [length_shortenLike h] at hk
  have hy : ys[k]? = some ys[k] := List.getElem?_eq_getElem hk
  have hkz : k < zs.length := by rwa [h.length_eq]
  have hz : zs[k]? = some zs[k] := List.getElem?_eq_getElem hkz
  have hcompacts : zs[k].Compacts ys[k] := (List.forall₂_iff_get.1 h).2 k hkz hk
  have hfits := hys k _ hy
  rw [shortenLike, shortenMarked, List.getElem?_zipWith, List.getElem?_map, hy, hz] at hu
  cases hshort : zs[k].isShortBranch with
  | false =>
    obtain rfl : ys[k] = u := by simpa [hshort] using hu
    refine Instruction.fitsAt_of_lt hsize' hfits.wellFormed
      (by rw [length_shortenLike h]; exact hfits.target_lt) fun hkind t ht => ?_
    have hreach := hfits.reaches t ht
    rw [OperandKind.fits, if_pos hkind] at hreach
    exact fitsShort_of_smaller hsmaller hreach
  | true =>
    obtain rfl : ys[k].shorten = u := by simpa [hshort] using hu
    have hfits' := hzs k _ hz
    refine Instruction.fitsAt_of_lt hsize' (Instruction.isWellFormed_shorten hfits.wellFormed)
      (by rw [length_shortenLike h, Instruction.targets_shorten]; exact hfits.target_lt)
      fun _ t ht => ?_
    -- the target is within reach of the short branch of the other list
    rw [Instruction.targets_shorten, ← Instruction.targets_operation hfits.wellFormed,
      hcompacts.operation, Instruction.targets_operation hfits'.wellFormed] at ht
    obtain ⟨long, hlong⟩ := Option.isSome_iff_exists.1 hshort
    have hreach := hfits'.reaches t ht
    rw [OperandKind.fits, if_pos (OpCode.operand_of_longBranch? hlong).1] at hreach
    exact fitsShort_of_smaller (smaller_shortenLike h) hreach

/-- A list in which a branch has been shortened is shorter. -/
theorem codeSize_shortenMarked_lt {marks : List Bool} (hlen : marks.length = ys.length)
    (hne : shortenMarked marks ys ≠ ys) : codeSize (shortenMarked marks ys) < codeSize ys := by
  induction ys generalizing marks with
  | nil => exact absurd (List.zipWith_nil_right ..) hne
  | cons y rest ih =>
    cases marks with
    | nil => cases hlen
    | cons mark marks =>
      have hlen' : marks.length = rest.length := Nat.succ.inj hlen
      have hrest : codeSize (shortenMarked marks rest) ≤ codeSize rest :=
        codeSize_le (smaller_shortenMarked hlen')
      have hcons (y' : Instruction) (hy : (if mark then y.shorten else y) = y') :
          shortenMarked (mark :: marks) (y :: rest) = y' :: shortenMarked marks rest := by
        rw [shortenMarked, List.zipWith_cons_cons, hy]
        rfl
      by_cases hhead : (if mark then y.shorten else y) = y
      · rw [hcons y hhead] at hne ⊢
        have hlt := ih hlen' fun hsame => hne (by rw [hsame])
        exact Nat.add_lt_add_left hlt _
      · -- an instruction that is not what it was is a branch in its short form
        obtain rfl : mark = true := by
          cases mark with
          | true => rfl
          | false => exact absurd rfl hhead
        cases hshort : y.opcode.shortBranch? with
        | none => exact absurd (by simp only [Instruction.shorten, hshort, if_true]) hhead
        | some short =>
          have hsizes := Instruction.size_of_shortBranch? hshort
          rw [hcons y.shorten rfl, codeSize, codeSize]
          omega

theorem codeFits_normalize (hwf : ∀ i ∈ xs, i.isWellFormed = true)
    (hlt : ∀ i ∈ xs, ∀ t ∈ i.targets, t < xs.length)
    (hsize : codeSize (xs.map Instruction.widen) < 0x80000000) :
    codeSize (normalize xs).1 < 0x80000000 ∧ CodeFits (normalize xs).1 := by
  have hmap : (expandAll xs).map Instruction.compact = xs.map fun i => i.expand.compact := by
    rw [expandAll, List.map_map]
    rfl
  have hwf' (i : Instruction) (hi : i ∈ xs) : i.expand.compact.isWellFormed = true :=
    Instruction.isWellFormed_compact (Instruction.isWellFormed_expand (hwf i hi))
  have hsmaller : List.Forall₂ (fun x y => y.size ≤ x.size) (xs.map Instruction.widen)
      ((xs.map fun i => i.expand.compact).map Instruction.widen) := by
    rw [List.map_map, List.forall₂_map_left_iff, List.forall₂_map_right_iff, List.forall₂_same]
    intro i _
    rw [Function.comp_apply, i.widen_compact_expand]
    exact i.size_compact_expand_le
  unfold normalize optimize
  rw [hmap]
  refine codeFits_optimizeBranches ?_ ?_ (Nat.lt_of_le_of_lt (codeSize_le hsmaller) hsize)
  · rw [List.forall_mem_map]
    exact hwf'
  · rw [List.forall_mem_map, List.length_map]
    intro i hi
    rw [← Instruction.targets_operation (hwf' i hi), Instruction.operation_compact,
      Instruction.operation_expand, Instruction.targets_operation (hwf i hi)]
    exact hlt i hi

theorem normalize_eq_ok (hinside : BranchesInside xs)
    (hsize : codeSize (normalize xs).1 < 0x100000000) :
    normalize xs = ((normalize xs).1, .ok ()) := by
  obtain ⟨marks, hmarks⟩ := exists_shrinkable (hinside.congr (operation_normalize xs)) hsize
  obtain ⟨-, houtcome, -⟩ := optimizeBranches_ends ((expandAll xs).map Instruction.compact)
  change (normalize xs).2 = (shrinkable (normalize xs).1).map (fun _ => ()) at houtcome
  rw [hmarks] at houtcome
  exact Prod.ext rfl houtcome

end Shortest

/-- **How short a normalized list is.** Compared with any list that does the same and can be written,
it is longer by at most three bytes for each branch that is long in it and short in the other one:
every other instruction is as small as it can be. It is the shortest of all exactly when no branches
of it can be shortened together. -/
theorem normalize_shortest_iff {xs : List Instruction} (hwf : ∀ i ∈ xs, i.isWellFormed = true)
    (hlt : ∀ i ∈ xs, ∀ t ∈ i.targets, t < xs.length)
    (hsize : codeSize (xs.map Instruction.widen) < 0x80000000) :
    ∃ ys code, normalize xs = (ys, .ok ()) ∧ encode ys = .ok code ∧
      (∀ zs other, zs.map Instruction.operation = xs.map Instruction.operation →
        encode zs = .ok other → code.length ≤ other.length + 3 * longWhereShort ys zs) ∧
      ((∀ zs other, zs.map Instruction.operation = xs.map Instruction.operation →
          encode zs = .ok other → code.length ≤ other.length) ↔
        ∀ marks, marks.length = ys.length → (∃ short, encode (shortenMarked marks ys) = .ok short) →
          shortenMarked marks ys = ys) := by
  obtain ⟨hsize', hfits⟩ := codeFits_normalize hwf hlt hsize
  have hall := normalize_eq_ok (branchesInside_of_targets hlt) (by omega)
  obtain ⟨code, hcode⟩ := exists_encode_iff.2 ⟨by omega, hfits⟩
  refine ⟨(normalize xs).1, code, hall, hcode, fun zs other hsame hother => ?_, ?_, ?_⟩
  · rw [length_of_encode hcode, length_of_encode hother]
    exact codeSize_le_of_compacts (compacts_normalize hsame)
  · rintro hshortest marks hlen ⟨short, hshort⟩
    by_contra hne
    have hlt := codeSize_shortenMarked_lt hlen hne
    have hle := hshortest _ short ((map_shortenMarked Instruction.operation_shorten hlen).trans
      (operation_normalize xs)) hshort
    rw [length_of_encode hcode, length_of_encode hshort] at hle
    omega
  · intro hnone zs other hsame hother
    have hcompacts := compacts_normalize hsame
    obtain ⟨-, hzs⟩ := exists_encode_iff.1 ⟨other, hother⟩
    obtain ⟨hsize'', hfits'⟩ := codeFits_shortenLike hcompacts hsize' hfits hzs
    have hkept : shortenLike zs (normalize xs).1 = (normalize xs).1 :=
      hnone _ (by rw [List.length_map, hcompacts.length_eq])
        ((@exists_encode_iff (shortenLike zs _)).2 ⟨by omega, hfits'⟩)
    have hle := codeSize_le (smaller_shortenLike hcompacts)
    rw [hkept] at hle
    rwa [length_of_encode hcode, length_of_encode hother]

/-- Two branches that jump over each other, across as many instructions as a byte just reaches. -/
def crossing : List Instruction :=
  [⟨.brS, .target 125⟩] ++ List.replicate 123 (.plain .nop) ++ [⟨.brS, .target 0⟩, .plain .ret]

theorem encode_crossing : ∃ code, encode crossing = .ok code ∧ code.length = 128 := by
  obtain ⟨code, hcode, hlen⟩ : ∃ code, (encode crossing).toOption = some code ∧ code.length = 128 :=
    Option.map_eq_some_iff.1 (by decide +kernel)
  exact ⟨code, eq_ok_of_toOption hcode, hlen⟩

theorem encode_normalize_crossing :
    ∃ code, encode (normalize crossing).1 = .ok code ∧ code.length = 134 := by
  obtain ⟨code, hcode, hlen⟩ :
      ∃ code, (encode (normalize crossing).1).toOption = some code ∧ code.length = 134 :=
    Option.map_eq_some_iff.1 (by decide +kernel)
  exact ⟨code, eq_ok_of_toOption hcode, hlen⟩

/-- **Branches that jump over each other can become long.** The list of 128 bytes becomes one of 134
bytes that does the same, for neither branch can be shortened alone. -/
theorem crossing_not_shortest :
    (∀ i ∈ crossing, i.isWellFormed = true) ∧
      (∀ i ∈ crossing, ∀ t ∈ i.targets, t < crossing.length) ∧
      codeSize (crossing.map Instruction.widen) < 0x80000000 ∧
      ∃ code other, encode (normalize crossing).1 = .ok code ∧ encode crossing = .ok other ∧
        other.length = 128 ∧ code.length = 134 := by
  obtain ⟨code, hcode, hlen⟩ := encode_normalize_crossing
  obtain ⟨other, hother, hlen'⟩ := encode_crossing
  exact ⟨by decide +kernel, by decide +kernel, by decide +kernel, code, other, hcode, hother,
    hlen', hlen⟩

/-- Nothing that does the same as the crossing has less than 128 bytes: what normalizing adds is the
difference between the long and the short form of its two branches. -/
theorem crossing_at_least :
    (∀ i ∈ crossing, i.isWellFormed = true) ∧
      (∀ i ∈ crossing, ∀ t ∈ i.targets, t < crossing.length) ∧
      codeSize (crossing.map Instruction.widen) < 0x80000000 ∧
      ∀ zs other, zs.map Instruction.operation = crossing.map Instruction.operation →
        encode zs = .ok other → 128 ≤ other.length := by
  have hwf : ∀ i ∈ crossing, i.isWellFormed = true := by decide +kernel
  have hlt : ∀ i ∈ crossing, ∀ t ∈ i.targets, t < crossing.length := by decide +kernel
  have hsize : codeSize (crossing.map Instruction.widen) < 0x80000000 := by decide +kernel
  refine ⟨hwf, hlt, hsize, fun zs other hsame hother => ?_⟩
  obtain ⟨ys, code, hall, hcode, hbound, -⟩ := normalize_shortest_iff hwf hlt hsize
  have hle := hbound zs other hsame hother
  have hfew := longWhereShort_le ys zs
  have hlong : longBranches (normalize crossing).1 = 2 := by decide +kernel
  obtain ⟨code', hcode', hlen⟩ := encode_normalize_crossing
  rw [hall] at hlong hcode'
  obtain rfl := Except.ok.inj (hcode.symm.trans hcode')
  dsimp only at hlong
  omega

end CilGraft
