import CilGraft.Proofs.Operation
import CilGraft.Proofs.Writable
import Mathlib.Data.List.Forall2

/-!
# Compact lists can be written

Compacting makes instructions smaller and never larger.  Two instructions then come closer or stay
where they are, so that a branch which reached its target still does; and a branch is shortened only
when it reaches its target even if no other branch becomes shorter.

* `codeSize_take_sub_le` — the code between two instructions shrinks with the instructions.
* `isWellFormed_expand`, `isWellFormed_compact`, `size_widen_compact_le` — what the forms of an
  instruction keep.
* `codeFits_shortenMarked` — one pass; `codeFits_shrinkAll` — all of them.
* `codeFits_optimize` — **a list of less than 2 GiB in its longest forms can be written when it is
  compact**.
-/

set_option autoImplicit false

namespace CilGraft

/-! ## Sizes -/

section Sizes

variable {xs ys : List Instruction}

theorem codeSize_take_mono {a b : Nat} (hab : a ≤ b) :
    codeSize (xs.take a) ≤ codeSize (xs.take b) := by
  have h := codeSize_take_le (xs.take b) a
  rwa [List.take_take, Nat.min_eq_left hab] at h

theorem codeSize_take_succ {k : Nat} {i : Instruction} (hk : xs[k]? = some i) :
    codeSize (xs.take (k + 1)) = codeSize (xs.take k) + i.size := by
  rw [List.take_add_one, hk, codeSize_append]
  simp [codeSize]

/-- The code between two instructions shrinks with the instructions. -/
theorem codeSize_take_sub_le (h : List.Forall₂ (fun x y => y.size ≤ x.size) xs ys) {a b : Nat}
    (hab : a ≤ b) :
    codeSize (ys.take b) + codeSize (xs.take a) ≤ codeSize (xs.take b) + codeSize (ys.take a) := by
  induction h generalizing a b with
  | nil => simp
  | cons hsize _ ih =>
    cases b with
    | zero =>
      obtain rfl : a = 0 := by omega
      simp
    | succ b =>
      cases a with
      | zero =>
        have hrest := ih (Nat.zero_le b)
        simp only [List.take_succ_cons, List.take_zero, codeSize] at hrest ⊢
        omega
      | succ a =>
        have hrest := ih (Nat.le_of_succ_le_succ hab)
        simp only [List.take_succ_cons, codeSize]
        omega

theorem codeSize_le (h : List.Forall₂ (fun x y => y.size ≤ x.size) xs ys) :
    codeSize ys ≤ codeSize xs := by
  have hlen := h.length_eq
  have hall := codeSize_take_sub_le h (Nat.zero_le xs.length)
  simp only [List.take_length, List.take_zero, codeSize, hlen] at hall
  rw [← hlen, List.take_length] at hall
  simpa using hall

theorem fitsShort_iff {d : Int} : fitsShort d = true ↔ -128 ≤ d ∧ d ≤ 127 := by
  simp [fitsShort]

/-- A distance that fits one byte still does when instructions have become smaller. -/
theorem fitsShort_of_smaller (h : List.Forall₂ (fun x y => y.size ≤ x.size) xs ys) {a b : Nat}
    (hfits : fitsShort (codeSize (xs.take a) - codeSize (xs.take b)) = true) :
    fitsShort (codeSize (ys.take a) - codeSize (ys.take b)) = true := by
  rw [fitsShort_iff] at hfits ⊢
  obtain hab | hba := Nat.le_total a b
  · have hnew := codeSize_take_sub_le h hab
    have hmono := @codeSize_take_mono ys _ _ hab
    omega
  · have hnew := codeSize_take_sub_le h hba
    have hmono := @codeSize_take_mono ys _ _ hba
    omega

/-- Every distance in a list of less than 2 GiB fits four bytes. -/
theorem fitsLong_of_codeSize_lt (hsize : codeSize xs < 0x80000000) (a b : Nat) :
    fitsLong (codeSize (xs.take a) - codeSize (xs.take b)) = true := by
  have ha := codeSize_take_le xs a
  have hb := codeSize_take_le xs b
  simp only [fitsLong, Bool.and_eq_true, decide_eq_true_eq]
  omega

end Sizes

/-! ## Forms -/

namespace OpCode

/-- A branch is long or short, as is its operand, and has one byte of its own. -/
theorem operand_branchForms : ∀ p ∈ branchForms, p.1.operand = .shortBranch ∧
    p.2.operand = .branch ∧ p.1.size = 1 ∧ p.2.size = 1 := by
  decide

theorem operand_of_longBranch? {op long : OpCode} (h : op.longBranch? = some long) :
    op.operand = .shortBranch ∧ long.operand = .branch ∧ op.size = 1 ∧ long.size = 1 := by
  obtain ⟨⟨short, long'⟩, hfind, rfl⟩ := Option.map_eq_some_iff.1 h
  have hshort : short = op := by simpa using List.find?_some hfind
  subst hshort
  exact operand_branchForms _ (List.mem_of_find?_eq_some hfind)

/-- The long form of a branch is not short. -/
theorem longBranch?_of_longBranch? {op long : OpCode} (h : op.longBranch? = some long) :
    long.longBranch? = none := by
  obtain ⟨-, hbranch, -, -⟩ := operand_of_longBranch? h
  cases hagain : long.longBranch? with
  | none => rfl
  | some _ =>
    rw [(operand_of_longBranch? hagain).1] at hbranch
    cases hbranch

theorem operand_of_shortBranch? {op short : OpCode} (h : op.shortBranch? = some short) :
    short.operand = .shortBranch ∧ op.operand = .branch ∧ short.size = 1 ∧ op.size = 1 := by
  obtain ⟨⟨short', long⟩, hfind, rfl⟩ := Option.map_eq_some_iff.1 h
  have hlong : long = op := by simpa using List.find?_some hfind
  subst hlong
  exact operand_branchForms _ (List.mem_of_find?_eq_some hfind)

/-- Only the branches with a long form are short. -/
theorem operand_ne_shortBranch {op : OpCode} (h : op.longBranch? = none) :
    op.operand ≠ .shortBranch := by
  have hall : ∀ op ∈ OpCode.all, op.longBranch? = none → op.operand ≠ .shortBranch := by
    decide +kernel
  exact hall op op.mem_all h

/-- Where a form has its index, the operand is. -/
theorem operand_of_indexed {op : OpCode} {a : Access} {v : Variable} :
    (op.form = .index8 a v → op.operand = .uint8) ∧
      (op.form = .index16 a v → op.operand = .uint16) := by
  have hall : ∀ op ∈ OpCode.all, (op.form matches .index8 .. → op.operand = .uint8) ∧
      (op.form matches .index16 .. → op.operand = .uint16) := by
    decide +kernel
  obtain ⟨h8, h16⟩ := hall op op.mem_all
  exact ⟨fun h => h8 (by rw [h]), fun h => h16 (by rw [h])⟩

theorem size_le_two (op : OpCode) : op.size ≤ 2 := by
  unfold size
  split <;> omega

/-- A branch has no other form than its long and its short one. -/
theorem longBranch?_of_form {op : OpCode} (h : ∀ c, op.form ≠ .jump c) : op.longBranch? = none := by
  cases hlong : op.longBranch? with
  | none => rfl
  | some long =>
    obtain ⟨hsame, c, hjump⟩ := form_of_longBranch? hlong
    exact absurd (hsame.trans hjump) (h c)

end OpCode

namespace Instruction

theorem size_of_operand {i : Instruction} {n : Nat} (h : i.opcode.operand.size? = some n) :
    i.size = i.opcode.size + n := by
  simp only [size, operandSize, h]

theorem size_mapTargets (f : Nat → Nat) (i : Instruction) : (i.mapTargets f).size = i.size := by
  obtain ⟨op, o⟩ := i
  unfold mapTargets size operandSize
  cases op.operand.size? <;> cases o <;> simp [Operand.mapTargets]

theorem isWellFormed_mapTargets (f : Nat → Nat) (i : Instruction) :
    (i.mapTargets f).isWellFormed = i.isWellFormed := by
  have hkind (o : Operand) (kind : OperandKind) : (o.mapTargets f).isOf kind = o.isOf kind := by
    cases o <;> cases kind <;> rfl
  exact hkind i.operand i.opcode.operand

/-- An operand that is a distance may have any of the two widths. -/
theorem isOf_branch {o : Operand} : o.isOf .branch = o.isOf .shortBranch := by
  cases o <;> rfl

theorem isWellFormed_widen {i : Instruction} (h : i.isWellFormed = true) :
    i.widen.isWellFormed = true := by
  unfold widen
  split
  · rename_i long hlong
    obtain ⟨hshort, hbranch, -, -⟩ := OpCode.operand_of_longBranch? hlong
    unfold isWellFormed at h ⊢
    rw [hshort] at h
    rw [hbranch, isOf_branch, h]
  · exact h

theorem isWellFormed_shorten {i : Instruction} (h : i.isWellFormed = true) :
    i.shorten.isWellFormed = true := by
  unfold shorten
  split
  · rename_i short hshort
    obtain ⟨hshort, hbranch, -, -⟩ := OpCode.operand_of_shortBranch? hshort
    unfold isWellFormed at h ⊢
    rw [hbranch, isOf_branch] at h
    rw [hshort, h]
  · exact h

theorem longBranch?_widen (i : Instruction) : i.widen.opcode.longBranch? = none := by
  unfold widen
  split
  · rename_i long hlong
    exact OpCode.longBranch?_of_longBranch? hlong
  · assumption

/-- A canonical form is that of a branch, or it is well formed and no branch. -/
theorem expand_cases (i : Instruction) :
    i.expand = i.widen ∨
      (i.expand.isWellFormed = true ∧ i.expand.opcode.longBranch? = none) := by
  unfold expand
  split
  · rename_i long hlong
    exact Or.inl (by simp only [widen, hlong])
  · rename_i hnone
    split
    · rename_i j hj
      obtain ⟨op, n, a, v, hform, rfl⟩ : ∃ op n a v, op.form = .index16 a v ∧
          j = ⟨op, .uint16 n⟩ := by
        unfold expandIndex? at hj
        split at hj
        · rename_i hfixed
          obtain ⟨a, v, -, hlong⟩ := OpCode.form_of_fixedIndex? hfixed
          cases hj
          exact ⟨_, _, a, v, hlong, rfl⟩
        · split at hj
          · rename_i hindexed _
            obtain ⟨a, v, -, hlong⟩ := OpCode.form_of_longIndexed? hindexed
            cases hj
            exact ⟨_, _, a, v, hlong, rfl⟩
          · cases hj
      refine Or.inr ⟨?_, OpCode.longBranch?_of_form (fun c hjump => by cases hform.symm.trans hjump)⟩
      simp only [isWellFormed, OpCode.operand_of_indexed.2 hform, Operand.isOf]
    · cases hj : i.expandConstant? with
      | none => exact Or.inl (by simp only [widen, hnone, Option.getD_none])
      | some j =>
        obtain ⟨c, rfl⟩ : ∃ c, j = ⟨.ldcI4, .int32 c⟩ := by
          unfold expandConstant? at hj
          split at hj
          · cases hj
            exact ⟨_, rfl⟩
          · split at hj
            · cases hj
              exact ⟨_, rfl⟩
            · cases hj
        exact Or.inr ⟨rfl, rfl⟩

theorem isWellFormed_expand {i : Instruction} (h : i.isWellFormed = true) :
    i.expand.isWellFormed = true := by
  obtain hbranch | ⟨hwf, -⟩ := i.expand_cases
  · rw [hbranch, isWellFormed_widen h]
  · exact hwf

/-- A canonical form is no short branch. -/
theorem longBranch?_expand (i : Instruction) : i.expand.opcode.longBranch? = none := by
  obtain hbranch | ⟨-, hnone⟩ := i.expand_cases
  · rw [hbranch, longBranch?_widen]
  · exact hnone

/-- The second instruction is well formed, no short branch, and not larger than the first. -/
structure Smaller (i j : Instruction) : Prop where
  wellFormed : j.isWellFormed = true
  notShort : j.opcode.longBranch? = none
  size_le : j.size ≤ i.size

theorem compactIndex_cases (i : Instruction) : i.compactIndex = i ∨ i.Smaller i.compactIndex := by
  obtain ⟨op, o⟩ := i
  unfold compactIndex
  split
  · rename_i n _
    split
    · rename_i fixed hfixed
      obtain ⟨a, v, hform, hfixed⟩ := OpCode.form_of_withFixedIndex? hfixed
      have hnone : fixed.operand = .none := OpCode.operand_of_isFixed (by rw [hfixed]; rfl)
      have hindex := OpCode.operand_of_indexed.2 hform
      have hsmall := fixed.size_le_two
      refine Or.inr ⟨by simp only [isWellFormed, plain, hnone, Operand.isOf],
        OpCode.longBranch?_of_form (fun c hjump => by cases hfixed.symm.trans hjump), ?_⟩
      rw [@size_of_operand (plain fixed) 0 (by rw [plain, hnone]; rfl),
        @size_of_operand ⟨op, o⟩ 2 (by rw [hindex]; rfl), plain]
      dsimp only
      omega
    · split
      · rename_i short hshort
        obtain ⟨a, v, hform, hshort⟩ := OpCode.form_of_shortIndexed? hshort
        have hbyte := OpCode.operand_of_indexed.1 hshort
        have hindex := OpCode.operand_of_indexed.2 hform
        have hsmall := short.size_le_two
        have hpos := opcode_size_pos op
        split
        · refine Or.inr ⟨by simp only [isWellFormed, hbyte, Operand.isOf],
            OpCode.longBranch?_of_form (fun c hjump => by cases hshort.symm.trans hjump), ?_⟩
          rw [@size_of_operand ⟨short, _⟩ 1 (by rw [hbyte]; rfl),
            @size_of_operand ⟨op, o⟩ 2 (by rw [hindex]; rfl)]
          dsimp only
          omega
        · exact Or.inl rfl
      · exact Or.inl rfl
  · exact Or.inl rfl

theorem compactConstant_cases (i : Instruction) :
    i.compactConstant = i ∨ i.Smaller i.compactConstant := by
  obtain ⟨op, o⟩ := i
  unfold compactConstant
  split
  · rename_i c hop hoperand
    dsimp only at hop hoperand
    subst hop hoperand
    split
    · rename_i fixed hfixed
      have hform := OpCode.form_of_withFixedConstant? hfixed
      have hnone : fixed.operand = .none := OpCode.operand_of_isFixed (by rw [hform]; rfl)
      have hsmall := fixed.size_le_two
      refine Or.inr ⟨by simp only [isWellFormed, plain, hnone, Operand.isOf],
        OpCode.longBranch?_of_form (fun c hjump => by cases hform.symm.trans hjump), ?_⟩
      rw [@size_of_operand (plain fixed) 0 (by rw [plain, hnone]; rfl), plain]
      show fixed.size + 0 ≤ 5
      omega
    · split
      · exact Or.inr ⟨rfl, rfl, Nat.le_of_ble_eq_true rfl⟩
      · exact Or.inl rfl
  · exact Or.inl rfl

theorem compact_cases (i : Instruction) : i.compact = i ∨ i.Smaller i.compact := by
  unfold compact
  obtain hconstant | hconstant := i.compactIndex.compactConstant_cases
  · rw [hconstant]
    exact i.compactIndex_cases
  · obtain hindex | hindex := i.compactIndex_cases
    · rw [hindex] at hconstant ⊢
      exact Or.inr hconstant
    · exact Or.inr ⟨hconstant.wellFormed, hconstant.notShort,
        Nat.le_trans hconstant.size_le hindex.size_le⟩

theorem isWellFormed_compact {i : Instruction} (h : i.isWellFormed = true) :
    i.compact.isWellFormed = true := by
  obtain hsame | hsmaller := i.compact_cases
  · rw [hsame, h]
  · exact hsmaller.wellFormed

theorem widen_of_longBranch?_eq_none {i : Instruction} (h : i.opcode.longBranch? = none) :
    i.widen = i := by
  simp only [widen, h]

theorem size_le_size_widen (i : Instruction) : i.size ≤ i.widen.size := by
  unfold widen
  split
  · rename_i long hlong
    obtain ⟨hshort, hbranch, hsize, hsize'⟩ := OpCode.operand_of_longBranch? hlong
    rw [@size_of_operand i 1 (by rw [hshort]; rfl),
      @size_of_operand ⟨long, i.operand⟩ 4 (by rw [hbranch]; rfl)]
    dsimp only
    omega
  · exact Nat.le_refl _

/-- Apart from branches, the compact form is the smallest that compacting goes through. -/
theorem size_widen_compact_le (i : Instruction) : i.compact.widen.size ≤ i.widen.size := by
  obtain hsame | hsmaller := i.compact_cases
  · simp only [hsame, Nat.le_refl]
  · rw [widen_of_longBranch?_eq_none hsmaller.notShort]
    exact Nat.le_trans hsmaller.size_le i.size_le_size_widen

end Instruction

/-! ## One pass -/

theorem reachesShort_eq_true {offsets : List Nat} {count index start : Nat} {i : Instruction}
    (h : reachesShort offsets count index start i = .ok true) :
    ∃ short t, i.opcode.shortBranch? = some short ∧ i.targets = [t] ∧ t < count ∧
      fitsShort (if index < t then ((offsets.getD t 0 : Nat) : Int) - (start + 2 : Nat) - 3
        else ((offsets.getD t 0 : Nat) : Int) - (start + 2 : Nat)) = true := by
  obtain ⟨op, o⟩ := i
  unfold reachesShort at h
  split at h
  · rename_i short t hshort hoperand
    obtain ⟨d, hd, h⟩ := bind_eq_ok_iff.1 h
    obtain ⟨hlt, rfl⟩ := distance_eq_ok_iff.1 hd
    dsimp only at hoperand
    subst hoperand
    exact ⟨short, t, hshort, rfl, hlt, Except.ok.inj h⟩
  · cases h

theorem exists_mark_of_reachesShortFrom {offsets : List Nat} {count index start : Nat}
    {xs : List Instruction} {marks : List Bool}
    (h : reachesShortFrom offsets count index start xs = .ok marks) {k : Nat} {i : Instruction}
    (hk : xs[k]? = some i) :
    ∃ mark, marks[k]? = some mark ∧
      reachesShort offsets count (index + k) (start + codeSize (xs.take k)) i = .ok mark := by
  induction xs generalizing index start marks k with
  | nil => simp at hk
  | cons x rest ih =>
    obtain ⟨here, hhere, h⟩ := bind_eq_ok_iff.1 h
    obtain ⟨others, hothers, h⟩ := bind_eq_ok_iff.1 h
    cases h
    cases k with
    | zero =>
      obtain rfl : x = i := by simpa using hk
      exact ⟨here, rfl, hhere⟩
    | succ k =>
      obtain ⟨mark, hmark, hreaches⟩ := ih hothers hk
      refine ⟨mark, hmark, ?_⟩
      rw [List.take_succ_cons, codeSize, ← Nat.add_assoc start]
      rwa [show index + 1 + k = index + (k + 1) by omega] at hreaches

section Pass

variable {xs : List Instruction} {marks : List Bool}

theorem length_shortenMarked (hlen : marks.length = xs.length) :
    (shortenMarked marks xs).length = xs.length := by
  rw [shortenMarked, List.length_zipWith, hlen, Nat.min_self]

/-- What a pass does to one instruction: nothing, or it shortens a branch that reaches its target
as a short one. -/
theorem shortenMarked_cases (hmarks : shrinkable xs = .ok marks) {k : Nat} {j : Instruction}
    (hj : (shortenMarked marks xs)[k]? = some j) :
    ∃ i, xs[k]? = some i ∧ (j = i ∨ j = i.shorten ∧
      ∃ short t, i.opcode.shortBranch? = some short ∧ i.targets = [t] ∧ t < xs.length ∧
        fitsShort (if k < t then (codeSize (xs.take t) : Int) - codeSize (xs.take k) - 5
          else (codeSize (xs.take t) : Int) - codeSize (xs.take k) - 2) = true) := by
  obtain ⟨offsets, hoffsets, hmarks⟩ := bind_eq_ok_iff.1 hmarks
  obtain ⟨-, rfl⟩ := layout_eq_ok_iff.1 hoffsets
  have hlt := (List.getElem?_eq_some_iff.1 hj).1
  rw [length_shortenMarked (length_of_reachesShortFrom hmarks)] at hlt
  obtain ⟨mark, hmark, hreaches⟩ :=
    exists_mark_of_reachesShortFrom hmarks (List.getElem?_eq_getElem hlt)
  rw [shortenMarked, List.getElem?_zipWith, hmark, List.getElem?_eq_getElem hlt] at hj
  refine ⟨xs[k], List.getElem?_eq_getElem hlt, ?_⟩
  cases mark with
  | false => exact Or.inl (Option.some.inj hj).symm
  | true =>
    obtain ⟨short, t, hshort, htargets, ht, hfits⟩ := reachesShort_eq_true hreaches
    refine Or.inr ⟨(Option.some.inj hj).symm, short, t, hshort, htargets, ht, ?_⟩
    rw [getD_offsetsFrom ht, Nat.zero_add, Nat.zero_add] at hfits
    split at hfits
    · rename_i hforward
      rw [fitsShort_iff] at hfits
      rw [if_pos hforward, fitsShort_iff]
      omega
    · rename_i hbackward
      rw [fitsShort_iff] at hfits
      rw [if_neg hbackward, fitsShort_iff]
      omega

/-- The sizes of the two forms of a branch. -/
theorem Instruction.size_of_shortBranch? {i : Instruction} {short : OpCode}
    (h : i.opcode.shortBranch? = some short) : i.size = 5 ∧ i.shorten.size = 2 := by
  obtain ⟨hshort, hbranch, hsize, hsize'⟩ := OpCode.operand_of_shortBranch? h
  have hform : i.shorten = ⟨short, i.operand⟩ := by simp only [shorten, h]
  rw [hform, @size_of_operand i 4 (by rw [hbranch]; rfl),
    @size_of_operand ⟨short, i.operand⟩ 1 (by rw [hshort]; rfl)]
  dsimp only
  omega

/-- The short form is not larger. -/
theorem Instruction.size_shorten_le (i : Instruction) : i.shorten.size ≤ i.size := by
  cases hshort : i.opcode.shortBranch? with
  | none => simp only [Instruction.shorten, hshort, Nat.le_refl]
  | some short =>
    have hsizes := Instruction.size_of_shortBranch? hshort
    omega

/-- A pass makes no instruction larger. -/
theorem smaller_shortenMarked (hlen : marks.length = xs.length) :
    List.Forall₂ (fun x y => y.size ≤ x.size) xs (shortenMarked marks xs) := by
  induction xs generalizing marks with
  | nil =>
    rw [shortenMarked, List.zipWith_nil_right]
    exact List.Forall₂.nil
  | cons i rest ih =>
    cases marks with
    | nil => cases hlen
    | cons mark marks =>
      refine List.Forall₂.cons ?_ (ih (Nat.succ.inj hlen))
      cases mark with
      | false => exact Nat.le_refl _
      | true => exact i.size_shorten_le

/-- An instruction of a list of less than 2 GiB can be written when its targets are in the list and
reached if it is a short branch. -/
theorem Instruction.fitsAt_of_lt {j : Instruction} {k : Nat} (hsize : codeSize xs < 0x80000000)
    (hwf : j.isWellFormed = true) (hlt : ∀ t ∈ j.targets, t < xs.length)
    (hshort : j.opcode.operand = .shortBranch → ∀ t ∈ j.targets,
      fitsShort (codeSize (xs.take t) - codeSize (xs.take (k + 1))) = true) : j.FitsAt xs k where
  wellFormed := hwf
  target_lt := hlt
  reaches t ht := by
    unfold OperandKind.fits
    split
    · rename_i hkind
      exact hshort hkind t ht
    · exact fitsLong_of_codeSize_lt hsize t (k + 1)

/-- **One pass keeps a list writable.** -/
theorem codeFits_shortenMarked (hsize : codeSize xs < 0x80000000) (hfits : CodeFits xs)
    (hmarks : shrinkable xs = .ok marks) :
    codeSize (shortenMarked marks xs) < 0x80000000 ∧ CodeFits (shortenMarked marks xs) := by
  have hlen := length_of_shrinkable hmarks
  have hsmaller := smaller_shortenMarked hlen
  have hsize' := Nat.lt_of_le_of_lt (codeSize_le hsmaller) hsize
  refine ⟨hsize', fun k j hj => ?_⟩
  have hlen' := length_shortenMarked hlen
  obtain ⟨i, hi, rfl | ⟨rfl, short, t, hshort, htargets, ht, hreach⟩⟩ :=
    shortenMarked_cases hmarks hj
  · have hold := hfits k j hi
    refine Instruction.fitsAt_of_lt hsize' hold.wellFormed (by rw [hlen']; exact hold.target_lt) ?_
    intro hkind t ht
    have hreach := hold.reaches t ht
    rw [OperandKind.fits, if_pos hkind] at hreach
    exact fitsShort_of_smaller hsmaller hreach
  · have hold := hfits k i hi
    have hsizes := Instruction.size_of_shortBranch? hshort
    refine Instruction.fitsAt_of_lt hsize' (Instruction.isWellFormed_shorten hold.wellFormed)
      (by rw [hlen', Instruction.targets_shorten]; exact hold.target_lt) ?_
    intro _ t' ht'
    rw [Instruction.targets_shorten, htargets, List.mem_singleton] at ht'
    subst ht'
    split at hreach
    · -- ahead of the branch only what lies between it and the target counts
      apply fitsShort_of_smaller hsmaller
      rw [codeSize_take_succ hi, hsizes.1, fitsShort_iff]
      rw [fitsShort_iff] at hreach
      omega
    · -- behind the branch its own two bytes count as well
      rename_i hback
      have hbetween := codeSize_take_sub_le hsmaller (Nat.le_of_not_lt hback)
      have hmono := @codeSize_take_mono (shortenMarked marks xs) _ _ (Nat.le_of_not_lt hback)
      rw [codeSize_take_succ hj, hsizes.2, fitsShort_iff]
      rw [fitsShort_iff] at hreach
      omega

end Pass

/-! ## All passes -/

theorem codeFits_shrinkAll (passes : Nat) {xs : List Instruction}
    (hsize : codeSize xs < 0x80000000) (hfits : CodeFits xs) :
    codeSize (shrinkAll passes xs).1 < 0x80000000 ∧ CodeFits (shrinkAll passes xs).1 := by
  induction passes generalizing xs with
  | zero => exact ⟨hsize, hfits⟩
  | succ passes ih =>
    unfold shrinkAll
    split
    · exact ⟨hsize, hfits⟩
    · rename_i marks hmarks
      split
      · obtain ⟨hsize', hfits'⟩ := codeFits_shortenMarked hsize hfits hmarks
        exact ih hsize' hfits'
      · exact ⟨hsize, hfits⟩

/-- The branches of a list of less than 2 GiB with all branches long can be written in the forms
that are chosen for them, whether or not the work comes to its end. -/
theorem codeFits_optimizeBranches {xs : List Instruction} (hwf : ∀ i ∈ xs, i.isWellFormed = true)
    (hlt : ∀ i ∈ xs, ∀ t ∈ i.targets, t < xs.length)
    (hsize : codeSize (xs.map Instruction.widen) < 0x80000000) :
    codeSize (optimizeBranches xs).1 < 0x80000000 ∧ CodeFits (optimizeBranches xs).1 := by
  refine codeFits_shrinkAll _ hsize fun k j hj => ?_
  rw [List.getElem?_map] at hj
  obtain ⟨i, hi, rfl⟩ := Option.map_eq_some_iff.1 hj
  have hmem := List.mem_of_getElem? hi
  refine Instruction.fitsAt_of_lt hsize (Instruction.isWellFormed_widen (hwf i hmem)) ?_ ?_
  · rw [List.length_map, Instruction.targets_widen]
    exact hlt i hmem
  · intro hkind
    exact absurd hkind (OpCode.operand_ne_shortBranch i.longBranch?_widen)

/-- **A list of less than 2 GiB in its longest forms can be written when it is compact**, whether or
not the work comes to its end. -/
theorem codeFits_optimize {xs : List Instruction} (hwf : ∀ i ∈ xs, i.isWellFormed = true)
    (hlt : ∀ i ∈ xs, ∀ t ∈ i.targets, t < xs.length)
    (hsize : codeSize (xs.map Instruction.widen) < 0x80000000) :
    codeSize (optimize xs).1 < 0x80000000 ∧ CodeFits (optimize xs).1 := by
  have hsmaller : List.Forall₂ (fun x y => y.size ≤ x.size) (xs.map Instruction.widen)
      ((xs.map Instruction.compact).map Instruction.widen) := by
    rw [List.map_map, List.forall₂_map_left_iff, List.forall₂_map_right_iff, List.forall₂_same]
    exact fun i _ => i.size_widen_compact_le
  refine codeFits_optimizeBranches ?_ ?_ (Nat.lt_of_le_of_lt (codeSize_le hsmaller) hsize)
  · rw [List.forall_mem_map]
    exact fun i hi => Instruction.isWellFormed_compact (hwf i hi)
  · rw [List.forall_mem_map, List.length_map]
    intro i hi
    rw [Instruction.targets_compact]
    exact hlt i hi

end CilGraft
