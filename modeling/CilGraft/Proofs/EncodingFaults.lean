import CilGraft.Proofs.Writable

/-!
# Lists that cannot be encoded

A list is encoded exactly when its end fits 32 bits and each of its instructions is legal where it
stands.  The error of any other list tells of the first instruction that is at fault, and of the
first target of it that cannot be reached.

* `OperandKind.Spans`, `Instruction.LegalAt` — the distances that a branch can go, and the
  instructions that are legal at an index.
* `Instruction.FaultAt` — what is wrong with an instruction; `exists_faultAt_iff` — there is
  something wrong with every instruction that is not legal, and one thing only: `FaultAt.unique`.
* `FirstFault` — the fault of the first instruction that has one; `firstFault_of_encodeFrom`.
* `encode_outcome` — **the lists that are encoded, and the error of all others**.
-/

set_option autoImplicit false

namespace CilGraft

/-! ## Legal instructions -/

/-- The distances that a branch of this kind can go: those of one signed byte, or of four. -/
def OperandKind.Spans (kind : OperandKind) (d : Int) : Prop :=
  if kind = .shortBranch then -128 ≤ d ∧ d ≤ 127 else -2147483648 ≤ d ∧ d ≤ 2147483647

instance (kind : OperandKind) (d : Int) : Decidable (kind.Spans d) := by
  unfold OperandKind.Spans
  infer_instance

theorem OperandKind.fits_iff_spans {kind : OperandKind} {d : Int} :
    kind.fits d = true ↔ kind.Spans d := by
  unfold fits Spans
  split
  · simp only [fitsShort, Bool.and_eq_true, decide_eq_true_eq]
  · simp only [fitsLong, Bool.and_eq_true, decide_eq_true_eq]
    omega

/-- The distance from the end of the instruction at `k` to the start of the one at `t`. -/
def reach (xs : List Instruction) (k t : Nat) : Int :=
  codeSize (xs.take t) - codeSize (xs.take (k + 1))

namespace Instruction

/-- The target is an instruction of the list, at a distance that the instruction at `k` can go. -/
def Reaches (xs : List Instruction) (k : Nat) (i : Instruction) (t : Nat) : Prop :=
  t < xs.length ∧ i.opcode.operand.Spans (reach xs k t)

instance (xs : List Instruction) (k : Nat) (i : Instruction) : DecidablePred (i.Reaches xs k) :=
  fun t => inferInstanceAs (Decidable (t < xs.length ∧ i.opcode.operand.Spans (reach xs k t)))

/-- The operand is of the kind that the opcode asks for, and all of its targets can be reached. -/
structure LegalAt (xs : List Instruction) (k : Nat) (i : Instruction) : Prop where
  wellFormed : i.isWellFormed = true
  reaches : ∀ t ∈ i.targets, i.Reaches xs k t

theorem legalAt_iff_fitsAt {xs : List Instruction} {k : Nat} {i : Instruction} :
    i.LegalAt xs k ↔ i.FitsAt xs k := by
  constructor
  · intro h
    refine ⟨h.wellFormed, fun t ht => (h.reaches t ht).1, fun t ht => ?_⟩
    exact OperandKind.fits_iff_spans.2 (h.reaches t ht).2
  · intro h
    refine ⟨h.wellFormed, fun t ht => ⟨h.target_lt t ht, ?_⟩⟩
    exact OperandKind.fits_iff_spans.1 (h.reaches t ht)

/-! ## Faults -/

/-- The first target of the instruction that it does not reach. -/
def unreached? (xs : List Instruction) (k : Nat) (i : Instruction) : Option Nat :=
  i.targets.find? fun t => ¬ i.Reaches xs k t

/-- What is wrong with the instruction at an index. -/
inductive FaultAt (xs : List Instruction) (k : Nat) (i : Instruction) : CodeError → Prop
  | mismatch (h : i.isWellFormed = false) : FaultAt xs k i (.malformed (.operandMismatch k i))
  | outside {t : Nat} (wellFormed : i.isWellFormed = true) (first : i.unreached? xs k = some t)
      (h : xs.length ≤ t) : FaultAt xs k i (.malformed (.targetOutside k t xs.length))
  | tooFar {t : Nat} (wellFormed : i.isWellFormed = true) (first : i.unreached? xs k = some t)
      (h : t < xs.length) : FaultAt xs k i (.branchOutOfRange k (reach xs k t))

variable {xs : List Instruction} {k : Nat} {i : Instruction}

theorem unreached?_eq_none_iff : i.unreached? xs k = none ↔ ∀ t ∈ i.targets, i.Reaches xs k t := by
  simp [unreached?, List.find?_eq_none]

/-- Something is wrong with an instruction exactly when it is not legal. -/
theorem exists_faultAt_iff : (∃ e, i.FaultAt xs k e) ↔ ¬ i.LegalAt xs k := by
  constructor
  · rintro ⟨e, h⟩ hlegal
    have hnone := unreached?_eq_none_iff.2 hlegal.reaches
    cases h with
    | mismatch hwf =>
      rw [hlegal.wellFormed] at hwf
      cases hwf
    | outside _ hfirst _ | tooFar _ hfirst _ =>
      rw [hnone] at hfirst
      cases hfirst
  · intro hnot
    cases hwf : i.isWellFormed with
    | false => exact ⟨_, .mismatch hwf⟩
    | true =>
      cases hfirst : i.unreached? xs k with
      | none => exact absurd ⟨hwf, unreached?_eq_none_iff.1 hfirst⟩ hnot
      | some t =>
        obtain hlt | hle := Nat.lt_or_ge t xs.length
        · exact ⟨_, .tooFar hwf hfirst hlt⟩
        · exact ⟨_, .outside hwf hfirst hle⟩

/-- Of several things that are wrong with an instruction, one is reported. -/
theorem FaultAt.unique {e e' : CodeError} (h : i.FaultAt xs k e) (h' : i.FaultAt xs k e') :
    e = e' := by
  cases h with
  | mismatch hwf =>
    cases h' with
    | mismatch => rfl
    | outside hwf' | tooFar hwf' =>
      rw [hwf] at hwf'
      cases hwf'
  | outside hwf hfirst hle =>
    cases h' with
    | mismatch hwf' =>
      rw [hwf] at hwf'
      cases hwf'
    | outside _ hfirst' _ =>
      rw [Option.some.inj (hfirst.symm.trans hfirst')]
    | tooFar _ hfirst' hlt =>
      cases hfirst.symm.trans hfirst'
      omega
  | tooFar hwf hfirst hlt =>
    cases h' with
    | mismatch hwf' =>
      rw [hwf] at hwf'
      cases hwf'
    | outside _ hfirst' hle =>
      cases hfirst.symm.trans hfirst'
      omega
    | tooFar _ hfirst' _ =>
      rw [Option.some.inj (hfirst.symm.trans hfirst')]

end Instruction

open Instruction

/-- The error tells what is wrong with the instruction at an index, and the instructions in front of
it are legal. -/
def FirstFault (xs : List Instruction) (e : CodeError) : Prop :=
  ∃ (k : Nat) (i : Instruction), xs[k]? = some i ∧
    (∀ (j : Nat) (i' : Instruction), j < k → xs[j]? = some i' → i'.LegalAt xs j) ∧ i.FaultAt xs k e

theorem FirstFault.unique {xs : List Instruction} {e e' : CodeError} (h : FirstFault xs e)
    (h' : FirstFault xs e') : e = e' := by
  obtain ⟨k, i, hi, hbefore, hfault⟩ := h
  obtain ⟨k', i', hi', hbefore', hfault'⟩ := h'
  obtain hlt | rfl | hlt := Nat.lt_trichotomy k k'
  · exact absurd (hbefore' k i hlt hi) (exists_faultAt_iff.1 ⟨e, hfault⟩)
  · obtain rfl := Option.some.inj (hi.symm.trans hi')
    exact hfault.unique hfault'
  · exact absurd (hbefore k' i' hlt hi') (exists_faultAt_iff.1 ⟨e', hfault'⟩)

/-! ## What the encoder reports -/

section Reported

variable {offsets : List Nat} {count index next : Nat} {e : CodeError}

theorem shortDistance_eq_error {d : Int} (h : shortDistance index d = .error e) :
    fitsShort d = false ∧ e = .branchOutOfRange index d := by
  unfold shortDistance at h
  split at h
  · cases h
  · rename_i hnot
    cases h
    exact ⟨Bool.eq_false_iff.2 hnot, rfl⟩

theorem longDistance_eq_error {d : Int} (h : longDistance index d = .error e) :
    fitsLong d = false ∧ e = .branchOutOfRange index d := by
  unfold longDistance at h
  split at h
  · cases h
  · rename_i hnot
    cases h
    exact ⟨Bool.eq_false_iff.2 hnot, rfl⟩

/-- The error for a target that an operand of this kind does not reach. -/
inductive Unreached (offsets : List Nat) (count index next : Nat) (kind : OperandKind) (t : Nat) :
    CodeError → Prop
  | outside (h : count ≤ t) :
      Unreached offsets count index next kind t (.malformed (.targetOutside index t count))
  | tooFar (inside : t < count) (h : kind.fits ((offsets.getD t 0 : Nat) - next) = false) :
      Unreached offsets count index next kind t
        (.branchOutOfRange index ((offsets.getD t 0 : Nat) - next))

/-- Only a target that is not an instruction of the list has no distance. -/
theorem unreached_of_distance {kind : OperandKind} {t : Nat}
    (h : distance offsets count index t next = .error e) :
    Unreached offsets count index next kind t e := by
  unfold distance at h
  split at h
  · cases h
  · rename_i hnot
    cases h
    exact .outside (Nat.le_of_not_lt hnot)

/-- The error of a table is that of the first entry that has one. -/
theorem exists_unreached_of_tableBytes {kind : OperandKind} (hkind : kind ≠ .shortBranch)
    {ts : List Nat} (h : tableBytes offsets count index next ts = .error e) :
    ∃ before t after, ts = before ++ t :: after ∧
      (∀ s ∈ before, s < count ∧ kind.fits ((offsets.getD s 0 : Nat) - next) = true) ∧
      Unreached offsets count index next kind t e := by
  have hfits (d : Int) : kind.fits d = fitsLong d := if_neg hkind
  induction ts with
  | nil => cases h
  | cons t ts ih =>
    obtain hd | ⟨d, hd, h⟩ := bind_eq_error_iff.1 h
    · exact ⟨[], t, ts, rfl, nofun, unreached_of_distance hd⟩
    · obtain ⟨hlt, rfl⟩ := distance_eq_ok_iff.1 hd
      obtain hentry | ⟨entry, hentry, h⟩ := bind_eq_error_iff.1 h
      · obtain ⟨hnot, rfl⟩ := longDistance_eq_error hentry
        exact ⟨[], t, ts, rfl, nofun, .tooFar hlt ((hfits _).trans hnot)⟩
      · obtain hrest | ⟨entries, -, h⟩ := bind_eq_error_iff.1 h
        · obtain ⟨before, t', after, rfl, hbefore, hfault⟩ := ih hrest
          refine ⟨t :: before, t', after, rfl, List.forall_mem_cons.2 ⟨⟨hlt, ?_⟩, hbefore⟩, hfault⟩
          exact (hfits _).trans (longDistance_eq_ok_iff.1 hentry).1
        · cases h

/-- The error of an operand is that of the first target that has one. -/
theorem exists_unreached_of_operandBytes {i : Instruction} (hwf : i.isWellFormed = true)
    (h : operandBytes offsets count index next i = .error e) :
    ∃ before t after, i.targets = before ++ t :: after ∧
      (∀ s ∈ before,
        s < count ∧ i.opcode.operand.fits ((offsets.getD s 0 : Nat) - next) = true) ∧
      Unreached offsets count index next i.opcode.operand t e := by
  obtain ⟨op, o⟩ := i
  unfold Instruction.isWellFormed at hwf
  cases o
  case target t =>
    refine ⟨[], t, [], rfl, nofun, ?_⟩
    obtain hd | ⟨d, hd, h⟩ := bind_eq_error_iff.1 h
    · exact unreached_of_distance hd
    · obtain ⟨hlt, rfl⟩ := distance_eq_ok_iff.1 hd
      split at h
      · rename_i hshort
        obtain ⟨hnot, rfl⟩ := shortDistance_eq_error h
        exact .tooFar hlt ((if_pos hshort).trans hnot)
      · rename_i hlong
        obtain ⟨hnot, rfl⟩ := longDistance_eq_error h
        exact .tooFar hlt ((if_neg hlong).trans hnot)
  case switch ts =>
    have hkind : op.operand ≠ .shortBranch := by
      intro hk
      simp [hk, Operand.isOf] at hwf
    obtain htable | ⟨entries, -, h⟩ := bind_eq_error_iff.1 h
    · exact exists_unreached_of_tableBytes hkind htable
    · cases h
  all_goals cases h

/-- The error of a list is that of the first instruction that has one. -/
theorem exists_of_encodeFrom {start : Nat} {xs : List Instruction}
    (h : encodeFrom offsets count index start xs = .error e) :
    ∃ k i, xs[k]? = some i ∧
      (∀ j < k, ∀ i', xs[j]? = some i' → ∃ bytes, instructionBytes offsets count (index + j)
        (start + codeSize (xs.take (j + 1))) i' = .ok bytes) ∧
      instructionBytes offsets count (index + k) (start + codeSize (xs.take (k + 1))) i =
        .error e := by
  induction xs generalizing index start with
  | nil => cases h
  | cons x rest ih =>
    obtain hfront | ⟨bytes, hfront, h⟩ := bind_eq_error_iff.1 h
    · exact ⟨0, x, rfl, nofun, hfront⟩
    · obtain hrest | ⟨others, -, h⟩ := bind_eq_error_iff.1 h
      · obtain ⟨k, i, hi, hbefore, hfault⟩ := ih hrest
        have hnext (j : Nat) : start + x.size + codeSize (rest.take (j + 1)) =
            start + codeSize ((x :: rest).take (j + 1 + 1)) := Nat.add_assoc _ _ _
        refine ⟨k + 1, i, hi, fun j hj i' hi' => ?_, ?_⟩
        · cases j with
          | zero =>
            obtain rfl : x = i' := by simpa using hi'
            exact ⟨bytes, hfront⟩
          | succ j =>
            rw [← hnext, ← Nat.add_assoc, Nat.add_right_comm]
            exact hbefore j (Nat.lt_of_succ_lt_succ hj) i' hi'
        · rw [← hnext, ← Nat.add_assoc, Nat.add_right_comm]
          exact hfault
      · cases h

end Reported

section List

variable {xs : List Instruction} {k : Nat} {i : Instruction} {e : CodeError}

/-- An instruction is written exactly when it is legal. -/
theorem exists_instructionBytes_iff :
    (∃ bytes, instructionBytes (offsetsFrom 0 xs) xs.length k (codeSize (xs.take (k + 1))) i =
      .ok bytes) ↔ i.LegalAt xs k := by
  have hreaches (t : Nat) : (t < xs.length ∧ i.opcode.operand.fits
      (((offsetsFrom 0 xs).getD t 0 : Nat) - (codeSize (xs.take (k + 1)) : Nat)) = true) ↔
        i.Reaches xs k t := by
    refine and_congr_right fun ht => ?_
    rw [getD_offsetsFrom ht]
    exact OperandKind.fits_iff_spans
  simp only [instructionBytes_eq_ok_iff]
  constructor
  · rintro ⟨bytes, hwf, operand, ho, -⟩
    refine ⟨hwf, fun t ht => ?_⟩
    exact (hreaches t).1 ((exists_operandBytes_iff hwf).1 ⟨operand, ho⟩ t ht)
  · intro h
    obtain ⟨operand, ho⟩ := (exists_operandBytes_iff h.wellFormed).2
      fun t ht => (hreaches t).2 (h.reaches t ht)
    exact ⟨_, h.wellFormed, operand, ho, rfl⟩

/-- What is reported of an instruction is what is wrong with it. -/
theorem faultAt_of_instructionBytes
    (h : instructionBytes (offsetsFrom 0 xs) xs.length k (codeSize (xs.take (k + 1))) i =
      .error e) : i.FaultAt xs k e := by
  unfold instructionBytes at h
  split at h
  · rename_i hwf
    obtain ho | ⟨operand, -, h⟩ := bind_eq_error_iff.1 h
    · obtain ⟨before, t, after, htargets, hbefore, hunreached⟩ :=
        exists_unreached_of_operandBytes hwf ho
      have hfirst (hnot : ¬ i.Reaches xs k t) : i.unreached? xs k = some t := by
        rw [unreached?, htargets, List.find?_append, List.find?_cons_of_pos (by simpa using hnot)]
        have hnone : before.find? (fun s => decide ¬ i.Reaches xs k s) = none := by
          rw [List.find?_eq_none]
          intro s hs
          obtain ⟨hlt, hfits⟩ := hbefore s hs
          rw [getD_offsetsFrom hlt] at hfits
          have hreach : i.Reaches xs k s := ⟨hlt, OperandKind.fits_iff_spans.1 hfits⟩
          simp [hreach]
        rw [hnone]
        rfl
      cases hunreached with
      | outside hle => exact .outside hwf (hfirst fun hr => Nat.not_lt.2 hle hr.1) hle
      | tooFar hlt hnot =>
        rw [getD_offsetsFrom hlt] at hnot ⊢
        refine .tooFar hwf (hfirst fun hr => ?_) hlt
        exact absurd (OperandKind.fits_iff_spans.2 hr.2) (Bool.eq_false_iff.1 hnot)
    · cases h
  · rename_i hwf
    cases h
    exact .mismatch (Bool.eq_false_iff.2 hwf)

/-- What is reported of a list is the fault of its first instruction that has one. -/
theorem firstFault_of_encodeFrom (h : encodeFrom (offsetsFrom 0 xs) xs.length 0 0 xs = .error e) :
    FirstFault xs e := by
  obtain ⟨k, i, hi, hbefore, hfault⟩ := exists_of_encodeFrom h
  simp only [Nat.zero_add] at hbefore hfault
  exact ⟨k, i, hi, fun j i' hj hi' => exists_instructionBytes_iff.1 (hbefore j hj i' hi'),
    faultAt_of_instructionBytes hfault⟩

theorem firstFault_of_encode (hsize : codeSize xs < 0x100000000) (h : encode xs = .error e) :
    FirstFault xs e := by
  obtain hlayout | ⟨offsets, hlayout, h⟩ := bind_eq_error_iff.1 h
  · rw [layout_eq_ok_iff.2 ⟨hsize, rfl⟩] at hlayout
    cases hlayout
  · obtain ⟨-, rfl⟩ := layout_eq_ok_iff.1 hlayout
    exact firstFault_of_encodeFrom h

/-! ## Lists that are too large -/

/-- The instruction that leads out of the 32-bit offsets, by itself or with those in front of it. -/
theorem exists_of_layoutFrom {start : Nat} (hstart : start < 0x100000000)
    (h : layoutFrom start xs = .error e) :
    ∃ k i, xs[k]? = some i ∧ start + codeSize (xs.take k) < 0x100000000 ∧
      0x100000000 ≤ start + codeSize (xs.take (k + 1)) ∧
      e = .malformed (if 0x100000000 ≤ i.size then .instructionTooLarge i else .codeTooLarge) := by
  induction xs generalizing start with
  | nil => cases h
  | cons x rest ih =>
    have hsize : codeSize ((x :: rest).take (0 + 1)) = x.size := Nat.add_zero _
    rw [layoutFrom] at h
    split at h
    · rename_i hlarge
      cases h
      exact ⟨0, x, rfl, hstart, by omega, by rw [if_pos hlarge]⟩
    · rename_i hsmall
      split at h
      · rename_i hend
        cases h
        exact ⟨0, x, rfl, hstart, by omega, by rw [if_neg hsmall]⟩
      · split at h
        · cases h
        · rename_i hrest
          cases h
          obtain ⟨k, i, hi, hlt, hle, rfl⟩ := ih (by omega) hrest
          refine ⟨k + 1, i, hi, ?_, ?_, rfl⟩
          · rwa [List.take_succ_cons, codeSize, ← Nat.add_assoc]
          · rwa [List.take_succ_cons, codeSize, ← Nat.add_assoc]

/-- A list that is too large is refused, whatever is wrong with its instructions. -/
theorem encode_of_large (hlarge : 0x100000000 ≤ codeSize xs) : ∃ k i, xs[k]? = some i ∧
    codeSize (xs.take k) < 0x100000000 ∧ 0x100000000 ≤ codeSize (xs.take (k + 1)) ∧
    encode xs = .error (.malformed
      (if 0x100000000 ≤ i.size then .instructionTooLarge i else .codeTooLarge)) := by
  cases hlayout : layout xs with
  | ok offsets =>
    have hsmall := (layout_eq_ok_iff.1 hlayout).1
    omega
  | error e =>
    obtain ⟨k, i, hi, hlt, hle, rfl⟩ := exists_of_layoutFrom (by decide) hlayout
    rw [Nat.zero_add] at hlt hle
    exact ⟨k, i, hi, hlt, hle, bind_eq_error_iff.2 (Or.inl hlayout)⟩

end List

/-- **Encoding succeeds exactly on the legal lists and reports the first culprit.**  A list is
encoded exactly when its end fits 32 bits and all of its instructions are legal where they stand.
When the end fits, the error tells what is wrong with the first instruction that is not legal: that
its operand is of another kind, or which of its targets it is that does not exist or is too far, and
how far.  Otherwise the error tells of the instruction that leads out of the 32-bit offsets, whatever
else is wrong. -/
theorem encode_outcome (xs : List Instruction) :
    ((∃ code, encode xs = .ok code) ↔
      codeSize xs < 0x100000000 ∧
        ∀ (k : Nat) (i : Instruction), xs[k]? = some i → i.LegalAt xs k) ∧
    (codeSize xs < 0x100000000 → ∀ e, encode xs = .error e ↔ FirstFault xs e) ∧
    (0x100000000 ≤ codeSize xs → ∃ k i, xs[k]? = some i ∧
      codeSize (xs.take k) < 0x100000000 ∧ 0x100000000 ≤ codeSize (xs.take (k + 1)) ∧
      encode xs = .error (.malformed
        (if 0x100000000 ≤ i.size then .instructionTooLarge i else .codeTooLarge))) := by
  have hok : (∃ code, encode xs = .ok code) ↔
      codeSize xs < 0x100000000 ∧
        ∀ (k : Nat) (i : Instruction), xs[k]? = some i → i.LegalAt xs k := by
    simp only [exists_encode_iff, CodeFits, legalAt_iff_fitsAt]
  refine ⟨hok, fun hsize e => ⟨firstFault_of_encode hsize, fun h => ?_⟩, encode_of_large⟩
  cases hresult : encode xs with
  | ok code =>
    obtain ⟨k, i, hi, -, hfault⟩ := h
    exact absurd ((hok.1 ⟨code, hresult⟩).2 k i hi) (exists_faultAt_iff.1 ⟨e, hfault⟩)
  | error e' => rw [(firstFault_of_encode hsize hresult).unique h]

/-- A short branch over 128 bytes to a mismatched instruction: it is one byte too far, and this is
reported although the other one is at fault, too. -/
theorem encode_outcome_far_branch :
    let xs : List Instruction :=
      .plain .nop :: ⟨.brS, .target 130⟩ :: (List.replicate 128 (.plain .nop) ++ [⟨.ret, .uint16 1⟩])
    codeSize xs < 0x100000000 ∧ FirstFault xs (.branchOutOfRange 1 128) ∧
      encode xs = .error (.branchOutOfRange 1 128) := by
  intro xs
  have hsize : codeSize xs < 0x100000000 := by decide +kernel
  have hfirst : FirstFault xs (.branchOutOfRange 1 128) := by
    refine ⟨1, ⟨.brS, .target 130⟩, rfl, fun j i' hj hi' => ?_, ?_⟩
    · obtain rfl : j = 0 := by omega
      cases hi'
      exact ⟨rfl, nofun⟩
    · have hreach : reach xs 1 130 = 128 := by decide +kernel
      rw [← hreach]
      exact .tooFar rfl (by decide +kernel) (by decide +kernel)
  exact ⟨hsize, hfirst, ((encode_outcome xs).2.1 hsize _).2 hfirst⟩

end CilGraft
