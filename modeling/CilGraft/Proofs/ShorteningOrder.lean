import CilGraft.Proofs.Shrinking
import Mathlib.Logic.Relation

/-!
# The order in which branches are shortened

A pass shortens together all branches that could be shortened alone.  Shortening one branch brings
the targets of all others closer and never farther away, so that none loses its chance: whichever
branch is shortened first, the others can be shortened afterwards.

* `ShortensTo` — one long branch becomes short, and then reaches its target.
* `Shortens.modify`, `ShortensTo.diamond` — two branches can be shortened in any order.
* `mark_eq_true_iff` — the test of a pass is exact for each branch alone.
* `reachable_shortenMarked` — a pass is a sequence of such steps; `shrinkAll_ends` — so are all
  passes, and they go on until one finds no branch.
* `optimizeBranches_any_order` — **every order of steps ends at the list that the passes find**.
-/

set_option autoImplicit false

namespace CilGraft

open Relation

/-! ## Steps -/

/-- Every branch, short or long, targets an instruction of the list. -/
def BranchesInside (xs : List Instruction) : Prop :=
  ∀ i ∈ xs, ∀ c t, i.operation = .jump c (.target t) → t < xs.length

theorem branchesInside_of_targets {xs : List Instruction}
    (h : ∀ i ∈ xs, ∀ t ∈ i.targets, t < xs.length) : BranchesInside xs := by
  intro i hi c t hjump
  refine h i hi t ?_
  obtain ⟨op, o⟩ := i
  unfold Instruction.operation at hjump
  split at hjump <;> cases hjump
  exact List.mem_singleton_self t

/-- One long branch becomes short. In the layout in which it is short and all others are as they
were, the distance to its target fits one signed byte. -/
inductive ShortensTo : List Instruction → List Instruction → Prop where
  | shorten {xs : List Instruction} {k t : Nat} {i : Instruction} {short : OpCode}
      {offsets : List Nat} {d : Int} (found : xs[k]? = some i)
      (long : i.opcode.shortBranch? = some short) (target : i.operand = .target t)
      (laidOut : layout (xs.modify k Instruction.shorten) = .ok offsets)
      (reached : distance offsets xs.length k t (offsets.getD (k + 1) 0) = .ok d)
      (fits : fitsShort d = true) : ShortensTo xs (xs.modify k Instruction.shorten)

/-- No branch of the list can be shortened. -/
def IsShortest (xs : List Instruction) : Prop := ∀ ys, ¬ ShortensTo xs ys

/-- The branch at `k` is long, and if it alone were short, its target at `t` would be within
reach. -/
structure Shortens (xs : List Instruction) (k t : Nat) : Prop where
  long : ∃ i short, xs[k]? = some i ∧ i.opcode.shortBranch? = some short ∧ i.operand = .target t
  inside : t < xs.length
  reaches : fitsShort (codeSize ((xs.modify k Instruction.shorten).take t) -
    codeSize ((xs.modify k Instruction.shorten).take (k + 1))) = true

/-- Shortening one instruction makes none larger. -/
theorem smaller_modify (xs : List Instruction) (k : Nat) :
    List.Forall₂ (fun x y => y.size ≤ x.size) xs (xs.modify k Instruction.shorten) := by
  rw [List.forall₂_iff_get]
  refine ⟨by simp, fun n hn hn' => ?_⟩
  simp only [List.get_eq_getElem, List.getElem_modify]
  split
  · exact Instruction.size_shorten_le _
  · exact Nat.le_refl _

theorem codeSize_modify_le (xs : List Instruction) (k : Nat) :
    codeSize (xs.modify k Instruction.shorten) ≤ codeSize xs :=
  codeSize_le (smaller_modify xs k)

theorem shortensTo_iff {xs ys : List Instruction} :
    ShortensTo xs ys ↔ codeSize ys < 0x100000000 ∧
      ∃ k t, Shortens xs k t ∧ ys = xs.modify k Instruction.shorten := by
  have hentry {k : Nat} {i : Instruction} (hk : xs[k]? = some i) :
      (offsetsFrom 0 (xs.modify k Instruction.shorten)).getD (k + 1) 0 =
        codeSize ((xs.modify k Instruction.shorten).take (k + 1)) := by
    have hlt := (List.getElem?_eq_some_iff.1 hk).1
    rw [List.getD_eq_getElem?_getD, getElem?_offsetsFrom 0 (by rwa [List.length_modify]),
      Option.getD_some, Nat.zero_add]
  constructor
  · rintro ⟨found, long, target, laidOut, reached, fits⟩
    rename_i k t i short offsets d
    obtain ⟨hsize, rfl⟩ := layout_eq_ok_iff.1 laidOut
    obtain ⟨hlt, rfl⟩ := distance_eq_ok_iff.1 reached
    rw [hentry found, getD_offsetsFrom (by rwa [List.length_modify])] at fits
    exact ⟨hsize, k, t, ⟨⟨i, short, found, long, target⟩, hlt, fits⟩, rfl⟩
  · rintro ⟨hsize, k, t, ⟨⟨i, short, found, long, target⟩, hlt, hreach⟩, rfl⟩
    refine .shorten found long target (layout_eq_ok_iff.2 ⟨hsize, rfl⟩)
      (distance_eq_ok_iff.2 ⟨hlt, rfl⟩) ?_
    rwa [hentry found, getD_offsetsFrom (by rwa [List.length_modify])]

/-! ## Two steps -/

/-- **A branch that could be shortened still can be when another one has been.** -/
theorem Shortens.modify {xs : List Instruction} {j k t : Nat} (h : Shortens xs k t) (hne : j ≠ k) :
    Shortens (xs.modify j Instruction.shorten) k t where
  long := by
    obtain ⟨i, short, found, hrest⟩ := h.long
    exact ⟨i, short, by rw [List.getElem?_modify_ne _ _ hne, found], hrest⟩
  inside := by
    rw [List.length_modify]
    exact h.inside
  reaches := by
    rw [List.modify_modify_ne _ _ _ hne]
    exact fitsShort_of_smaller (smaller_modify _ j) h.reaches

/-- **Two branches can be shortened in any order.** -/
theorem ShortensTo.diamond {xs ys zs : List Instruction} (hy : ShortensTo xs ys)
    (hz : ShortensTo xs zs) :
    ∃ us, ReflGen ShortensTo ys us ∧ ReflTransGen ShortensTo zs us := by
  obtain ⟨hsize, j, s, hj, rfl⟩ := shortensTo_iff.1 hy
  obtain ⟨-, k, t, hk, rfl⟩ := shortensTo_iff.1 hz
  by_cases hjk : j = k
  · subst hjk
    exact ⟨_, .refl, .refl⟩
  · have hsize' := Nat.lt_of_le_of_lt (codeSize_modify_le (xs.modify j Instruction.shorten) k) hsize
    refine ⟨(xs.modify j Instruction.shorten).modify k Instruction.shorten,
      .single (shortensTo_iff.2 ⟨hsize', k, t, hk.modify hjk, rfl⟩),
      .single (shortensTo_iff.2 ⟨hsize', j, s, hj.modify (Ne.symm hjk), ?_⟩)⟩
    exact List.modify_modify_ne _ _ _ hjk

/-- A list in which no branch can be shortened is where every order of steps ends. -/
theorem IsShortest.reachable {xs ys zs : List Instruction} (hlast : IsShortest ys)
    (hy : ReflTransGen ShortensTo xs ys) (hz : ReflTransGen ShortensTo xs zs) :
    ReflTransGen ShortensTo zs ys := by
  obtain ⟨us, hyu, hzu⟩ := church_rosser (fun _ _ _ => ShortensTo.diamond) hy hz
  obtain rfl | ⟨vs, hstep, -⟩ := hyu.cases_head
  · exact hzu
  · exact absurd hstep (hlast vs)

/-! ## The number of steps -/

/-- The instruction is a branch in long form. -/
def Instruction.isLongBranch (i : Instruction) : Bool := i.opcode.shortBranch?.isSome

/-- The branches in long form. -/
def longBranches (xs : List Instruction) : Nat := xs.countP Instruction.isLongBranch

/-- A short branch is not long. -/
theorem Instruction.shortBranch?_shorten {i : Instruction} {short : OpCode}
    (h : i.opcode.shortBranch? = some short) : i.shorten.opcode.shortBranch? = none := by
  have hop : i.shorten.opcode = short := by simp only [shorten, h]
  obtain ⟨hshort, -, -, -⟩ := OpCode.operand_of_shortBranch? h
  rw [hop]
  cases hagain : short.shortBranch? with
  | none => rfl
  | some _ =>
    rw [(OpCode.operand_of_shortBranch? hagain).2.1] at hshort
    cases hshort

/-- **Every step leaves one long branch less.** -/
theorem ShortensTo.longBranches_lt {xs ys : List Instruction} (h : ShortensTo xs ys) :
    longBranches ys < longBranches xs := by
  obtain ⟨-, k, t, ⟨⟨i, short, found, hlong, -⟩, -, -⟩, rfl⟩ := shortensTo_iff.1 h
  have hlt := (List.getElem?_eq_some_iff.1 found).1
  have hi := (List.getElem?_eq_some_iff.1 found).2
  unfold longBranches
  rw [List.modify_eq_take_cons_drop hlt, hi]
  conv_rhs => rw [← List.take_append_drop k xs, List.drop_eq_getElem_cons hlt, hi]
  simp only [List.countP_append, List.countP_cons, Instruction.isLongBranch, hlong,
    Instruction.shortBranch?_shorten hlong]
  simp

theorem longBranches_lt_of_reachable {xs ys : List Instruction} (h : ReflTransGen ShortensTo xs ys)
    (hne : xs ≠ ys) : longBranches ys < longBranches xs := by
  induction h with
  | refl => exact absurd rfl hne
  | @tail us vs hreach hstep ih =>
    have hlast := hstep.longBranches_lt
    by_cases hsame : xs = us
    · rwa [hsame]
    · exact Nat.lt_trans hlast (ih hsame)

/-- **No order of steps goes on for ever.** -/
theorem wellFounded_shortensTo : WellFounded fun ys xs => ShortensTo xs ys :=
  Subrelation.wf (fun h => ShortensTo.longBranches_lt h) (measure longBranches).wf

/-! ## One pass -/

/-- The layout of a list in which one branch has been shortened: what comes behind it is three bytes
nearer. -/
theorem codeSize_take_modify {xs : List Instruction} {k : Nat} {i : Instruction} {short : OpCode}
    (found : xs[k]? = some i) (long : i.opcode.shortBranch? = some short) (a : Nat) :
    codeSize ((xs.modify k Instruction.shorten).take a) + (if k < a then 3 else 0) =
      codeSize (xs.take a) := by
  have hsizes := Instruction.size_of_shortBranch? long
  induction xs generalizing k a with
  | nil => simp at found
  | cons x rest ih =>
    cases a with
    | zero => simp
    | succ a =>
      cases k with
      | zero =>
        obtain rfl : x = i := by simpa using found
        simp only [List.modify_zero_cons, List.take_succ_cons, codeSize, Nat.zero_lt_succ, if_true]
        omega
      | succ k =>
        have hrest := ih found a
        simp only [List.modify_succ_cons, List.take_succ_cons, codeSize,
          Nat.add_lt_add_iff_right]
        omega

/-- **The corrected distance of the test is the distance in the list in which the branch is
short.** -/
theorem corrected_distance {xs : List Instruction} {k : Nat} {i : Instruction} {short : OpCode}
    (found : xs[k]? = some i) (long : i.opcode.shortBranch? = some short) (t : Nat) :
    (if k < t then (codeSize (xs.take t) : Int) - (codeSize (xs.take k) + 2 : Nat) - branchSaving
      else (codeSize (xs.take t) : Int) - (codeSize (xs.take k) + 2 : Nat)) =
      codeSize ((xs.modify k Instruction.shorten).take t) -
        codeSize ((xs.modify k Instruction.shorten).take (k + 1)) := by
  have htarget := codeSize_take_modify found long t
  have hend := codeSize_take_modify found long (k + 1)
  have hsizes := Instruction.size_of_shortBranch? long
  rw [if_pos (Nat.lt_succ_self k), codeSize_take_succ found] at hend
  unfold branchSaving
  split at htarget <;> split <;> omega

theorem reachesShort_of_long {offsets : List Nat} {count index start t : Nat} {i : Instruction}
    {short : OpCode} (long : i.opcode.shortBranch? = some short) (target : i.operand = .target t)
    (ht : t < count) : reachesShort offsets count index start i = .ok (fitsShort
      (if index < t then ((offsets.getD t 0 : Nat) : Int) - (start + 2 : Nat) - branchSaving
        else ((offsets.getD t 0 : Nat) : Int) - (start + 2 : Nat))) := by
  have hd : distance offsets count index t (start + 2) = .ok _ := distance_eq_ok_iff.2 ⟨ht, rfl⟩
  simp only [reachesShort, long, target, hd, bind, Except.bind]

theorem target_lt_of_reachesShort {offsets : List Nat} {count index start t : Nat} {i : Instruction}
    {short : OpCode} {mark : Bool} (long : i.opcode.shortBranch? = some short)
    (target : i.operand = .target t) (h : reachesShort offsets count index start i = .ok mark) :
    t < count := by
  simp only [reachesShort, long, target] at h
  obtain ⟨d, hd, -⟩ := bind_eq_ok_iff.1 h
  exact (distance_eq_ok_iff.1 hd).1

theorem reachesShort_of_not_long {offsets : List Nat} {count index start : Nat} {i : Instruction}
    (h : ∀ short t, i.opcode.shortBranch? = some short → i.operand ≠ .target t) :
    reachesShort offsets count index start i = .ok false := by
  unfold reachesShort
  split
  · rename_i short t hshort htarget
    exact absurd htarget (h short t hshort)
  · rfl

section Pass

variable {xs ys : List Instruction} {marks : List Bool}

theorem BranchesInside.congr (h : BranchesInside xs)
    (hsame : ys.map Instruction.operation = xs.map Instruction.operation) : BranchesInside ys := by
  intro j hj c t hjump
  have hlen : ys.length = xs.length := by simpa using congrArg List.length hsame
  have hmem : j.operation ∈ xs.map Instruction.operation := hsame ▸ List.mem_map_of_mem hj
  obtain ⟨i, hi, hop⟩ := List.mem_map.1 hmem
  rw [hlen]
  exact h i hi c t (hop.trans hjump)

theorem BranchesInside.target_lt (h : BranchesInside xs) {i : Instruction} (hi : i ∈ xs)
    {short : OpCode} {t : Nat} (long : i.opcode.shortBranch? = some short)
    (target : i.operand = .target t) : t < xs.length := by
  obtain ⟨-, c, hjump⟩ := OpCode.form_of_shortBranch? long
  refine h i hi c t ?_
  rw [← target]
  exact Instruction.operation_of_jump i.operand hjump

/-- **The test of a pass is exact for each branch alone.** -/
theorem mark_eq_true_iff (hmarks : shrinkable xs = .ok marks) {k : Nat} :
    marks[k]? = some true ↔ ∃ t, Shortens xs k t := by
  obtain ⟨offsets, hoffsets, hpass⟩ := bind_eq_ok_iff.1 hmarks
  obtain ⟨-, rfl⟩ := layout_eq_ok_iff.1 hoffsets
  by_cases hk : k < xs.length
  · have found := List.getElem?_eq_getElem hk
    obtain ⟨mark, hmark, htest⟩ := exists_mark_of_reachesShortFrom hpass found
    rw [Nat.zero_add, Nat.zero_add] at htest
    rw [hmark, Option.some.injEq]
    by_cases hlong : ∃ short t, xs[k].opcode.shortBranch? = some short ∧ xs[k].operand = .target t
    · obtain ⟨short, t, long, target⟩ := hlong
      have ht := target_lt_of_reachesShort long target htest
      rw [reachesShort_of_long long target ht, getD_offsetsFrom ht] at htest
      have hmark := Except.ok.inj htest
      rw [corrected_distance found long] at hmark
      constructor
      · rintro rfl
        exact ⟨t, ⟨_, short, found, long, target⟩, ht, hmark⟩
      · rintro ⟨t', ⟨i, short', found', long', target'⟩, -, hreach⟩
        obtain rfl := Option.some.inj (found.symm.trans found')
        obtain rfl : t = t' := by simpa using target.symm.trans target'
        exact hmark.symm.trans hreach
    · rw [reachesShort_of_not_long fun short t long target => hlong ⟨short, t, long, target⟩]
        at htest
      refine ⟨fun h => ?_, ?_⟩
      · rw [h] at htest
        cases htest
      · rintro ⟨t, ⟨i, short, found', long, target⟩, -, -⟩
        obtain rfl := Option.some.inj (found.symm.trans found')
        exact absurd ⟨short, t, long, target⟩ hlong
  · have hlen := length_of_reachesShortFrom hpass
    rw [List.getElem?_eq_none (by omega)]
    refine ⟨nofun, ?_⟩
    rintro ⟨t, ⟨i, short, found, -⟩, -, -⟩
    exact absurd (List.getElem?_eq_some_iff.1 found).1 hk

theorem exists_reachesShortFrom {offsets : List Nat} {count : Nat}
    (h : ∀ i ∈ xs, ∀ index start, ∃ mark, reachesShort offsets count index start i = .ok mark)
    (index start : Nat) : ∃ marks, reachesShortFrom offsets count index start xs = .ok marks := by
  induction xs generalizing index start with
  | nil => exact ⟨[], rfl⟩
  | cons i rest ih =>
    obtain ⟨mark, hmark⟩ := h i List.mem_cons_self index start
    obtain ⟨others, hothers⟩ :=
      ih (fun j hj => h j (List.mem_cons_of_mem _ hj)) (index + 1) (start + i.size)
    exact ⟨mark :: others, by simp only [reachesShortFrom, hmark, hothers, bind, Except.bind]⟩

/-- A pass over a list that can be laid out and whose branches stay inside comes to its end. -/
theorem exists_shrinkable (hinside : BranchesInside xs) (hsize : codeSize xs < 0x100000000) :
    ∃ marks, shrinkable xs = .ok marks := by
  obtain ⟨marks, hmarks⟩ : ∃ marks,
      reachesShortFrom (offsetsFrom 0 xs) xs.length 0 0 xs = .ok marks := by
    refine exists_reachesShortFrom (fun i hi index start => ?_) 0 0
    by_cases hlong : ∃ short t, i.opcode.shortBranch? = some short ∧ i.operand = .target t
    · obtain ⟨short, t, long, target⟩ := hlong
      exact ⟨_, reachesShort_of_long long target (hinside.target_lt hi long target)⟩
    · exact ⟨false,
        reachesShort_of_not_long fun short t long target => hlong ⟨short, t, long, target⟩⟩
  exact ⟨marks, bind_eq_ok_iff.2 ⟨_, layout_eq_ok_iff.2 ⟨hsize, rfl⟩, hmarks⟩⟩

theorem reachable_append_shortenMarked {us : List Instruction}
    (hsize : codeSize (us ++ xs) < 0x100000000) (hlen : marks.length = xs.length)
    (h : ∀ k, marks[k]? = some true → ∃ t, Shortens (us ++ xs) (us.length + k) t) :
    ReflTransGen ShortensTo (us ++ xs) (us ++ shortenMarked marks xs) := by
  induction xs generalizing us marks with
  | nil =>
    rw [shortenMarked, List.zipWith_nil_right]
  | cons x rest ih =>
    cases marks with
    | nil => cases hlen
    | cons mark marks =>
      have hlen' : marks.length = rest.length := Nat.succ.inj hlen
      have hmodify : (us ++ x :: rest).modify us.length Instruction.shorten =
          us ++ [x.shorten] ++ rest := by
        rw [List.modify_eq_take_cons_drop (by simp)]
        simp
      cases mark with
      | false =>
        have hrest := @ih marks (us ++ [x]) (by simpa using hsize) hlen' (fun k hk => by
          obtain ⟨t, ht⟩ := h (k + 1) hk
          refine ⟨t, ?_⟩
          rw [List.append_assoc, List.length_append, List.length_singleton, Nat.add_assoc,
            Nat.add_comm 1 k]
          exact ht)
        simpa [shortenMarked] using hrest
      | true =>
        obtain ⟨t, ht⟩ := h 0 rfl
        rw [Nat.add_zero] at ht
        have hsize' := Nat.lt_of_le_of_lt (codeSize_modify_le _ us.length) hsize
        have hstep := shortensTo_iff.2 ⟨hsize', us.length, t, ht, rfl⟩
        rw [hmodify] at hstep hsize'
        have hrest := @ih marks (us ++ [x.shorten]) hsize' hlen' (fun k hk => by
          -- the branches behind the one just shortened can still be
          obtain ⟨t, ht⟩ := h (k + 1) hk
          have hnext := ht.modify (show us.length ≠ us.length + (k + 1) by omega)
          refine ⟨t, ?_⟩
          rw [hmodify] at hnext
          rw [List.length_append, List.length_singleton, Nat.add_assoc, Nat.add_comm 1 k]
          exact hnext)
        have hfront : us ++ shortenMarked (true :: marks) (x :: rest) =
            us ++ [x.shorten] ++ shortenMarked marks rest := by
          simp [shortenMarked]
        rw [hfront]
        exact .head hstep hrest

/-- **A pass is a sequence of steps.** -/
theorem reachable_shortenMarked (hmarks : shrinkable xs = .ok marks) :
    ReflTransGen ShortensTo xs (shortenMarked marks xs) := by
  obtain ⟨offsets, hoffsets, -⟩ := bind_eq_ok_iff.1 hmarks
  refine @reachable_append_shortenMarked xs marks [] (layout_eq_ok_iff.1 hoffsets).1
    (length_of_shrinkable hmarks) fun k hk => ?_
  rw [List.length_nil, Nat.zero_add, List.nil_append]
  exact (mark_eq_true_iff hmarks).1 hk

/-- A pass that marks a branch changes it. -/
theorem shortenMarked_ne (hmarks : shrinkable xs = .ok marks) (hany : marks.any id = true) :
    xs ≠ shortenMarked marks xs := by
  intro hsame
  obtain ⟨mark, hmem, rfl⟩ := List.any_eq_true.1 hany
  obtain ⟨k, hk⟩ := List.mem_iff_getElem?.1 hmem
  obtain ⟨t, ⟨i, short, found, long, -⟩, -, -⟩ := (mark_eq_true_iff hmarks).1 hk
  have hchanged : xs[k]? = some i.shorten := by
    rw [hsame, shortenMarked, List.getElem?_zipWith, hk, found]
    rfl
  have hshort := Instruction.shortBranch?_shorten long
  rw [← Option.some.inj (found.symm.trans hchanged), long] at hshort
  cases hshort

/-- A pass that finds no branch finds out that there is none. -/
theorem isShortest_of_shrinkable (hmarks : shrinkable xs = .ok marks)
    (hnone : marks.any id = false) : IsShortest xs := by
  intro ys hstep
  obtain ⟨-, k, t, hk, -⟩ := shortensTo_iff.1 hstep
  have hmark := List.mem_of_getElem? ((mark_eq_true_iff hmarks).2 ⟨t, hk⟩)
  simp only [List.any_eq_false, id_eq] at hnone
  exact hnone true hmark rfl

end Pass

/-! ## All passes -/

/-- **All passes together are a sequence of steps.** They end with one that finds no branch or
cannot be made, and its outcome is theirs. -/
theorem shrinkAll_ends {passes : Nat} {xs : List Instruction} (hpasses : longBranches xs < passes) :
    ReflTransGen ShortensTo xs (shrinkAll passes xs).1 ∧
      (shrinkAll passes xs).2 = (shrinkable (shrinkAll passes xs).1).map (fun _ => ()) ∧
      ∀ marks, shrinkable (shrinkAll passes xs).1 = .ok marks → marks.any id = false := by
  induction passes generalizing xs with
  | zero => omega
  | succ passes ih =>
    cases hmarks : shrinkable xs with
    | error e =>
      have hall : shrinkAll (passes + 1) xs = (xs, .error e) := by simp only [shrinkAll, hmarks]
      rw [hall, hmarks]
      exact ⟨.refl, rfl, nofun⟩
    | ok marks =>
      cases hany : marks.any id with
      | false =>
        have hall : shrinkAll (passes + 1) xs = (xs, .ok ()) := by simp [shrinkAll, hmarks, hany]
        rw [hall, hmarks]
        refine ⟨.refl, rfl, ?_⟩
        rintro _ ⟨⟩
        exact hany
      | true =>
        have hall : shrinkAll (passes + 1) xs = shrinkAll passes (shortenMarked marks xs) := by
          simp only [shrinkAll, hmarks, hany, if_true]
        have hpass := reachable_shortenMarked hmarks
        have hless := longBranches_lt_of_reachable hpass (shortenMarked_ne hmarks hany)
        obtain ⟨hreach, hrest⟩ := @ih (shortenMarked marks xs) (by omega)
        rw [hall]
        exact ⟨hpass.trans hreach, hrest⟩

/-- There is a pass for each long branch and one more. -/
theorem longBranches_lt_passes (xs : List Instruction) :
    longBranches (xs.map Instruction.widen) < xs.length + 1 := by
  have hle := List.countP_le_length (p := Instruction.isLongBranch) (l := xs.map Instruction.widen)
  rw [List.length_map] at hle
  exact Nat.lt_succ_of_le hle

theorem optimizeBranches_ends (xs : List Instruction) :
    ReflTransGen ShortensTo (xs.map Instruction.widen) (optimizeBranches xs).1 ∧
      (optimizeBranches xs).2 = (shrinkable (optimizeBranches xs).1).map (fun _ => ()) ∧
      ∀ marks, shrinkable (optimizeBranches xs).1 = .ok marks → marks.any id = false :=
  shrinkAll_ends (longBranches_lt_passes xs)

theorem codeSize_le_of_reachable {xs ys : List Instruction} (h : ReflTransGen ShortensTo xs ys) :
    codeSize ys ≤ codeSize xs := by
  induction h with
  | refl => exact Nat.le_refl _
  | tail _ hstep ih =>
    obtain ⟨-, k, -, -, rfl⟩ := shortensTo_iff.1 hstep
    exact Nat.le_trans (codeSize_modify_le _ k) ih

/-- **The passes over a list whose branches stay inside find a shortest list.** -/
theorem exists_shrinkAll {passes : Nat} {xs : List Instruction} (hpasses : longBranches xs < passes)
    (hinside : BranchesInside xs) (hsize : codeSize xs < 0x100000000) :
    ∃ ys, shrinkAll passes xs = (ys, .ok ()) ∧ ReflTransGen ShortensTo xs ys ∧ IsShortest ys := by
  obtain ⟨hreach, houtcome, hnone⟩ := shrinkAll_ends hpasses
  have hinside' := hinside.congr (map_shrinkAll Instruction.operation_shorten passes xs)
  have hsize' := Nat.lt_of_le_of_lt (codeSize_le_of_reachable hreach) hsize
  obtain ⟨marks, hmarks⟩ := exists_shrinkable hinside' hsize'
  rw [hmarks] at houtcome
  exact ⟨_, Prod.ext rfl houtcome, hreach, isShortest_of_shrinkable hmarks (hnone marks hmarks)⟩

theorem operation_map_widen (xs : List Instruction) :
    (xs.map Instruction.widen).map Instruction.operation = xs.map Instruction.operation := by
  rw [List.map_map]
  exact List.map_congr_left fun i _ => i.operation_widen

/-- **Every order of steps ends at the list that the passes find.** From the list with all branches
long, the passes come to an end; what they find is reached by single steps, and no branch of it can
be shortened. Whichever branches are shortened one after the other, no order goes on for ever, and
the steps can be continued to that list; where they cannot be continued, they are there. -/
theorem optimizeBranches_any_order {xs : List Instruction} (hinside : BranchesInside xs)
    (hsize : codeSize (xs.map Instruction.widen) < 0x100000000) :
    WellFounded (fun ys zs => ShortensTo zs ys) ∧
    ∃ ys, optimizeBranches xs = (ys, .ok ()) ∧
      ReflTransGen ShortensTo (xs.map Instruction.widen) ys ∧ IsShortest ys ∧
      ∀ zs, ReflTransGen ShortensTo (xs.map Instruction.widen) zs →
        ReflTransGen ShortensTo zs ys ∧ (IsShortest zs → zs = ys) := by
  obtain ⟨ys, hall, hreach, hlast⟩ := exists_shrinkAll (longBranches_lt_passes xs)
    (hinside.congr (operation_map_widen xs)) hsize
  refine ⟨wellFounded_shortensTo, ys, hall, hreach, hlast, fun zs hzs => ?_⟩
  have hcontinued := hlast.reachable hreach hzs
  refine ⟨hcontinued, fun hend => ?_⟩
  obtain rfl | ⟨us, hstep, -⟩ := hcontinued.cases_head
  · rfl
  · exact absurd hstep (hend us)

/-- A branch behind a branch: the first one can be shortened only when the second one has been. -/
def cascade : List Instruction :=
  [⟨.brS, .target 125⟩, ⟨.br, .target 2⟩] ++ List.replicate 123 (.plain .nop) ++ [.plain .ret]

/-- Whatever the order, both branches of the cascade become short. -/
theorem cascade_any_order :
    BranchesInside cascade ∧ codeSize (cascade.map Instruction.widen) < 0x100000000 ∧
      ∀ zs, ReflTransGen ShortensTo (cascade.map Instruction.widen) zs → IsShortest zs →
        zs = cascade.map Instruction.shorten := by
  have hinside : BranchesInside cascade := branchesInside_of_targets (by decide +kernel)
  have hsize : codeSize (cascade.map Instruction.widen) < 0x100000000 := by decide +kernel
  obtain ⟨-, ys, hall, -, -, hany⟩ := optimizeBranches_any_order hinside hsize
  have hshort : (optimizeBranches cascade).1 = cascade.map Instruction.shorten := by decide +kernel
  refine ⟨hinside, hsize, fun zs hreach hend => ?_⟩
  rw [← hshort, hall]
  exact (hany zs hreach).2 hend

end CilGraft
