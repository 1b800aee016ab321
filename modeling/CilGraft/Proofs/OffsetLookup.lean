import CilGraft.Proofs.Offsets
import CilGraft.Steps

/-!
# Looking offsets up

The offsets of a layout ascend strictly, so that looking one up undoes the layout, and what is no
entry is not found. The look-up takes the last entry up to the offset; in an ascending list this is
the entry at which a search by halves stops.

* `halve`, `bisect?` — the search by halves: a window that is cut in two until one entry is left.
* `halve_eq` — in an ascending list the window closes on the last entry up to the offset.
* `toOption_indexOfOffset` — both look-ups find the same.
* `lookup_inverts_layout` — **looking up the entries of a layout gives their indices back, and
  nothing else is found.**
-/

set_option autoImplicit false

namespace CilGraft

/-! ## The search by halves -/

/-- Where a window of `size` entries from `base` on closes: its upper half is kept unless that half
begins behind the offset. -/
def halve (os : List Nat) (offset base size : Nat) : Nat :=
  if size ≤ 1 then base
  else if offset < os.getD (base + size / 2) 0 then halve os offset base (size - size / 2)
  else halve os offset (base + size / 2) (size - size / 2)
termination_by size

/-- The index of an entry, by halves. -/
def bisect? (os : List Nat) (offset : Nat) : Option Nat :=
  let index := halve os offset 0 os.length
  if os[index]? = some offset then some index else none

/-- How many entries at the front are up to the offset. -/
def countUpTo (os : List Nat) (offset : Nat) : Nat := (os.takeWhile (· ≤ offset)).length

section Ascending

variable {os : List Nat} {offset : Nat}

theorem countUpTo_le (os : List Nat) (offset : Nat) : countUpTo os offset ≤ os.length :=
  (List.takeWhile_sublist _).length_le

/-- In an ascending list, an entry is up to the offset exactly when it is one of those at the
front. -/
theorem lt_countUpTo_iff (hasc : os.Pairwise (· ≤ ·)) {k o : Nat} (hk : os[k]? = some o) :
    k < countUpTo os offset ↔ o ≤ offset := by
  unfold countUpTo
  induction os generalizing k with
  | nil => cases hk
  | cons a os ih =>
    obtain ⟨ha, hos⟩ := List.pairwise_cons.1 hasc
    by_cases hle : a ≤ offset
    · rw [List.takeWhile_cons_of_pos (by simpa using hle), List.length_cons]
      cases k with
      | zero =>
        obtain rfl : a = o := by simpa using hk
        exact iff_of_true (Nat.succ_pos _) hle
      | succ k =>
        rw [List.getElem?_cons_succ] at hk
        rw [Nat.succ_lt_succ_iff, ih hos hk]
    · rw [List.takeWhile_cons_of_neg (by simpa using hle), List.length_nil]
      refine iff_of_false (Nat.not_lt_zero k) fun ho => ?_
      cases k with
      | zero =>
        obtain rfl : a = o := by simpa using hk
        exact hle ho
      | succ k =>
        rw [List.getElem?_cons_succ] at hk
        exact hle (Nat.le_trans (ha o (List.mem_of_getElem? hk)) ho)

/-- **The window closes on the last entry up to the offset.** The invariant is that this entry lies
in the window, or that there is none and the window starts at the front. -/
theorem halve_eq (hasc : os.Pairwise (· ≤ ·)) {base size : Nat}
    (hstart : base = 0 ∨ base < countUpTo os offset) (hstop : countUpTo os offset ≤ base + size)
    (hroom : base + size ≤ os.length) :
    halve os offset base size = countUpTo os offset - 1 := by
  have hmiddle : ∀ k, k < os.length → (k < countUpTo os offset ↔ ¬ offset < os.getD k 0) := by
    intro k hk
    rw [List.getD_eq_getElem?_getD, List.getElem?_eq_getElem hk, Option.getD_some, Nat.not_lt]
    exact lt_countUpTo_iff hasc (List.getElem?_eq_getElem hk)
  fun_induction halve os offset base size with
  | case1 base size hsmall => omega
  | case2 base size hlarge hbehind ih =>
    have hupper := hmiddle (base + size / 2) (by omega)
    exact ih hstart (by omega) (by omega)
  | case3 base size hlarge hupTo ih =>
    have hupper := hmiddle (base + size / 2) (by omega)
    exact ih (.inr (hupper.2 hupTo)) (by omega) (by omega)

/-- The last of the entries at the front, as an entry of the whole list. -/
theorem getLast?_takeWhile (os : List Nat) (offset : Nat) :
    (os.takeWhile (· ≤ offset)).getLast? =
      if countUpTo os offset = 0 then none else os[countUpTo os offset - 1]? := by
  have hprefix : os.takeWhile (· ≤ offset) <+: os := List.takeWhile_prefix _
  split
  · rename_i hnone
    rw [List.eq_nil_of_length_eq_zero hnone, List.getLast?_nil]
  · rename_i hsome
    rw [List.getLast?_eq_getElem?, ← countUpTo]
    have hlt : countUpTo os offset - 1 < (os.takeWhile (· ≤ offset)).length := by
      rw [← countUpTo]
      omega
    rw [List.getElem?_eq_getElem hlt, hprefix.getElem hlt, List.getElem?_eq_getElem]

/-- The look-up compares the offset with the last entry up to it. -/
theorem indexOfOffset_eq (os : List Nat) (offset : Nat) :
    indexOfOffset os offset =
      match if countUpTo os offset = 0 then none else os[countUpTo os offset - 1]? with
      | some last =>
        if last = offset then .ok (countUpTo os offset - 1)
        else .error (.malformed (.notBoundary offset))
      | none => .error (.malformed (.notBoundary offset)) := by
  rw [← getLast?_takeWhile]
  rfl

/-- **Both look-ups find the same** in an ascending list. -/
theorem toOption_indexOfOffset (hasc : os.Pairwise (· ≤ ·)) (offset : Nat) :
    (indexOfOffset os offset).toOption = bisect? os offset := by
  have hclosed : halve os offset 0 os.length = countUpTo os offset - 1 :=
    halve_eq hasc (.inl rfl) (by rw [Nat.zero_add]; exact countUpTo_le os offset)
      (Nat.le_of_eq (Nat.zero_add _))
  simp only [bisect?, hclosed]
  rw [indexOfOffset_eq]
  by_cases hnone : countUpTo os offset = 0
  · -- Nothing is up to the offset, so the first entry, if there is one, is behind it.
    have hfirst : os[0]? ≠ some offset := fun hentry => by
      have hlt := (lt_countUpTo_iff hasc hentry).2 (Nat.le_refl offset)
      omega
    rw [if_pos hnone, hnone, if_neg hfirst]
    rfl
  · rw [if_neg hnone]
    cases os[countUpTo os offset - 1]? with
    | none => rfl
    | some last =>
      by_cases hlast : last = offset
      · simp only [hlast, if_true]
        rfl
      · simp only [hlast, Option.some.injEq, if_false]
        rfl

end Ascending

/-! ## Layouts -/

/-- What is no entry is not found. -/
theorem indexOfOffset_of_not_mem {os : List Nat} {offset : Nat} (h : offset ∉ os) :
    indexOfOffset os offset = .error (.malformed (.notBoundary offset)) := by
  cases hfound : indexOfOffset os offset with
  | ok k => exact absurd (List.mem_of_getElem? (getElem?_of_indexOfOffset hfound)) h
  | error e =>
    simp only [indexOfOffset] at hfound
    split at hfound
    · split at hfound <;> cases hfound
      rfl
    · cases hfound
      rfl

/-- Two neighbours in a layout are as far apart as the instruction between them is long. -/
theorem getElem?_succ_offsetsFrom (start : Nat) {xs : List Instruction} {k : Nat} {x : Instruction}
    (h : xs[k]? = some x) :
    ∃ o, (offsetsFrom start xs)[k]? = some o ∧
      (offsetsFrom start xs)[k + 1]? = some (o + x.size) := by
  obtain ⟨hk, rfl⟩ := List.getElem?_eq_some_iff.1 h
  refine ⟨_, getElem?_offsetsFrom start (Nat.le_of_lt hk), ?_⟩
  rw [getElem?_offsetsFrom start hk, List.take_succ_eq_append_getElem hk, codeSize_append, codeSize,
    codeSize, Nat.add_zero, Nat.add_assoc]

/-- **Looking an offset up inverts the layout.** The layout of `n` instructions has `n + 1` entries,
which start at zero and ascend by the sizes of the instructions. The index of each entry is found, the
end of the code included, and no other offset is; the search by halves agrees. -/
theorem lookup_inverts_layout {xs : List Instruction} {offsets : List Nat}
    (h : layout xs = .ok offsets) :
    offsets.length = xs.length + 1 ∧ offsets.Pairwise (· < ·) ∧ offsets[0]? = some 0 ∧
      (∀ i x, xs[i]? = some x →
        ∃ o, offsets[i]? = some o ∧ offsets[i + 1]? = some (o + x.size)) ∧
      (∀ i o, offsets[i]? = some o → indexOfOffset offsets o = .ok i) ∧
      (∀ o, o ∉ offsets → indexOfOffset offsets o = .error (.malformed (.notBoundary o))) ∧
      ∀ o, (indexOfOffset offsets o).toOption = bisect? offsets o := by
  obtain ⟨-, rfl⟩ := layout_eq_ok_iff.1 h
  have hasc := pairwise_offsetsFrom 0 xs
  have hfirst : (offsetsFrom 0 xs)[0]? = some 0 := by
    rw [getElem?_offsetsFrom 0 (Nat.zero_le _)]
    rfl
  exact ⟨length_offsetsFrom 0 xs, hasc, hfirst, fun _ _ => getElem?_succ_offsetsFrom 0,
    fun _ _ => indexOfOffset_of_getElem? hasc, fun _ => indexOfOffset_of_not_mem,
    toOption_indexOfOffset (hasc.imp Nat.le_of_lt)⟩

/-- An opcode of two bytes, a switch with two entries, and a short branch. -/
theorem lookup_inverts_layout_switch :
    let xs : List Instruction :=
      [⟨.ldarg, .uint16 1⟩, ⟨.switch, .switch [0, 2]⟩, ⟨.brS, .target 0⟩, ⟨.ret, .none⟩]
    let offsets := [0, 4, 17, 19, 20]
    layout xs = .ok offsets ∧ indexOfOffset offsets 17 = .ok 2 ∧ bisect? offsets 17 = some 2 ∧
      indexOfOffset offsets 18 = .error (.malformed (.notBoundary 18)) := by
  intro xs offsets
  have h : layout xs = .ok offsets := eq_ok_of_toOption (by decide +kernel)
  obtain ⟨-, -, -, -, hfound, hmissed, hhalves⟩ := lookup_inverts_layout h
  have hindex : indexOfOffset offsets 17 = .ok 2 := hfound 2 17 rfl
  exact ⟨h, hindex, by rw [← hhalves, hindex]; rfl, hmissed 18 (by decide)⟩

end CilGraft
