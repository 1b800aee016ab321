import CilGraft.Cil.Layout

/-!
# Offsets of a layout

A layout lists the running sums of the sizes of the instructions.  Instructions are not empty, so
the offsets ascend strictly and each of them belongs to one index.

* `layout_eq_ok_iff` — a list has a layout exactly when its end fits 32 bits.
* `getElem?_offsetsFrom` — the entry at an index is the size of the code in front of it.
* `indexOfOffset_of_getElem?` — looking an entry up gives its index back, the end of the code
  included; `getElem?_of_indexOfOffset` — what is found is an entry.
-/

set_option autoImplicit false

namespace CilGraft

/-! ## Sizes -/

theorem codeSize_append (xs ys : List Instruction) :
    codeSize (xs ++ ys) = codeSize xs + codeSize ys := by
  induction xs with
  | nil => simp [codeSize]
  | cons i rest ih => rw [List.cons_append, codeSize, codeSize, ih, Nat.add_assoc]

theorem codeSize_take_le (xs : List Instruction) (k : Nat) :
    codeSize (xs.take k) ≤ codeSize xs := by
  have h := codeSize_append (xs.take k) (xs.drop k)
  rw [List.take_append_drop] at h
  omega

/-! ## The list of offsets -/

theorem layoutFrom_eq_ok_iff {start : Nat} {xs : List Instruction} {offsets : List Nat}
    (hstart : start < 0x100000000) :
    layoutFrom start xs = .ok offsets ↔
      start + codeSize xs < 0x100000000 ∧ offsets = offsetsFrom start xs := by
  induction xs generalizing start offsets with
  | nil =>
    rw [layoutFrom, codeSize, offsetsFrom, Except.ok.injEq, Nat.add_zero]
    exact ⟨fun h => ⟨hstart, h.symm⟩, fun h => h.2.symm⟩
  | cons i rest ih =>
    simp only [layoutFrom, codeSize, offsetsFrom]
    split
    · refine iff_of_false (fun h => by cases h) ?_
      omega
    · split
      · refine iff_of_false (fun h => by cases h) ?_
        omega
      · rename_i hnext
        have hi : start + i.size < 0x100000000 := by omega
        split
        · rename_i os hos
          obtain ⟨hend, rfl⟩ := (ih hi).1 hos
          rw [← Nat.add_assoc]
          exact ⟨fun h => by cases h; exact ⟨hend, rfl⟩, fun h => by rw [h.2]⟩
        · rename_i e he
          refine iff_of_false (fun h => by cases h) fun h => ?_
          rw [(ih hi).2 ⟨by omega, rfl⟩] at he
          cases he

/-- **A list has a layout exactly when its end fits 32 bits**, and the layout is the list of the
running sums. -/
theorem layout_eq_ok_iff {xs : List Instruction} {offsets : List Nat} :
    layout xs = .ok offsets ↔ codeSize xs < 0x100000000 ∧ offsets = offsetsFrom 0 xs := by
  unfold layout
  rw [layoutFrom_eq_ok_iff (by decide), Nat.zero_add]

theorem getElem?_offsetsFrom (start : Nat) {k : Nat} {xs : List Instruction} (h : k ≤ xs.length) :
    (offsetsFrom start xs)[k]? = some (start + codeSize (xs.take k)) := by
  induction xs generalizing start k with
  | nil =>
    obtain rfl : k = 0 := by simpa using h
    rfl
  | cons i rest ih =>
    cases k with
    | zero => simp [offsetsFrom, codeSize]
    | succ k =>
      rw [List.length_cons] at h
      rw [offsetsFrom, List.getElem?_cons_succ, ih _ (by omega), List.take_succ_cons, codeSize,
        Nat.add_assoc]

theorem getElem?_offsetsFrom_length (start : Nat) (xs : List Instruction) :
    (offsetsFrom start xs)[xs.length]? = some (start + codeSize xs) := by
  rw [getElem?_offsetsFrom start (Nat.le_refl _), List.take_length]

theorem le_of_getElem?_offsetsFrom {start k o : Nat} {xs : List Instruction}
    (h : (offsetsFrom start xs)[k]? = some o) : k ≤ xs.length := by
  have hk := (List.getElem?_eq_some_iff.1 h).1
  rw [length_offsetsFrom] at hk
  omega

/-- No entry lies behind the end of the code. -/
theorem le_end_of_getElem?_offsetsFrom {start k o : Nat} {xs : List Instruction}
    (h : (offsetsFrom start xs)[k]? = some o) : o ≤ start + codeSize xs := by
  have hk := le_of_getElem?_offsetsFrom h
  rw [getElem?_offsetsFrom start hk] at h
  cases h
  have := codeSize_take_le xs k
  omega

theorem le_of_mem_offsetsFrom {start o : Nat} {xs : List Instruction}
    (h : o ∈ offsetsFrom start xs) : start ≤ o := by
  obtain ⟨k, hk⟩ := List.mem_iff_getElem?.1 h
  rw [getElem?_offsetsFrom start (le_of_getElem?_offsetsFrom hk)] at hk
  cases hk
  omega

theorem pairwise_offsetsFrom (start : Nat) (xs : List Instruction) :
    (offsetsFrom start xs).Pairwise (· < ·) := by
  induction xs generalizing start with
  | nil => simp [offsetsFrom]
  | cons i rest ih =>
    refine List.pairwise_cons.2 ⟨fun o ho => ?_, ih _⟩
    have hle := le_of_mem_offsetsFrom ho
    have hpos := i.size_pos
    omega

/-! ## Looking an offset up -/

/-- In an ascending list, the entries up to the one at an index are those in front of it and the
entry itself. -/
theorem takeWhile_le_of_getElem? {os : List Nat} {k o : Nat} (hasc : os.Pairwise (· < ·))
    (h : os[k]? = some o) : os.takeWhile (· ≤ o) = os.take (k + 1) := by
  induction os generalizing k with
  | nil => simp at h
  | cons a os ih =>
    obtain ⟨ha, hos⟩ := List.pairwise_cons.1 hasc
    cases k with
    | zero =>
      obtain rfl : a = o := by simpa using h
      have hstop : os.takeWhile (· ≤ a) = [] := by
        cases os with
        | nil => rfl
        | cons b os =>
          have hb := ha b List.mem_cons_self
          rw [List.takeWhile_cons_of_neg (by simpa using hb)]
      rw [List.takeWhile_cons_of_pos (by simp), hstop]
      rfl
    | succ k =>
      rw [List.getElem?_cons_succ] at h
      have hao := ha o (List.mem_of_getElem? h)
      rw [List.takeWhile_cons_of_pos (by simpa using Nat.le_of_lt hao), ih hos h,
        List.take_succ_cons]

/-- **Looking an entry of an ascending list up gives its index back.** -/
theorem indexOfOffset_of_getElem? {os : List Nat} {k o : Nat} (hasc : os.Pairwise (· < ·))
    (h : os[k]? = some o) : indexOfOffset os o = .ok k := by
  have hk := (List.getElem?_eq_some_iff.1 h).1
  have hlen : (os.take (k + 1)).length = k + 1 := by simp; omega
  have hlast : (os.take (k + 1)).getLast? = some o := by
    rw [List.getLast?_eq_getElem?, hlen, Nat.add_sub_cancel, List.getElem?_take_of_lt (by omega), h]
  simp [indexOfOffset, takeWhile_le_of_getElem? hasc h, hlast, hlen]

/-- An offset that is found is the entry at the index. -/
theorem getElem?_of_indexOfOffset {os : List Nat} {k o : Nat} (h : indexOfOffset os o = .ok k) :
    os[k]? = some o := by
  unfold indexOfOffset at h
  simp only at h
  split at h
  · rename_i last hlast
    split at h
    · rename_i heq
      subst heq
      cases h
      rw [List.getLast?_eq_getElem?] at hlast
      have hstart : os.takeWhile (· ≤ last) <+: os := List.takeWhile_prefix _
      generalize os.takeWhile (· ≤ last) = upTo at hlast hstart ⊢
      obtain ⟨rest, rfl⟩ := hstart
      rw [List.getElem?_append_left (List.getElem?_eq_some_iff.1 hlast).1, hlast]
    · cases h
  · cases h

end CilGraft
