import CilGraft.Proofs.Weaving

/-!
# Indices of machine words

An insertion counts indices up. Where the largest machine word is counted up, the result is the first
index; nothing in a body keeps its targets and its ranges away from there. A body has *room* for
insertions if none of its indices can get that far. Then it makes no difference whether indices are
machine words or have no largest one.

* `Body.indices` — the indices that a body refers to.
* `Body.HasRoom n` — `n` insertions can be made.
* `Body.insertBeforeBy_nextIndex`, `Body.insertOnEntryBy_nextIndex` — one insertion with room for it.
* `Body.hasRoom_of_insert` — an insertion takes up the room for one.
* `inject_nextIndex` — **an injection with room for its calls is the same with machine words**.
-/

set_option autoImplicit false

namespace CilGraft

/-! ## Room -/

/-- The indices that the handler refers to. -/
def Handler.indices (h : Handler) : List Nat :=
  h.tryStart :: h.tryEnd :: h.handlerStart :: h.handlerEnd :: h.filterStart.toList

namespace Body

/-- The indices that the body refers to. -/
def indices (b : Body) : List Nat :=
  b.code.flatMap Instruction.targets ++ b.handlers.flatMap Handler.indices

/-- No index of the body gets past the largest one by insertions of that number. -/
def HasRoom (count : Nat) (b : Body) : Prop := ∀ x ∈ b.indices, x + count ≤ lastIndex

instance (count : Nat) (b : Body) : Decidable (b.HasRoom count) :=
  inferInstanceAs (Decidable (∀ x ∈ b.indices, x + count ≤ lastIndex))

theorem mem_indices_of_target {b : Body} {i : Instruction} {t : Nat} (hi : i ∈ b.code)
    (ht : t ∈ i.targets) : t ∈ b.indices :=
  List.mem_append_left _ (List.mem_flatMap.2 ⟨i, hi, ht⟩)

theorem mem_indices_of_handler {b : Body} {h : Handler} {x : Nat} (hh : h ∈ b.handlers)
    (hx : x ∈ h.indices) : x ∈ b.indices :=
  List.mem_append_right _ (List.mem_flatMap.2 ⟨h, hh, hx⟩)

theorem HasRoom.mono {b : Body} {m n : Nat} (h : b.HasRoom n) (hle : m ≤ n) : b.HasRoom m :=
  fun x hx => Nat.le_trans (Nat.add_le_add_left hle x) (h x hx)

end Body

/-! ## One insertion -/

section Shifts

variable {at_ x : Nat}

theorem shiftStart_nextIndex (h : x < lastIndex) :
    shiftStart nextIndex at_ x = shiftStart Nat.succ at_ x := by
  rw [shiftStart, shiftStart, nextIndex_of_lt h]

theorem shiftEnd_nextIndex (h : x < lastIndex) :
    shiftEnd nextIndex at_ x = shiftEnd Nat.succ at_ x := by
  rw [shiftEnd, shiftEnd, nextIndex_of_lt h]

theorem shiftStart_le : shiftStart Nat.succ at_ x ≤ x + 1 := by
  unfold shiftStart
  split <;> omega

theorem shiftEnd_le : shiftEnd Nat.succ at_ x ≤ x + 1 := by
  unfold shiftEnd
  split <;> omega

end Shifts

theorem Instruction.mapTargets_congr {f g : Nat → Nat} {i : Instruction}
    (h : ∀ t ∈ i.targets, f t = g t) : i.mapTargets f = i.mapTargets g := by
  obtain ⟨op, o⟩ := i
  cases o with
  | target t => rw [mapTargets, Operand.mapTargets, h t (List.mem_singleton_self t)]; rfl
  | switch ts =>
    have hsame : ts.map f = ts.map g := List.map_congr_left h
    simp only [mapTargets, Operand.mapTargets, hsame]
  | _ => rfl

theorem Handler.shiftBy_nextIndex (at_ : Nat) {h : Handler} (hroom : ∀ x ∈ h.indices, x < lastIndex) :
    h.shiftBy nextIndex at_ = h.shiftBy Nat.succ at_ := by
  obtain ⟨flags, tryStart, tryEnd, handlerStart, handlerEnd, filterStart, classToken⟩ := h
  simp only [indices, List.forall_mem_cons] at hroom
  obtain ⟨htry, htryEnd, hhandler, hhandlerEnd, hfilter⟩ := hroom
  have hsame : filterStart.map (shiftStart nextIndex at_) =
      filterStart.map (shiftStart Nat.succ at_) := by
    cases filterStart with
    | none => rfl
    | some x => exact congrArg some (shiftStart_nextIndex (hfilter x (List.mem_singleton_self x)))
  simp only [shiftBy, shiftStart_nextIndex htry, shiftEnd_nextIndex htryEnd,
    shiftStart_nextIndex hhandler, shiftEnd_nextIndex hhandlerEnd, hsame]

theorem Handler.exists_of_mem_indices_shiftBy {at_ x : Nat} {h : Handler}
    (hx : x ∈ (h.shiftBy Nat.succ at_).indices) : ∃ y ∈ h.indices, x ≤ y + 1 := by
  obtain ⟨flags, tryStart, tryEnd, handlerStart, handlerEnd, filterStart, classToken⟩ := h
  simp only [indices, shiftBy, List.mem_cons, Option.mem_toList, Option.map_eq_some_iff] at hx ⊢
  obtain rfl | rfl | rfl | rfl | ⟨y, hy, rfl⟩ := hx
  · exact ⟨tryStart, .inl rfl, shiftStart_le⟩
  · exact ⟨tryEnd, .inr (.inl rfl), shiftEnd_le⟩
  · exact ⟨handlerStart, .inr (.inr (.inl rfl)), shiftStart_le⟩
  · exact ⟨handlerEnd, .inr (.inr (.inr (.inl rfl))), shiftEnd_le⟩
  · exact ⟨y, .inr (.inr (.inr (.inr hy))), shiftStart_le⟩

namespace Body

variable {b b' : Body} {at_ : Nat} {i : Instruction}

theorem HasRoom.lt {x : Nat} (h : b.HasRoom 1) (hx : x ∈ b.indices) : x < lastIndex := h x hx

/-- **One insertion with room for it is the same with machine words.** -/
theorem insert_nextIndex {move move' : Nat → Nat} (h : b.HasRoom 1)
    (hmove : ∀ x, x < lastIndex → move x = move' x) :
    b.insert nextIndex move at_ i = b.insert Nat.succ move' at_ i := by
  have hcode : b.code.map (Instruction.mapTargets move) =
      b.code.map (Instruction.mapTargets move') := List.map_congr_left fun j hj =>
    Instruction.mapTargets_congr fun t ht => hmove t (h.lt (mem_indices_of_target hj ht))
  have hhandlers : b.handlers.map (Handler.shiftBy nextIndex at_) =
      b.handlers.map (Handler.shiftBy Nat.succ at_) := List.map_congr_left fun c hc =>
    c.shiftBy_nextIndex at_ fun x hx => h.lt (mem_indices_of_handler hc hx)
  rw [insert, insert, hcode, hhandlers]

theorem insertBeforeBy_nextIndex (at_ : Nat) (i : Instruction) (h : b.HasRoom 1) :
    b.insertBeforeBy nextIndex at_ i = b.insertBeforeBy Nat.succ at_ i :=
  insert_nextIndex h fun _ hx => shiftStart_nextIndex hx

theorem insertOnEntryBy_nextIndex (at_ : Nat) (i : Instruction) (h : b.HasRoom 1) :
    b.insertOnEntryBy nextIndex at_ i = b.insertOnEntryBy Nat.succ at_ i :=
  insert_nextIndex h fun _ hx => shiftEnd_nextIndex hx

/-- An insertion takes up the room for one. -/
theorem hasRoom_of_insert {move : Nat → Nat} {count : Nat} (h : b.HasRoom (count + 1))
    (hi : ∀ t ∈ i.targets, t + count ≤ lastIndex) (hmove : ∀ x, move x ≤ x + 1)
    (hb' : b.insert Nat.succ move at_ i = .ok b') : b'.HasRoom count := by
  unfold insert at hb'
  split at hb'
  · cases hb'
  cases hb'
  intro x hx
  obtain hx | hx := List.mem_append.1 hx
  · obtain ⟨j, hj, ht⟩ := List.mem_flatMap.1 hx
    have hcases : j = i ∨ j ∈ b.code.map (Instruction.mapTargets move) := by
      obtain hj | hj := List.mem_append.1 hj
      · exact .inr (List.mem_of_mem_take hj)
      · obtain rfl | hj := List.mem_cons.1 hj
        · exact .inl rfl
        · exact .inr (List.mem_of_mem_drop hj)
    obtain rfl | hj := hcases
    · exact hi x ht
    · obtain ⟨old, hold, rfl⟩ := List.mem_map.1 hj
      rw [Instruction.targets_mapTargets] at ht
      obtain ⟨s, hs, rfl⟩ := List.mem_map.1 ht
      have hlast := h s (mem_indices_of_target hold hs)
      have hle := hmove s
      omega
  · obtain ⟨c, hc, hx⟩ := List.mem_flatMap.1 hx
    obtain ⟨old, hold, rfl⟩ := List.mem_map.1 hc
    obtain ⟨y, hy, hle⟩ := Handler.exists_of_mem_indices_shiftBy hx
    have hlast := h y (mem_indices_of_handler hold hy)
    omega

end Body

/-! ## Injections -/

theorem Instruction.targets_expand_subset (i : Instruction) : i.expand.targets ⊆ i.targets := by
  unfold expand
  split
  · exact fun _ ht => ht
  · split
    · rename_i hindex
      unfold expandIndex? at hindex
      split at hindex
      · cases hindex
        exact List.nil_subset _
      · split at hindex
        · cases hindex
          exact List.nil_subset _
        · cases hindex
    · unfold expandConstant?
      split
      · exact List.nil_subset _
      · split
        · exact List.nil_subset _
        · exact fun _ ht => ht

/-- The canonical forms refer to no other indices. -/
theorem Body.HasRoom.expandAll {b : Body} {count : Nat} (h : b.HasRoom count) :
    b.expandAll.HasRoom count := by
  intro x hx
  obtain hx | hx := List.mem_append.1 hx
  · obtain ⟨j, hj, hx⟩ := List.mem_flatMap.1 hx
    obtain ⟨i, hi, rfl⟩ := List.mem_map.1 hj
    exact h x (mem_indices_of_target hi (i.targets_expand_subset hx))
  · exact h x (List.mem_append_right _ hx)

section Calls

variable {b : Body} {t : Token}

theorem insertOnEntries_nextIndex {points : List Nat} (h : b.HasRoom points.length) :
    insertOnEntries nextIndex t points b = insertOnEntries Nat.succ t points b := by
  induction points generalizing b with
  | nil => rfl
  | cons at_ points ih =>
    have hstep := Body.insertOnEntryBy_nextIndex at_ (Instruction.call t)
      (h.mono (Nat.le_add_left 1 points.length))
    have hcall : ∀ s ∈ (Instruction.call t).targets, s + points.length ≤ lastIndex :=
      List.forall_mem_nil _
    rw [insertOnEntries, insertOnEntries, hstep]
    split
    · rfl
    · rename_i b' hb'
      exact ih (Body.hasRoom_of_insert h hcall (fun _ => shiftEnd_le) hb')

theorem placeCalls_nextIndex {l : Location} (h : b.HasRoom (l.count b.code)) :
    placeCalls b t l nextIndex = placeCalls b t l := by
  cases l with
  | entry =>
    have hstep := Body.insertBeforeBy_nextIndex 0 (Instruction.call t) h
    simp only [placeCalls, hstep]
  | exits =>
    have hlength : b.returns.reverse.length = Location.exits.count b.code := by
      rw [List.length_reverse, Body.returns, length_returnsFrom]
      rfl
    have hsteps := insertOnEntries_nextIndex (t := t) (b := b) (hlength ▸ h)
    simp only [placeCalls, hsteps]

theorem insertCalls_nextIndex {l : Location} (h : b.HasRoom (l.count b.code)) :
    insertCalls b t l nextIndex = insertCalls b t l := by
  have hroom : b.expandAll.HasRoom (l.count b.expandAll.code) := by
    have hcount : l.count b.expandAll.code = l.count b.code := l.count_expandAll b.code
    exact hcount ▸ h.expandAll
  rw [insertCalls, insertCalls, placeCalls_nextIndex hroom]

end Calls

/-- **An injection with room for its calls is the same with machine words**, whatever becomes of it:
what is said of injections without a largest index is said of those that count in machine words. -/
theorem inject_nextIndex {m : Module} {target : MethodPlace} {patch : ExternalMethod} {l : Location}
    (h : ∀ b, patchableBody m target = .ok b → b.HasRoom (l.count b.code)) :
    inject m target patch l nextIndex = inject m target patch l := by
  unfold inject
  split
  · rfl
  · rename_i b hbody
    have hcalls (t : Token) := insertCalls_nextIndex (t := t) (h b hbody)
    simp only [hcalls]

end CilGraft
