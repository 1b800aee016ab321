import CilGraft.Proofs.InjectSteps
import CilGraft.Proofs.Weaving
import Mathlib.Data.Finset.Card
import Mathlib.Data.Finset.Range

/-!
# Control flow through an injection

The instructions of a method are all still there after an injection, in their order, and control
goes from one to the other as it did; only the calls of the patch are met on the way.

* `arrival` — where control arrives that was to go to an old instruction.
* `Grafted` — the relation of the old code, the new code and the places of the old instructions.
* `inject_grafted` — **an injection that inserts calls grafts them into the code**.
-/

set_option autoImplicit false

namespace CilGraft

/-! ## Grafted code -/

/-- Where control arrives that was to go to the old instruction at `s`, when the instructions of the
old code have moved to their places: calls of the exits stand in front of a return. -/
def arrival (l : Location) (old : List Instruction) (place : Nat → Nat) (s : Nat) : Nat :=
  if l = .exits ∧ old[s]?.any Instruction.isReturn = true then place s - 1 else place s

/-- The position is the place of no instruction of the old code. -/
def IsAdded (old : List Instruction) (place : Nat → Nat) (q : Nat) : Prop :=
  ∀ k < old.length, place k ≠ q

instance (old : List Instruction) (place : Nat → Nat) : DecidablePred (IsAdded old place) :=
  fun q => inferInstanceAs (Decidable (∀ k < old.length, place k ≠ q))

/-- The new code has every instruction of the old one at its place, and `count` calls besides. -/
structure Grafted (t : Token) (l : Location) (old new : List Instruction) (count : Nat)
    (place : Nat → Nat) : Prop where
  increasing : StrictMono place
  /-- an old instruction does what it did, and its targets are where control now arrives -/
  kept : ∀ k i, old[k]? = some i → ∃ j, new[place k]? = some j ∧
    j.operation = i.operation.mapTargets (arrival l old place)
  added : ∀ q j, new[q]? = some j → IsAdded old place q → j = Instruction.call t
  number : ((Finset.range new.length).filter (IsAdded old place)).card = count
  /-- at the entry there is one call, in front of everything, and no way leads back to it -/
  entry : l = .entry → count = 1 ∧ IsAdded old place 0 ∧ new[0]? = some (Instruction.call t) ∧
    ∀ j ∈ new, 0 ∉ j.targets
  /-- at the exits there is a call right in front of every return -/
  inFront : l = .exits → ∀ k i, old[k]? = some i → i.isReturn = true →
    ∃ q, place k = q + 1 ∧ IsAdded old place q ∧ new[q]? = some (Instruction.call t)
  /-- at the exits there is no other call -/
  nowhereElse : l = .exits → ∀ q < new.length, IsAdded old place q →
    ∃ k i, old[k]? = some i ∧ i.isReturn = true ∧ place k = q + 1
  /-- no way leads to a return but through the call in front of it -/
  returns : l = .exits → ∀ q r, new[q]? = some r → r.isReturn = true →
    (∀ j ∈ new, q ∉ j.targets) ∧
      ∃ p, q = p + 1 ∧ IsAdded old place p ∧ new[p]? = some (Instruction.call t)

/-- The targets of an old instruction are where control now arrives. -/
theorem Grafted.targets {t : Token} {l : Location} {old new : List Instruction} {count : Nat}
    {place : Nat → Nat} (h : Grafted t l old new count place) {k : Nat} {i : Instruction}
    (hk : old[k]? = some i) (hwf : i.isWellFormed = true) :
    ∃ j, new[place k]? = some j ∧
      j.operation.targets = i.targets.map (arrival l old place) := by
  obtain ⟨j, hj, hoperation⟩ := h.kept k i hk
  exact ⟨j, hj, by rw [hoperation, Operation.targets_mapTargets, Instruction.targets_operation hwf]⟩

section Places

variable (l : Location) (xs : List Instruction)

theorem arrival_place : arrival l xs (l.place xs) = l.landing xs := by
  funext s
  cases l with
  | entry => exact if_neg fun h => nomatch h.1
  | exits =>
    have hplace := place_eq_landing xs s
    by_cases hret : xs[s]?.any Instruction.isReturn = true
    · rw [if_pos hret] at hplace
      rw [arrival, if_pos ⟨rfl, hret⟩]
      show place xs s - 1 = landing xs s
      omega
    · rw [if_neg hret] at hplace
      rw [arrival, if_neg fun h => hret h.2]
      exact hplace

/-- As many positions are added as the new code is longer than the old one. -/
theorem card_isAdded {place : Nat → Nat} (hplace : StrictMono place) {n : Nat}
    (hlt : ∀ k < xs.length, place k < n) :
    ((Finset.range n).filter (IsAdded xs place)).card = n - xs.length := by
  have himage : (Finset.range n).filter (IsAdded xs place) =
      Finset.range n \ (Finset.range xs.length).image place := by
    ext q
    simp [IsAdded]
  have hsub : (Finset.range xs.length).image place ⊆ Finset.range n := by
    intro q hq
    obtain ⟨k, hk, rfl⟩ := Finset.mem_image.1 hq
    exact Finset.mem_range.2 (hlt k (Finset.mem_range.1 hk))
  rw [himage, Finset.card_sdiff_of_subset hsub, Finset.card_range,
    Finset.card_image_of_injective _ hplace.injective, Finset.card_range]

/-- The call in front of a return is at no place. -/
theorem isAdded_landing {k : Nat} {i : Instruction} (hk : xs[k]? = some i)
    (hret : i.isReturn = true) : IsAdded xs (place xs) (landing xs k) := by
  intro n _ heq
  have hplace := place_of_isReturn hk hret
  obtain hlt | hle := Nat.lt_or_ge n k
  · have hmono := (strictMono_landing xs).monotone (show n + 1 ≤ k from hlt)
    rw [landing_succ] at hmono
    omega
  · have hmono := (strictMono_place xs).monotone hle
    omega

end Places

section Insertion

variable {b b' : Body} {t : Token} {l : Location} {count : Nat}

/-- What stands in the new code stands in the woven list, with the same targets but moved. -/
theorem exists_woven_of_insertCalls (h : insertCalls b t l = .ok (count, b')) {q : Nat}
    {j : Instruction} (hj : b'.code[q]? = some j) :
    ∃ w, (l.weave t (expandAll b.code))[q]? = some w ∧
      j.operation = w.operation.mapTargets (l.landing b.code) ∧
      j.targets = w.targets.map (l.landing b.code) := by
  obtain ⟨w', hw', hoperation, htargets⟩ :=
    (sameOperations_of_insertCalls h).2.symm.exists_getElem? hj
  rw [List.getElem?_map] at hw'
  obtain ⟨w, hw, rfl⟩ := Option.map_eq_some_iff.1 hw'
  refine ⟨w, hw, ?_, ?_⟩
  · rw [← hoperation, Instruction.operation_mapTargets]
  · rw [← htargets, Instruction.targets_mapTargets]

theorem exists_new_of_insertCalls (h : insertCalls b t l = .ok (count, b')) {q : Nat}
    {w : Instruction} (hw : (l.weave t (expandAll b.code))[q]? = some w) :
    ∃ j, b'.code[q]? = some j ∧ j.operation = w.operation.mapTargets (l.landing b.code) := by
  have hmapped : ((l.weave t (expandAll b.code)).map
      (Instruction.mapTargets (l.landing b.code)))[q]? =
        some (w.mapTargets (l.landing b.code)) := by
    rw [List.getElem?_map, hw, Option.map_some]
  obtain ⟨j, hj, hoperation, -⟩ := (sameOperations_of_insertCalls h).2.exists_getElem? hmapped
  exact ⟨j, hj, by rw [hoperation, Instruction.operation_mapTargets]⟩

/-- The calls of the old code are not told apart from those that are added, but all that is added
are calls. -/
theorem eq_call_of_isAdded (h : insertCalls b t l = .ok (count, b')) {q : Nat} {j : Instruction}
    (hj : b'.code[q]? = some j) (hq : IsAdded b.code (l.place b.code) q) :
    j = Instruction.call t := by
  obtain ⟨w, hw, hoperation, -⟩ := exists_woven_of_insertCalls h hj
  rw [IsAdded, ← length_expandAll b.code, ← Location.place_expandAll l b.code] at hq
  obtain rfl := l.eq_call_of_getElem?_weave t hw hq
  exact Instruction.eq_of_operation_other hoperation

theorem length_of_insertCalls (h : insertCalls b t l = .ok (count, b')) :
    b'.code.length = b.code.length + count := by
  obtain ⟨rfl, hsame⟩ := sameOperations_of_insertCalls h
  rw [hsame.length_eq, List.length_map, Location.length_weave, length_expandAll,
    Location.count_expandAll]

/-- An old instruction is at its place and does what it did. -/
theorem exists_kept_of_insertCalls (h : insertCalls b t l = .ok (count, b')) {k : Nat}
    {i : Instruction} (hk : b.code[k]? = some i) :
    ∃ j, b'.code[l.place b.code k]? = some j ∧
      j.operation = i.operation.mapTargets (arrival l b.code (l.place b.code)) := by
  have hw := l.getElem?_weave_place t (getElem?_expandAll hk)
  rw [Location.place_expandAll] at hw
  obtain ⟨j, hj, hoperation⟩ := exists_new_of_insertCalls h hw
  refine ⟨j, hj, ?_⟩
  rw [hoperation, Instruction.operation_expand, arrival_place]

/-- A return of the new code is one of the woven list. -/
theorem exists_woven_return (h : insertCalls b t .exits = .ok (count, b')) {q : Nat}
    {r : Instruction} (hr : b'.code[q]? = some r) :
    ∃ w, (weave t (expandAll b.code))[q]? = some w ∧ w.isReturn = r.isReturn := by
  obtain ⟨w, hw, hoperation, -⟩ := exists_woven_of_insertCalls h hr
  refine ⟨w, hw, ?_⟩
  rw [← Instruction.isReturn_operation r, hoperation, Operation.isReturn_mapTargets,
    Instruction.isReturn_operation]

/-- No way leads to a return of the new code. -/
theorem not_mem_targets_of_isReturn (h : insertCalls b t .exits = .ok (count, b')) {q : Nat}
    {r : Instruction} (hr : b'.code[q]? = some r) (hret : r.isReturn = true) {j : Instruction}
    (hj : j ∈ b'.code) : q ∉ j.targets := by
  intro hmem
  obtain ⟨p, hp⟩ := List.mem_iff_getElem?.1 hj
  obtain ⟨w, -, -, htargets⟩ := exists_woven_of_insertCalls h hp
  rw [htargets] at hmem
  obtain ⟨s, -, rfl⟩ := List.mem_map.1 hmem
  obtain ⟨w', hw', hsame⟩ := exists_woven_return h hr
  rw [show Location.landing .exits b.code s = landing (expandAll b.code) s by
    rw [landing_expandAll]; rfl] at hw'
  rw [← hsame, isReturn_of_getElem?_weave_landing t hw'] at hret
  cases hret

/-- The call of the entry stands in front of everything, and no way leads to it. -/
theorem entry_of_insertCalls (h : insertCalls b t .entry = .ok (count, b')) :
    b'.code[0]? = some (Instruction.call t) ∧ ∀ j ∈ b'.code, 0 ∉ j.targets := by
  constructor
  · obtain ⟨j, hj, hoperation⟩ := exists_new_of_insertCalls h (q := 0) rfl
    rw [hj, Instruction.eq_of_operation_other hoperation]
    rfl
  · intro j hj hmem
    obtain ⟨p, hp⟩ := List.mem_iff_getElem?.1 hj
    obtain ⟨w, -, -, htargets⟩ := exists_woven_of_insertCalls h hp
    rw [htargets] at hmem
    obtain ⟨s, -, hs⟩ := List.mem_map.1 hmem
    exact absurd hs (Nat.succ_ne_zero s)

/-- The call of an exit stands right in front of the return. -/
theorem exits_of_insertCalls (h : insertCalls b t .exits = .ok (count, b')) {k : Nat}
    {i : Instruction} (hk : b.code[k]? = some i) (hret : i.isReturn = true) :
    ∃ q, place b.code k = q + 1 ∧ IsAdded b.code (place b.code) q ∧
      b'.code[q]? = some (Instruction.call t) := by
  have hw := getElem?_weave_landing t (getElem?_expandAll hk) (i.isReturn_expand.trans hret)
  rw [landing_expandAll] at hw
  obtain ⟨j, hj, -⟩ := exists_new_of_insertCalls h hw
  have hadded := isAdded_landing b.code hk hret
  refine ⟨landing b.code k, place_of_isReturn hk hret, hadded, ?_⟩
  rw [hj, eq_call_of_isAdded h hj hadded]

/-- **Calls that are inserted are grafted into the code.** -/
theorem grafted_of_insertCalls (h : insertCalls b t l = .ok (count, b')) :
    Grafted t l b.code b'.code count (l.place b.code) where
  increasing := l.strictMono_place b.code
  kept _ _ hk := exists_kept_of_insertCalls h hk
  added _ _ hj hq := eq_call_of_isAdded h hj hq
  number := by
    have hlt : ∀ k < b.code.length, l.place b.code k < b'.code.length := by
      intro k hk
      obtain ⟨j, hj, -⟩ := exists_kept_of_insertCalls h (List.getElem?_eq_getElem hk)
      exact (List.getElem?_eq_some_iff.1 hj).1
    rw [card_isAdded b.code (l.strictMono_place b.code) hlt, length_of_insertCalls h,
      Nat.add_sub_cancel_left]
  entry hl := by
    subst hl
    obtain ⟨hcall, htargets⟩ := entry_of_insertCalls h
    exact ⟨(sameOperations_of_insertCalls h).1, fun k _ => Nat.succ_ne_zero k, hcall, htargets⟩
  inFront hl k i hk hret := by
    subst hl
    exact exits_of_insertCalls h hk hret
  nowhereElse hl q hlt hq := by
    subst hl
    obtain ⟨w, hw, -, -⟩ := exists_woven_of_insertCalls h (List.getElem?_eq_getElem hlt)
    obtain ⟨k, hk, rfl⟩ | ⟨k, w', hk, hret, rfl, rfl⟩ := exists_of_getElem?_weave t hw
    · obtain ⟨i, hi, -⟩ := exists_of_getElem?_expandAll hk
      rw [place_expandAll] at hq
      exact absurd rfl (hq k (List.getElem?_eq_some_iff.1 hi).1)
    · obtain ⟨i, hi, hsame⟩ := exists_of_getElem?_expandAll hk
      rw [landing_expandAll]
      exact ⟨k, i, hi, hsame.trans hret, place_of_isReturn hi (hsame.trans hret)⟩
  returns hl q r hr hret := by
    subst hl
    refine ⟨fun j hj => not_mem_targets_of_isReturn h hr hret hj, ?_⟩
    obtain ⟨w, hw, hsame⟩ := exists_woven_return h hr
    obtain ⟨k, hk, rfl⟩ | ⟨k, w', -, -, rfl, rfl⟩ := exists_of_getElem?_weave t hw
    · obtain ⟨i, hi, hsame'⟩ := exists_of_getElem?_expandAll hk
      rw [place_expandAll]
      exact exits_of_insertCalls h hi (hsame'.trans (hsame.trans hret))
    · rw [hret] at hsame
      cases hsame

end Insertion

/-- **Control flow survives an injection.**  When an injection inserts calls, the new body of the
method is the old one with the calls of the referenced patch grafted into it. -/
theorem inject_grafted {m m' : Module} {target : MethodPlace} {patch : ExternalMethod}
    {l : Location} {count : Nat} (h : inject m target patch l = (.ok (.inserted count), m')) :
    ∃ t old new place, (m.import_ patch).1 = .ok t ∧ m.body? target = some old ∧
      m'.body? target = some new ∧ Grafted t l old.code new.code count place := by
  obtain ⟨old, t, m₁, new, hbody, -, -, himport, hinsert, rfl⟩ := inject_cases h
  have htypes := m.types_import_ patch
  rw [himport] at htypes
  refine ⟨t, old, new, l.place old.code, by rw [himport], hbody, ?_, grafted_of_insertCalls hinsert⟩
  exact Module.body?_setBody new ((Module.body?_congr htypes target).trans hbody)

/-- A branch to a return and two returns, at the exits. -/
theorem inject_grafted_branch :
    let body : Body :=
      ⟨8, ⟨0⟩, false, [⟨.ldarg0, .none⟩, ⟨.brfalse, .target 3⟩, ⟨.ret, .none⟩, ⟨.ret, .none⟩], []⟩
    let m : Module :=
      ⟨"Game", [⟨⟨0x02000001⟩, "", "Player", 1,
        [⟨⟨0x06000001⟩, "Update", 6, [0x20, 0, 1], some body⟩]⟩], [], []⟩
    let patch : ExternalMethod :=
      ⟨"Patch", ⟨⟨0x02000001⟩, "", "Hooks", 1, []⟩, ⟨⟨0x06000001⟩, "After", 0x16, [0, 0, 1], none⟩⟩
    (inject m ⟨0, 0⟩ patch .exits).1 = .ok (.inserted 2) ∧
      ∃ t old new place, (m.import_ patch).1 = .ok t ∧ m.body? ⟨0, 0⟩ = some old ∧
        (inject m ⟨0, 0⟩ patch .exits).2.body? ⟨0, 0⟩ = some new ∧
        Grafted t .exits old.code new.code 2 place := by
  intro body m patch
  have h : (inject m ⟨0, 0⟩ patch .exits).1 = .ok (.inserted 2) := by
    simp only [m, patch, body]
    rfl
  exact ⟨h, inject_grafted (Prod.ext h rfl)⟩

end CilGraft
