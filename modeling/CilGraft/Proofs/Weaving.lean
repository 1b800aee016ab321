import CilGraft.Injection
import CilGraft.Proofs.Operation
import Mathlib.Data.List.Induction
import Mathlib.Order.Monotone.Basic

/-!
# A call in front of every return

The calls of the exits are inserted one after the other, the last one first; each insertion moves
what stands behind it. `weave t xs` has all of them at once.

* `place`, `landing` — where an instruction of the list stands in `weave t xs`, and where control
  arrives that was to go to it: at the call, if there is one.
* `getElem?_weave_place`, `getElem?_weave_landing`, `exists_of_getElem?_weave` — what stands at
  these positions, and that there are no others.
* `insertOnEntries_returns` — inserting one after the other gives the woven list, with every target
  at its landing.
* `Location.weave`, `Location.place`, `Location.landing` — the same for both locations.
* `sameOperations_of_insertCalls` — **an insertion weaves the calls in and does nothing else**: what
  is compacted afterwards does what the woven list does.
-/

set_option autoImplicit false

namespace CilGraft

/-! ## Moving targets -/

theorem Operand.mapTargets_mapTargets (f g : Nat → Nat) (o : Operand) :
    (o.mapTargets g).mapTargets f = o.mapTargets (f ∘ g) := by
  cases o <;> simp [Operand.mapTargets]

theorem Operand.mapTargets_id (o : Operand) : o.mapTargets (fun s => s) = o := by
  cases o <;> simp [Operand.mapTargets]

namespace Instruction

theorem mapTargets_mapTargets (f g : Nat → Nat) (i : Instruction) :
    (i.mapTargets g).mapTargets f = i.mapTargets (f ∘ g) := by
  simp only [mapTargets, Operand.mapTargets_mapTargets]

theorem mapTargets_comp (f g : Nat → Nat) : mapTargets f ∘ mapTargets g = mapTargets (f ∘ g) :=
  funext (mapTargets_mapTargets f g)

theorem mapTargets_id : mapTargets (fun s => s) = id := by
  funext i
  simp only [mapTargets, Operand.mapTargets_id, id_eq]

@[simp] theorem mapTargets_call (f : Nat → Nat) (t : Token) : (call t).mapTargets f = call t := rfl

end Instruction

/-! ## The woven list -/

/-- The list with a call in front of every return. -/
def weave (t : Token) (xs : List Instruction) : List Instruction :=
  xs.flatMap fun i => if i.isReturn then [Instruction.call t, i] else [i]

/-- The number of returns among the first `k` instructions. -/
def returnsBefore (xs : List Instruction) (k : Nat) : Nat := (xs.take k).countP Instruction.isReturn

/-- Where the instruction at `k` stands in the woven list. -/
def place (xs : List Instruction) (k : Nat) : Nat := k + returnsBefore xs (k + 1)

/-- Where control arrives in the woven list that was to go to the instruction at `k`. -/
def landing (xs : List Instruction) (k : Nat) : Nat := k + returnsBefore xs k

section Positions

variable (t : Token) (i : Instruction) (xs : List Instruction)

theorem returnsBefore_cons_succ (k : Nat) :
    returnsBefore (i :: xs) (k + 1) = returnsBefore xs k + if i.isReturn then 1 else 0 := by
  rw [returnsBefore, List.take_succ_cons, List.countP_cons]
  rfl

theorem returnsBefore_zero : returnsBefore xs 0 = 0 := rfl

theorem weave_cons : weave t (i :: xs) =
    if i.isReturn then Instruction.call t :: i :: weave t xs else i :: weave t xs := by
  unfold weave
  rw [List.flatMap_cons]
  split <;> rfl

theorem length_weave : (weave t xs).length = xs.length + xs.countP Instruction.isReturn := by
  induction xs with
  | nil => rfl
  | cons i xs ih =>
    rw [weave_cons, List.countP_cons]
    split <;> simp only [List.length_cons, ih] <;> omega

theorem returnsBefore_succ (k : Nat) :
    returnsBefore xs (k + 1) =
      returnsBefore xs k + if xs[k]?.any Instruction.isReturn then 1 else 0 := by
  induction xs generalizing k with
  | nil => simp [returnsBefore]
  | cons i xs ih =>
    cases k with
    | zero =>
      rw [returnsBefore_cons_succ, returnsBefore_zero, returnsBefore_zero]
      rfl
    | succ k =>
      rw [returnsBefore_cons_succ, returnsBefore_cons_succ, ih, List.getElem?_cons_succ]
      omega

theorem place_eq_landing (k : Nat) :
    place xs k = landing xs k + if xs[k]?.any Instruction.isReturn then 1 else 0 := by
  rw [place, landing, returnsBefore_succ]
  omega

theorem strictMono_place : StrictMono (place xs) := by
  refine strictMono_nat_of_lt_succ fun k => ?_
  rw [place, place, returnsBefore_succ xs (k + 1)]
  omega

theorem landing_succ (k : Nat) : landing xs (k + 1) = place xs k + 1 := by
  rw [place, landing]
  omega

theorem landing_le_place (k : Nat) : landing xs k ≤ place xs k := by
  rw [place_eq_landing]
  exact Nat.le_add_right _ _

theorem strictMono_landing : StrictMono (landing xs) := by
  refine strictMono_nat_of_lt_succ fun k => ?_
  rw [landing_succ]
  exact Nat.lt_succ_of_le (landing_le_place xs k)

/-! ## What stands where -/

theorem place_cons_succ (k : Nat) :
    place (i :: xs) (k + 1) = place xs k + (1 + if i.isReturn then 1 else 0) := by
  rw [place, place, returnsBefore_cons_succ]
  omega

theorem landing_cons_succ (k : Nat) :
    landing (i :: xs) (k + 1) = landing xs k + (1 + if i.isReturn then 1 else 0) := by
  rw [landing, landing, returnsBefore_cons_succ]
  omega

theorem getElem?_weave_cons_add (q : Nat) :
    (weave t (i :: xs))[q + (1 + if i.isReturn then 1 else 0)]? = (weave t xs)[q]? := by
  rw [weave_cons]
  split <;> rfl

variable {i xs}

theorem place_of_isReturn {k : Nat} (h : xs[k]? = some i) (hret : i.isReturn = true) :
    place xs k = landing xs k + 1 := by
  rw [place_eq_landing, h, Option.any_some, if_pos hret]

/-- The woven list has every instruction at its place. -/
theorem getElem?_weave_place {k : Nat} (h : xs[k]? = some i) :
    (weave t xs)[place xs k]? = some i := by
  induction xs generalizing k with
  | nil => cases h
  | cons j xs ih =>
    cases k with
    | zero =>
      cases h
      rw [place, returnsBefore_cons_succ, returnsBefore_zero, weave_cons]
      split <;> rfl
    | succ k => rw [place_cons_succ, getElem?_weave_cons_add, ih h]

/-- The woven list has a call where control arrives that was to go to a return. -/
theorem getElem?_weave_landing {k : Nat} (h : xs[k]? = some i) (hret : i.isReturn = true) :
    (weave t xs)[landing xs k]? = some (Instruction.call t) := by
  induction xs generalizing k with
  | nil => cases h
  | cons j xs ih =>
    cases k with
    | zero =>
      cases h
      rw [landing, returnsBefore_zero, weave_cons, if_pos hret]
      rfl
    | succ k => rw [landing_cons_succ, getElem?_weave_cons_add, ih h]

/-- Every position of the woven list is that of an instruction or of the call in front of one. -/
theorem exists_of_getElem?_weave {q : Nat} {j : Instruction} (h : (weave t xs)[q]? = some j) :
    (∃ k, xs[k]? = some j ∧ q = place xs k) ∨
      ∃ k i, xs[k]? = some i ∧ i.isReturn = true ∧ q = landing xs k ∧ j = Instruction.call t := by
  induction xs generalizing q with
  | nil => cases h
  | cons i xs ih =>
    by_cases hfar : (1 + if i.isReturn then 1 else 0) ≤ q
    · obtain ⟨q, rfl⟩ := Nat.exists_eq_add_of_le' hfar
      rw [getElem?_weave_cons_add] at h
      obtain ⟨k, hk, rfl⟩ | ⟨k, r, hk, hret, rfl, rfl⟩ := ih h
      · exact Or.inl ⟨k + 1, hk, (place_cons_succ i xs k).symm⟩
      · exact Or.inr ⟨k + 1, r, hk, hret, (landing_cons_succ i xs k).symm, rfl⟩
    · have hplace : place (i :: xs) 0 = if i.isReturn then 1 else 0 := by
        rw [place, returnsBefore_cons_succ, returnsBefore_zero, Nat.zero_add, Nat.zero_add]
      rw [weave_cons] at h
      split at h
      · rename_i hret
        rw [if_pos hret] at hfar hplace
        obtain rfl | rfl : q = 0 ∨ q = 1 := by omega
        · cases h
          exact Or.inr ⟨0, i, rfl, hret, rfl, rfl⟩
        · cases h
          exact Or.inl ⟨0, rfl, hplace.symm⟩
      · rename_i hret
        rw [if_neg hret] at hfar hplace
        obtain rfl : q = 0 := by omega
        cases h
        exact Or.inl ⟨0, rfl, hplace.symm⟩

/-- Control never arrives at a return: it arrives at the call in front of it. -/
theorem isReturn_of_getElem?_weave_landing {k : Nat} {j : Instruction}
    (h : (weave t xs)[landing xs k]? = some j) : j.isReturn = false := by
  obtain ⟨n, hn, heq⟩ | ⟨n, i, -, -, -, rfl⟩ := exists_of_getElem?_weave t h
  · by_contra hret
    -- the place of a return lies strictly between two landings
    have hplace := place_of_isReturn hn (by simpa using hret)
    have hnext := landing_succ xs n
    obtain hlt | hle := Nat.lt_or_ge n k
    · have := (strictMono_landing xs).monotone (show n + 1 ≤ k from hlt)
      omega
    · have := (strictMono_landing xs).monotone hle
      omega
  · rfl

end Positions

/-! ## One insertion after the other -/

/-- Insertions behind a target do not move it. -/
theorem foldr_shiftEnd_of_le {n s : Nat} (xs : List Instruction) (h : s ≤ n) :
    (Body.returnsFrom n xs).foldr (shiftEnd Nat.succ) s = s := by
  induction xs generalizing n with
  | nil => rfl
  | cons i xs ih =>
    have hrest := ih (show s ≤ n + 1 by omega)
    unfold Body.returnsFrom
    split
    · rw [List.foldr_cons, hrest, shiftEnd, if_neg (by omega)]
    · exact hrest

/-- Insertions at the returns, the last one first, move a target to its landing. -/
theorem foldr_shiftEnd_returnsFrom (n k : Nat) (xs : List Instruction) :
    (Body.returnsFrom n xs).foldr (shiftEnd Nat.succ) (n + k) = n + landing xs k := by
  induction xs generalizing n k with
  | nil => simp [Body.returnsFrom, landing, returnsBefore]
  | cons i xs ih =>
    cases k with
    | zero => exact foldr_shiftEnd_of_le (i :: xs) (Nat.le_refl n)
    | succ k =>
      have hrest := ih (n + 1) k
      rw [show n + 1 + k = n + (k + 1) by omega] at hrest
      rw [landing_cons_succ, Body.returnsFrom]
      split
      · rw [List.foldr_cons, hrest, shiftEnd, if_pos (by omega)]
        omega
      · rw [hrest]
        omega

theorem returnsFrom_append (n : Nat) (xs ys : List Instruction) :
    Body.returnsFrom n (xs ++ ys) =
      Body.returnsFrom n xs ++ Body.returnsFrom (n + xs.length) ys := by
  induction xs generalizing n with
  | nil => rfl
  | cons i xs ih =>
    have hrest := ih (n + 1)
    rw [show n + 1 + xs.length = n + (i :: xs).length by rw [List.length_cons]; omega] at hrest
    rw [List.cons_append, Body.returnsFrom, Body.returnsFrom, hrest]
    split <;> rfl

theorem length_returnsFrom (n : Nat) (xs : List Instruction) :
    (Body.returnsFrom n xs).length = xs.countP Instruction.isReturn := by
  induction xs generalizing n with
  | nil => rfl
  | cons i xs ih =>
    rw [Body.returnsFrom, List.countP_cons]
    split
    · rw [List.length_cons, ih]
    · rw [ih]
      rfl

/-- What an insertion makes of a list that is cut at the place of insertion. -/
theorem insertOnEntry_append {b : Body} (i : Instruction) {xs ys : List Instruction}
    (hcode : b.code = xs ++ ys) :
    ∃ b', b.insertOnEntryBy Nat.succ xs.length i = .ok b' ∧
      b'.code = xs.map (Instruction.mapTargets (shiftEnd Nat.succ xs.length)) ++
        i :: ys.map (Instruction.mapTargets (shiftEnd Nat.succ xs.length)) := by
  have hroom : ¬ (xs ++ ys).length < xs.length := by
    rw [List.length_append]
    omega
  have hlen : (xs.map (Instruction.mapTargets (shiftEnd Nat.succ xs.length))).length = xs.length :=
    List.length_map _
  refine ⟨_, by rw [Body.insertOnEntryBy, Body.insert, hcode, if_neg hroom], ?_⟩
  simp only [List.map_append]
  rw [List.take_left' hlen, List.drop_left' hlen]

/-- The returns of a part of the code are behind; `ys` is woven already, and the targets have moved
by `move`. -/
theorem insertOnEntries_append (t : Token) (xs ys : List Instruction) (move : Nat → Nat) {b : Body}
    (hcode : b.code = (xs ++ weave t ys).map (Instruction.mapTargets move)) :
    ∃ b', insertOnEntries Nat.succ t (Body.returnsFrom 0 xs).reverse b = .ok b' ∧
      b'.code = (weave t (xs ++ ys)).map
        (Instruction.mapTargets fun s => (Body.returnsFrom 0 xs).foldr (shiftEnd Nat.succ) (move s)) := by
  induction xs using List.reverseRecOn generalizing ys move b with
  | nil => exact ⟨b, rfl, hcode⟩
  | append_singleton xs i ih =>
    cases hret : i.isReturn with
    | false =>
      have hreturns : Body.returnsFrom 0 (xs ++ [i]) = Body.returnsFrom 0 xs := by
        rw [returnsFrom_append, Body.returnsFrom, hret, if_neg Bool.false_ne_true,
          Body.returnsFrom, List.append_nil]
      have hweave : xs ++ [i] ++ weave t ys = xs ++ weave t (i :: ys) := by
        rw [weave_cons, hret, if_neg Bool.false_ne_true, List.append_assoc]
        rfl
      rw [hweave] at hcode
      rw [hreturns, List.append_assoc]
      exact ih (i :: ys) move hcode
    | true =>
      have hreturns : Body.returnsFrom 0 (xs ++ [i]) = Body.returnsFrom 0 xs ++ [xs.length] := by
        rw [returnsFrom_append, Body.returnsFrom, hret, if_pos rfl, Nat.zero_add]
        rfl
      rw [List.append_assoc, List.map_append] at hcode
      obtain ⟨b', hstep, hcode'⟩ := insertOnEntry_append (Instruction.call t) hcode
      rw [List.length_map] at hstep hcode'
      have hweave : b'.code = (xs ++ weave t (i :: ys)).map
          (Instruction.mapTargets (shiftEnd Nat.succ xs.length ∘ move)) := by
        rw [hcode', weave_cons, hret, if_pos rfl]
        simp only [List.map_append, List.map_cons, List.map_map, List.singleton_append,
          Instruction.mapTargets_call, Instruction.mapTargets_mapTargets,
          Instruction.mapTargets_comp]
      obtain ⟨b'', hsteps, hcode''⟩ := ih (i :: ys) (shiftEnd Nat.succ xs.length ∘ move) hweave
      refine ⟨b'', ?_, ?_⟩
      · rw [hreturns, List.reverse_append, List.reverse_singleton, List.singleton_append,
          insertOnEntries, hstep]
        exact hsteps
      · rw [hcode'', hreturns, List.append_assoc]
        simp only [List.foldr_append, List.foldr_cons, List.foldr_nil, Function.comp_apply]
        rfl

/-- **Inserting a call at every return, the last one first, weaves the calls into the code**, and
every target moves to its landing. -/
theorem insertOnEntries_returns (t : Token) (b : Body) :
    ∃ b', insertOnEntries Nat.succ t b.returns.reverse b = .ok b' ∧
      b'.code = (weave t b.code).map (Instruction.mapTargets (landing b.code)) := by
  have hcode : b.code = (b.code ++ weave t []).map (Instruction.mapTargets fun s => s) := by
    rw [Instruction.mapTargets_id, List.map_id]
    exact (List.append_nil _).symm
  obtain ⟨b', hsteps, hcode'⟩ := insertOnEntries_append t b.code [] (fun s => s) hcode
  refine ⟨b', hsteps, ?_⟩
  have hmove (s : Nat) : (Body.returnsFrom 0 b.code).foldr (shiftEnd Nat.succ) s = landing b.code s := by
    have hshift := foldr_shiftEnd_returnsFrom 0 s b.code
    rwa [Nat.zero_add, Nat.zero_add] at hshift
  rw [hcode', List.append_nil, funext hmove]

/-! ## Both locations -/

namespace Location

/-- The code with the calls of the location, whose targets have not moved yet. -/
def weave (t : Token) : Location → List Instruction → List Instruction
  | .entry, xs => Instruction.call t :: xs
  | .exits, xs => CilGraft.weave t xs

/-- Where the instruction at an index stands when the calls of the location are in. -/
def place : Location → List Instruction → Nat → Nat
  | .entry, _ => Nat.succ
  | .exits, xs => CilGraft.place xs

/-- Where control arrives that was to go to an index when the calls of the location are in. -/
def landing : Location → List Instruction → Nat → Nat
  | .entry, _ => Nat.succ
  | .exits, xs => CilGraft.landing xs

/-- The number of the calls. -/
def count : Location → List Instruction → Nat
  | .entry, _ => 1
  | .exits, xs => xs.countP Instruction.isReturn

variable (l : Location) (xs : List Instruction)

theorem strictMono_place : StrictMono (l.place xs) := by
  cases l with
  | entry => exact fun _ _ => Nat.succ_lt_succ
  | exits => exact CilGraft.strictMono_place xs

theorem length_weave (t : Token) : (l.weave t xs).length = xs.length + l.count xs := by
  cases l with
  | entry => rfl
  | exits => exact CilGraft.length_weave t xs

theorem getElem?_weave_place (t : Token) {k : Nat} {i : Instruction} {xs : List Instruction}
    (h : xs[k]? = some i) : (l.weave t xs)[l.place xs k]? = some i := by
  cases l with
  | entry => exact h
  | exits => exact CilGraft.getElem?_weave_place t h

/-- What is at no place of an instruction is a call. -/
theorem eq_call_of_getElem?_weave (t : Token) {q : Nat} {j : Instruction} {xs : List Instruction}
    (h : (l.weave t xs)[q]? = some j) (hq : ∀ k < xs.length, l.place xs k ≠ q) :
    j = Instruction.call t := by
  cases l with
  | entry =>
    cases q with
    | zero => exact (Option.some.inj h).symm
    | succ q =>
      exact absurd rfl (hq q (Nat.lt_of_succ_lt_succ (List.getElem?_eq_some_iff.1 h).1))
  | exits =>
    obtain ⟨k, hk, rfl⟩ | ⟨k, i, -, -, -, rfl⟩ := exists_of_getElem?_weave t h
    · exact absurd rfl (hq k (List.getElem?_eq_some_iff.1 hk).1)
    · rfl

end Location

/-! ## The canonical forms -/

theorem isReturn_comp_expand :
    Instruction.isReturn ∘ Instruction.expand = Instruction.isReturn :=
  funext Instruction.isReturn_expand

theorem returnsBefore_expandAll (xs : List Instruction) (k : Nat) :
    returnsBefore (expandAll xs) k = returnsBefore xs k := by
  rw [returnsBefore, expandAll, ← List.map_take, List.countP_map, isReturn_comp_expand]
  rfl

theorem place_expandAll (xs : List Instruction) : place (expandAll xs) = place xs := by
  funext k
  rw [place, place, returnsBefore_expandAll]

theorem landing_expandAll (xs : List Instruction) : landing (expandAll xs) = landing xs := by
  funext k
  rw [landing, landing, returnsBefore_expandAll]

theorem getElem?_expandAll {xs : List Instruction} {k : Nat} {i : Instruction}
    (h : xs[k]? = some i) : (expandAll xs)[k]? = some i.expand := by
  rw [expandAll, List.getElem?_map, h, Option.map_some]

theorem exists_of_getElem?_expandAll {xs : List Instruction} {k : Nat} {j : Instruction}
    (h : (expandAll xs)[k]? = some j) :
    ∃ i, xs[k]? = some i ∧ i.isReturn = j.isReturn := by
  rw [expandAll, List.getElem?_map] at h
  obtain ⟨i, hi, rfl⟩ := Option.map_eq_some_iff.1 h
  exact ⟨i, hi, i.isReturn_expand.symm⟩

theorem Location.place_expandAll (l : Location) (xs : List Instruction) :
    l.place (expandAll xs) = l.place xs := by
  cases l with
  | entry => rfl
  | exits => exact CilGraft.place_expandAll xs

theorem Location.landing_expandAll (l : Location) (xs : List Instruction) :
    l.landing (expandAll xs) = l.landing xs := by
  cases l with
  | entry => rfl
  | exits => exact CilGraft.landing_expandAll xs

theorem Location.count_expandAll (l : Location) (xs : List Instruction) :
    l.count (expandAll xs) = l.count xs := by
  cases l with
  | entry => rfl
  | exits =>
    show (expandAll xs).countP _ = xs.countP _
    rw [expandAll, List.countP_map, isReturn_comp_expand]

/-! ## Insertion -/

/-- The instructions of two lists do the same, one by one, and go to the same targets. -/
structure SameOperations (xs ys : List Instruction) : Prop where
  operation : ys.map Instruction.operation = xs.map Instruction.operation
  targets : ys.map Instruction.targets = xs.map Instruction.targets

theorem sameOperations_optimize (xs : List Instruction) : SameOperations xs (optimize xs).1 where
  operation := map_optimize Instruction.operation_compact Instruction.operation_widen
    Instruction.operation_shorten xs
  targets := map_optimize Instruction.targets_compact Instruction.targets_widen
    Instruction.targets_shorten xs

theorem SameOperations.length_eq {xs ys : List Instruction} (h : SameOperations xs ys) :
    ys.length = xs.length := by
  have hlen := congrArg List.length h.operation
  rwa [List.length_map, List.length_map] at hlen

theorem SameOperations.symm {xs ys : List Instruction} (h : SameOperations xs ys) :
    SameOperations ys xs :=
  ⟨h.operation.symm, h.targets.symm⟩

/-- What stands at a position of one list has its like at the same position of the other. -/
theorem SameOperations.exists_getElem? {xs ys : List Instruction} (h : SameOperations xs ys)
    {q : Nat} {i : Instruction} (hi : xs[q]? = some i) :
    ∃ j, ys[q]? = some j ∧ j.operation = i.operation ∧ j.targets = i.targets := by
  have hoperation := congrArg (·[q]?) h.operation
  have htargets := congrArg (·[q]?) h.targets
  simp only [List.getElem?_map, hi, Option.map_some] at hoperation htargets
  obtain ⟨j, hj, hjo⟩ := Option.map_eq_some_iff.1 hoperation
  rw [hj] at htargets
  exact ⟨j, hj, hjo, Option.some.inj htargets⟩

/-- The calls that are placed, in canonical forms. -/
theorem placeCalls_eq_ok (b : Body) (t : Token) (l : Location) :
    ∃ b', placeCalls b t l = .ok (l.count b.code, b') ∧
      b'.code = (l.weave t b.code).map (Instruction.mapTargets (l.landing b.code)) := by
  cases l with
  | entry =>
    have hmove : shiftStart Nat.succ 0 = Nat.succ := funext fun s => if_pos (Nat.zero_le s)
    have hroom : ¬ b.code.length < 0 := Nat.not_lt_zero _
    simp only [placeCalls, Body.insertBeforeBy, Body.insert, if_neg hroom, hmove]
    exact ⟨_, rfl, rfl⟩
  | exits =>
    obtain ⟨b', hsteps, hcode⟩ := insertOnEntries_returns t b
    refine ⟨b', ?_, hcode⟩
    rw [placeCalls, hsteps, Body.returns, length_returnsFrom]
    rfl

/-- An insertion that succeeds compacts the code with the calls and leaves the handlers as they have
been placed. -/
theorem insertCalls_cases {b b' : Body} {t : Token} {l : Location} {count : Nat}
    (h : insertCalls b t l = .ok (count, b')) :
    ∃ placed, placeCalls b.expandAll t l = .ok (count, placed) ∧
      b'.code = (optimize placed.code).1 ∧ b'.handlers = placed.handlers := by
  unfold insertCalls at h
  split at h
  · cases h
  · rename_i count' placed hplaced
    split at h
    · cases h
    · rename_i hoptimize
      cases h
      have hcompacted : placed.optimize.1 = b' := by rw [hoptimize]
      exact ⟨placed, hplaced, by rw [← hcompacted]; rfl, by rw [← hcompacted]; rfl⟩

/-- **What an insertion makes of the code**: the calls are woven in, every target moves to its
landing, and nothing else is done. -/
theorem sameOperations_of_insertCalls {b b' : Body} {t : Token} {l : Location} {count : Nat}
    (h : insertCalls b t l = .ok (count, b')) :
    count = l.count b.code ∧
      SameOperations ((l.weave t (expandAll b.code)).map
        (Instruction.mapTargets (l.landing b.code))) b'.code := by
  obtain ⟨placed, hplaced, hcompacted, -⟩ := insertCalls_cases h
  obtain ⟨placed', hplaced', hcode⟩ := placeCalls_eq_ok b.expandAll t l
  have hexpand : b.expandAll.code = expandAll b.code := rfl
  rw [hexpand, Location.landing_expandAll] at hcode
  rw [hplaced, hexpand, Location.count_expandAll] at hplaced'
  cases hplaced'
  rw [hcompacted, ← hcode]
  exact ⟨rfl, sameOperations_optimize placed.code⟩

end CilGraft
