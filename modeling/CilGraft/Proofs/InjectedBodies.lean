import CilGraft.Gate
import CilGraft.Proofs.ControlFlow
import CilGraft.Proofs.Shrinking

/-!
# Whether an injection leaves a body that can be written

The code that an injection leaves can be written whenever the old code could, as long as it stays
below 2 GiB in its longest forms.  The handlers are another matter: a start moves with the
instruction it names, an end with the one in front of it, and where a range is empty the two are
torn apart by a call that is inserted right there.

* `handlers_of_insertCalls` — where the starts and the ends of the handlers go.
* `Handler.EmptyAt`, `fits_moved_iff` — the handlers that no longer fit are those with an empty
  range at a point of insertion.
* `codeFits_of_insertCalls` — the code can be written.
* `bodiesEncode_setModule_iff` — what the gate makes of a module with one other body.
* `encode_inject_iff` — **an injection leaves a body that can be written, and passes the gate,
  exactly when no handler has an empty range at a point of insertion**.
-/

set_option autoImplicit false

namespace CilGraft

/-! ## Starts and ends -/

/-- The handler with its starts and its ends moved. -/
def Handler.moved (start stop : Nat → Nat) (h : Handler) : Handler :=
  { h with
    tryStart := start h.tryStart
    tryEnd := stop h.tryEnd
    handlerStart := start h.handlerStart
    handlerEnd := stop h.handlerEnd
    filterStart := h.filterStart.map start }

theorem Handler.moved_comp_moved (f g f' g' : Nat → Nat) :
    Handler.moved f' g' ∘ Handler.moved f g = Handler.moved (f' ∘ f) (g' ∘ g) := by
  funext h
  simp only [Function.comp_apply, Handler.moved, Option.map_map]

/-- Insertions behind a start do not move it. -/
theorem foldr_shiftStart_of_lt {n s : Nat} (xs : List Instruction) (h : s < n) :
    (Body.returnsFrom n xs).foldr (shiftStart Nat.succ) s = s := by
  induction xs generalizing n with
  | nil => rfl
  | cons i xs ih =>
    have hrest := ih (show s < n + 1 by omega)
    unfold Body.returnsFrom
    split
    · rw [List.foldr_cons, hrest, shiftStart, if_neg (by omega)]
    · exact hrest

/-- Insertions at the returns, the last one first, move a start with the instruction it names. -/
theorem foldr_shiftStart_returnsFrom (n k : Nat) (xs : List Instruction) :
    (Body.returnsFrom n xs).foldr (shiftStart Nat.succ) (n + k) = n + place xs k := by
  induction xs generalizing n k with
  | nil => simp [Body.returnsFrom, place, returnsBefore]
  | cons i xs ih =>
    cases k with
    | zero =>
      have hrest := foldr_shiftStart_of_lt xs (Nat.lt_succ_self n)
      have hplace : place (i :: xs) 0 = if i.isReturn then 1 else 0 := by
        rw [place, returnsBefore_cons_succ, returnsBefore_zero, Nat.zero_add, Nat.zero_add]
      rw [hplace, Nat.add_zero, Body.returnsFrom]
      split
      · rw [List.foldr_cons, hrest, shiftStart, if_pos (Nat.le_refl n)]
      · exact hrest
    | succ k =>
      have hrest := ih (n + 1) k
      rw [show n + 1 + k = n + (k + 1) by omega] at hrest
      rw [place_cons_succ, Body.returnsFrom]
      split
      · rw [List.foldr_cons, hrest, shiftStart, if_pos (by omega)]
        omega
      · rw [hrest]
        omega

/-- The handlers after insertions one after the other. -/
theorem handlers_insertOnEntries {t : Token} {points : List Nat} {b b' : Body}
    (h : insertOnEntries Nat.succ t points b = .ok b') :
    b'.handlers = b.handlers.map
      (Handler.moved (fun s => points.foldl (fun s p => shiftStart Nat.succ p s) s)
        (fun e => points.foldl (fun e p => shiftEnd Nat.succ p e) e)) := by
  induction points generalizing b with
  | nil =>
    cases h
    have hsame : Handler.moved (fun s => s) (fun e => e) = id := by
      funext h
      simp [Handler.moved]
    exact (by rw [hsame, List.map_id] : b'.handlers = b'.handlers.map (Handler.moved _ _))
  | cons p points ih =>
    unfold insertOnEntries at h
    split at h
    · cases h
    · rename_i b₁ hstep
      rw [ih h]
      unfold Body.insertOnEntryBy Body.insert at hstep
      split at hstep
      · cases hstep
      · cases hstep
        show List.map _ (b.handlers.map (Handler.moved (shiftStart Nat.succ p) (shiftEnd Nat.succ p))) = _
        rw [List.map_map, Handler.moved_comp_moved]
        rfl

/-! ## Points of insertion -/

namespace Location

/-- The calls of the location are inserted in front of the instruction at the index. -/
def IsPoint : Location → List Instruction → Nat → Prop
  | .entry, _, k => k = 0
  | .exits, xs, k => xs[k]?.any Instruction.isReturn = true

/-- Where the end of a range goes when the calls of the location are in. -/
def moveEnd : Location → List Instruction → Nat → Nat
  | .entry, _ => shiftEnd Nat.succ 0
  | .exits, xs => CilGraft.landing xs

variable (l : Location) (xs : List Instruction)

theorem moveEnd_expandAll : l.moveEnd (expandAll xs) = l.moveEnd xs := by
  cases l with
  | entry => rfl
  | exits => exact CilGraft.landing_expandAll xs

theorem place_le {k : Nat} (hk : k ≤ xs.length) : l.place xs k ≤ xs.length + l.count xs := by
  cases l with
  | entry => exact Nat.succ_le_succ hk
  | exits =>
    have hle : returnsBefore xs (k + 1) ≤ xs.countP Instruction.isReturn :=
      (List.take_sublist (k + 1) xs).countP_le
    exact Nat.add_le_add hk hle

theorem moveEnd_le {k : Nat} (hk : k ≤ xs.length) : l.moveEnd xs k ≤ xs.length + l.count xs := by
  cases l with
  | entry =>
    show shiftEnd Nat.succ 0 k ≤ xs.length + 1
    unfold shiftEnd
    split <;> omega
  | exits =>
    have hle : returnsBefore xs k ≤ xs.countP Instruction.isReturn :=
      (List.take_sublist k xs).countP_le
    exact Nat.add_le_add hk hle

/-- A range stays in order unless it is empty and a call is inserted right there. -/
theorem place_le_moveEnd_iff {s e : Nat} (hle : s ≤ e) :
    l.place xs s ≤ l.moveEnd xs e ↔ ¬ (s = e ∧ l.IsPoint xs s) := by
  cases l with
  | entry =>
    show s + 1 ≤ shiftEnd Nat.succ 0 e ↔ ¬ (s = e ∧ s = 0)
    unfold shiftEnd
    split <;> omega
  | exits =>
    show CilGraft.place xs s ≤ CilGraft.landing xs e ↔
      ¬ (s = e ∧ xs[s]?.any Instruction.isReturn = true)
    obtain rfl | hlt := Nat.eq_or_lt_of_le hle
    · rw [place_eq_landing]
      by_cases hret : xs[s]?.any Instruction.isReturn = true
      · simp [hret]
      · simp [hret]
    · have hnext := landing_succ xs s
      have hmono := (strictMono_landing xs).monotone (show s + 1 ≤ e from hlt)
      constructor
      · intro _ h
        omega
      · intro _
        omega

end Location

/-- One of the ranges of the handler is empty and stands where calls of the location are
inserted. -/
def Handler.EmptyAt (l : Location) (xs : List Instruction) (h : Handler) : Prop :=
  (h.tryStart = h.tryEnd ∧ l.IsPoint xs h.tryStart) ∨
    (h.handlerStart = h.handlerEnd ∧ l.IsPoint xs h.handlerStart)

/-- **A handler that fits still does, unless one of its ranges is empty at a point of
insertion.** -/
theorem fits_moved_iff {l : Location} {xs : List Instruction} {h : Handler}
    (hfits : h.Fits xs.length) :
    (h.moved (l.place xs) (l.moveEnd xs)).Fits (xs.length + l.count xs) ↔ ¬ h.EmptyAt l xs := by
  have htry := l.place_le_moveEnd_iff xs hfits.try_le
  have hhandler := l.place_le_moveEnd_iff xs hfits.handler_le
  constructor
  · intro hmoved hempty
    obtain hempty | hempty := hempty
    · exact htry.1 hmoved.try_le hempty
    · exact hhandler.1 hmoved.handler_le hempty
  · intro hempty
    refine ⟨htry.2 fun h => hempty (Or.inl h), l.moveEnd_le xs hfits.tryEnd_le,
      hhandler.2 fun h => hempty (Or.inr h), l.moveEnd_le xs hfits.handlerEnd_le, ?_⟩
    intro hflag f hf
    obtain ⟨f', hf', rfl⟩ := Option.map_eq_some_iff.1 hf
    exact l.place_le xs (hfits.filter_le hflag f' hf')

/-! ## The new body -/

section Insertion

variable {b b' : Body} {t : Token} {l : Location} {count : Nat}

theorem handlers_placeCalls (h : placeCalls b t l = .ok (count, b')) :
    b'.handlers = b.handlers.map (Handler.moved (l.place b.code) (l.moveEnd b.code)) := by
  cases l with
  | entry =>
    have hmove : shiftStart Nat.succ 0 = Nat.succ := funext fun s => if_pos (Nat.zero_le s)
    have hroom : ¬ b.code.length < 0 := Nat.not_lt_zero _
    simp only [placeCalls, Body.insertBeforeBy, Body.insert, if_neg hroom] at h
    cases h
    show b.handlers.map (Handler.moved (shiftStart Nat.succ 0) (shiftEnd Nat.succ 0)) = _
    rw [hmove]
    rfl
  | exits =>
    simp only [placeCalls] at h
    split at h
    · cases h
    · rename_i placed hplaced
      cases h
      rw [handlers_insertOnEntries hplaced]
      have hstart (s : Nat) :
          b.returns.reverse.foldl (fun s p => shiftStart Nat.succ p s) s = place b.code s := by
        have hshift := foldr_shiftStart_returnsFrom 0 s b.code
        rwa [Nat.zero_add, Nat.zero_add, ← List.foldl_reverse] at hshift
      have hstop (e : Nat) :
          b.returns.reverse.foldl (fun e p => shiftEnd Nat.succ p e) e = landing b.code e := by
        have hshift := foldr_shiftEnd_returnsFrom 0 e b.code
        rwa [Nat.zero_add, Nat.zero_add, ← List.foldl_reverse] at hshift
      rw [funext hstart, funext hstop]
      rfl

/-- **Where the handlers of a body go**: a start to the place of the instruction it names, an end
behind the one in front of it. -/
theorem handlers_of_insertCalls (h : insertCalls b t l = .ok (count, b')) :
    b'.handlers = b.handlers.map (Handler.moved (l.place b.code) (l.moveEnd b.code)) := by
  obtain ⟨placed, hplaced, -, hsame⟩ := insertCalls_cases h
  have hhandlers := handlers_placeCalls hplaced
  have hexpand : b.expandAll.code = expandAll b.code := rfl
  rw [hexpand, Location.place_expandAll, Location.moveEnd_expandAll] at hhandlers
  exact hsame.trans hhandlers

/-- A call takes five bytes. -/
theorem Location.codeSize_weave (l : Location) (t : Token) (xs : List Instruction) :
    codeSize (l.weave t xs) = codeSize xs + 5 * l.count xs := by
  have hcall : (Instruction.call t).size = 5 := rfl
  cases l with
  | entry =>
    show (Instruction.call t).size + codeSize xs = codeSize xs + 5 * 1
    omega
  | exits =>
    show codeSize (CilGraft.weave t xs) = codeSize xs + 5 * xs.countP Instruction.isReturn
    induction xs with
    | nil => rfl
    | cons i xs ih =>
      rw [weave_cons, List.countP_cons]
      split
      · simp only [codeSize, hcall, ih]
        omega
      · simp only [codeSize, ih]
        omega

/-- There is nothing in the woven list but the calls and the list. -/
theorem Location.eq_call_or_mem {xs : List Instruction} {i : Instruction}
    (h : i ∈ l.weave t xs) : i = Instruction.call t ∨ i ∈ xs := by
  cases l with
  | entry => exact List.mem_cons.1 h
  | exits =>
    obtain ⟨q, hq⟩ := List.mem_iff_getElem?.1 h
    obtain ⟨k, hk, -⟩ | ⟨k, i', -, -, -, rfl⟩ := exists_of_getElem?_weave t hq
    · exact Or.inr (List.mem_of_getElem? hk)
    · exact Or.inl rfl

/-- Control arrives inside the woven list. -/
theorem Location.landing_lt (l : Location) (t : Token) {xs : List Instruction} {k : Nat}
    (hk : k < xs.length) : l.landing xs k < (l.weave t xs).length := by
  have hplace := l.getElem?_weave_place t (List.getElem?_eq_getElem hk)
  have hlt := (List.getElem?_eq_some_iff.1 hplace).1
  cases l with
  | entry => exact hlt
  | exits => exact Nat.lt_of_le_of_lt (landing_le_place xs k) hlt

theorem Instruction.targets_expand {i : Instruction} (h : i.isWellFormed = true) :
    i.expand.targets = i.targets := by
  rw [← targets_operation (isWellFormed_expand h), operation_expand, targets_operation h]

/-- What is compacted after an insertion are the calls and the canonical forms of the old code: well
formed, no short branch among them, and every target in the list. -/
theorem forms_of_weave (l : Location) (t : Token) {xs : List Instruction} (hfits : CodeFits xs)
    {i : Instruction} (hi : i ∈ l.weave t (expandAll xs)) :
    i.isWellFormed = true ∧ i.opcode.longBranch? = none ∧
      ∀ s ∈ i.targets, s < (expandAll xs).length := by
  obtain rfl | hi := Location.eq_call_or_mem hi
  · exact ⟨rfl, rfl, nofun⟩
  · obtain ⟨x, hx, rfl⟩ := List.mem_map.1 hi
    obtain ⟨k, hk⟩ := List.mem_iff_getElem?.1 hx
    have hold := hfits k x hk
    refine ⟨Instruction.isWellFormed_expand hold.wellFormed, x.longBranch?_expand, ?_⟩
    rw [Instruction.targets_expand hold.wellFormed, length_expandAll]
    exact hold.target_lt

/-- **The code can still be written**, as long as it stays below 2 GiB in its longest forms. -/
theorem codeFits_of_insertCalls (h : insertCalls b t l = .ok (count, b')) (hfits : CodeFits b.code)
    (hsize : codeSize (expandAll b.code) + 5 * count < 0x80000000) :
    codeSize b'.code < 0x80000000 ∧ CodeFits b'.code := by
  obtain ⟨placed, hplaced, hcompacted, -⟩ := insertCalls_cases h
  obtain ⟨placed', hplaced', hcode⟩ := placeCalls_eq_ok b.expandAll t l
  have hexpand : b.expandAll.code = expandAll b.code := rfl
  rw [hexpand] at hcode hplaced'
  rw [hplaced] at hplaced'
  cases hplaced'
  have hforms (w : Instruction) (hw : w ∈ l.weave t (expandAll b.code)) :=
    forms_of_weave l t hfits hw
  rw [hcompacted, hcode]
  refine codeFits_optimize ?_ ?_ ?_
  · intro i hi
    obtain ⟨w, hw, rfl⟩ := List.mem_map.1 hi
    rw [Instruction.isWellFormed_mapTargets]
    exact (hforms w hw).1
  · intro i hi s hs
    obtain ⟨w, hw, rfl⟩ := List.mem_map.1 hi
    rw [Instruction.targets_mapTargets] at hs
    obtain ⟨s', hs', rfl⟩ := List.mem_map.1 hs
    rw [List.length_map]
    exact l.landing_lt t ((hforms w hw).2.2 s' hs')
  · have hsmaller : List.Forall₂ (fun x y => y.size ≤ x.size) (l.weave t (expandAll b.code))
        (((l.weave t (expandAll b.code)).map
          (Instruction.mapTargets (l.landing (expandAll b.code)))).map Instruction.widen) := by
      rw [List.map_map, List.forall₂_map_right_iff, List.forall₂_same]
      intro w hw
      have hnone : (w.mapTargets (l.landing (expandAll b.code))).opcode.longBranch? = none :=
        (hforms w hw).2.1
      rw [Function.comp_apply, Instruction.widen_of_longBranch?_eq_none hnone,
        Instruction.size_mapTargets]
    have hle := codeSize_le hsmaller
    rw [l.codeSize_weave] at hle
    omega

/-- **Whether the body that an insertion leaves can be written.** -/
theorem exists_encode_insertCalls_iff (h : insertCalls b t l = .ok (count, b'))
    (hb : ∃ data, b.encode = .ok data)
    (hsize : codeSize (expandAll b.code) + 5 * count < 0x80000000) :
    (∃ data, b'.encode = .ok data) ↔ ∀ h ∈ b.handlers, ¬ h.EmptyAt l b.code := by
  obtain ⟨hcode, hfits, hcount⟩ := Body.exists_encode_iff.1 hb
  obtain ⟨hsize', hcode'⟩ := codeFits_of_insertCalls h (exists_encode_iff.1 hcode).2 hsize
  have hlen := length_of_insertCalls h
  have hhandlers := handlers_of_insertCalls h
  have hnumber : count = l.count b.code := (sameOperations_of_insertCalls h).1
  rw [Body.exists_encode_iff, exists_encode_iff, hhandlers, List.length_map]
  have hmoved : (∀ h ∈ b.handlers.map (Handler.moved (l.place b.code) (l.moveEnd b.code)),
      h.Fits b'.code.length) ↔ ∀ h ∈ b.handlers, ¬ h.EmptyAt l b.code := by
    rw [List.forall_mem_map, hlen, hnumber]
    exact forall₂_congr fun h hh => fits_moved_iff (hfits h hh)
  rw [hmoved]
  constructor
  · intro h
    exact h.2.1
  · intro h
    exact ⟨⟨by omega, hcode'⟩, h, hcount⟩

end Insertion

/-! ## The gate -/

/-- Every body of the module has a stored form. -/
def Module.Encodes (m : Module) : Prop :=
  ∀ p b, m.body? p = some b → ∃ data, b.encode = .ok data

theorem Method.encodes_iff {f : Method} :
    f.encodes = true ↔ ∀ b, f.body = some b → ∃ data, b.encode = .ok data := by
  unfold Method.encodes
  cases hbody : f.body with
  | none => exact ⟨fun _ => nofun, fun _ => rfl⟩
  | some b =>
    cases hdata : b.encode with
    | ok data =>
      simp only [hdata]
      refine ⟨fun _ b' hb' => ?_, fun _ => trivial⟩
      cases hb'
      exact ⟨data, hdata⟩
    | error e =>
      simp only [hdata]
      refine ⟨nofun, fun h => ?_⟩
      obtain ⟨data, hok⟩ := h b rfl
      rw [hdata] at hok
      cases hok

theorem Module.encodes_iff {m : Module} :
    (m.types.all fun t => t.methods.all Method.encodes) = true ↔ m.Encodes := by
  simp only [List.all_eq_true, Method.encodes_iff]
  constructor
  · intro h p b hb
    obtain ⟨f, hf, hbody⟩ := Option.bind_eq_some_iff.1 hb
    obtain ⟨t, ht, hf⟩ := Option.bind_eq_some_iff.1 hf
    exact h t (List.mem_of_getElem? ht) f (List.mem_of_getElem? hf) b hbody
  · intro h t ht f hf b hbody
    obtain ⟨i, hi⟩ := List.mem_iff_getElem?.1 ht
    obtain ⟨j, hj⟩ := List.mem_iff_getElem?.1 hf
    refine h ⟨i, j⟩ b ?_
    simp only [Module.body?, Module.method?, Module.owner?, hi, hj, Option.bind_some, hbody]

theorem bodiesEncode_eq_ok_iff {a : Assembly} :
    bodiesEncode a = .ok () ↔ ∀ m ∈ a.modules, m.Encodes := by
  unfold bodiesEncode
  simp only [← Module.encodes_iff, ← List.all_eq_true]
  split
  · rename_i hall
    exact ⟨fun _ => hall, fun _ => rfl⟩
  · rename_i hall
    exact ⟨nofun, fun h => absurd h hall⟩

/-- A module with one other body passes when that body does. -/
theorem Module.encodes_setBody_iff {m : Module} {p : MethodPlace} {b b' : Body} (hm : m.Encodes)
    (hb : m.body? p = some b) :
    (m.setBody p (some b')).Encodes ↔ ∃ data, b'.encode = .ok data := by
  constructor
  · intro h
    exact h p b' (body?_setBody b' hb)
  · intro h q c hc
    by_cases hq : q = p
    · subst hq
      rw [body?_setBody b' hb] at hc
      cases hc
      exact h
    · rw [body?_setBody_of_ne _ hq] at hc
      exact hm q c hc

/-- An assembly with one other module passes when that module does. -/
theorem bodiesEncode_setModule_iff {a : Assembly} {k : Nat} {m m' : Module}
    (ha : bodiesEncode a = .ok ()) (hk : a.modules[k]? = some m) :
    bodiesEncode (a.setModule k m') = .ok () ↔ m'.Encodes := by
  have hlt := (List.getElem?_eq_some_iff.1 hk).1
  rw [bodiesEncode_eq_ok_iff] at ha ⊢
  constructor
  · intro h
    exact h m' (List.mem_set hlt m')
  · intro h n hn
    obtain hn | rfl := List.mem_or_eq_of_mem_set hn
    · exact ha n hn
    · exact h

/-- **Whether an injection leaves a body that can be written.**  The body of a method that can be
written, and whose code stays below 2 GiB in its longest forms with the calls, can be written
afterwards exactly when none of its handlers has an empty range where a call is inserted; and an
assembly that passed the gate before passes it exactly then. -/
theorem encode_inject_iff {m m' : Module} {target : MethodPlace} {patch : ExternalMethod}
    {l : Location} {count : Nat} {b : Body} {data : Bytes}
    (h : inject m target patch l = (.ok (.inserted count), m')) (hbody : m.body? target = some b)
    (hdata : b.encode = .ok data)
    (hsize : codeSize (expandAll b.code) + 5 * count < 0x80000000) :
    ∃ b', m'.body? target = some b' ∧
      ((∃ data', b'.encode = .ok data') ↔ ∀ h ∈ b.handlers, ¬ h.EmptyAt l b.code) ∧
      ∀ (a : Assembly) (k : Nat), a.modules[k]? = some m → bodiesEncode a = .ok () →
        (bodiesEncode (a.setModule k m') = .ok () ↔ ∀ h ∈ b.handlers, ¬ h.EmptyAt l b.code) := by
  obtain ⟨b₀, t, m₁, b', hbody₀, -, -, himport, hinsert, rfl⟩ := inject_cases h
  obtain rfl : b₀ = b := Option.some.inj (hbody₀.symm.trans hbody)
  have htypes := m.types_import_ patch
  rw [himport] at htypes
  have hbody₁ : m₁.body? target = some b₀ := (Module.body?_congr htypes target).trans hbody
  have hencode := exists_encode_insertCalls_iff hinsert ⟨data, hdata⟩ hsize
  refine ⟨b', Module.body?_setBody b' hbody₁, hencode, fun a k hk ha => ?_⟩
  have hm₁ : m₁.Encodes := by
    intro p c hc
    rw [Module.body?_congr htypes p] at hc
    exact bodiesEncode_eq_ok_iff.1 ha m (List.mem_of_getElem? hk) p c hc
  rw [bodiesEncode_setModule_iff ha hk, Module.encodes_setBody_iff hm₁ hbody₁, hencode]

/-- A `finally` whose handler ends at the return, and a protected range that is empty elsewhere. -/
theorem encode_inject_finally :
    let body : Body :=
      ⟨8, ⟨0⟩, false,
        [⟨.ldarg0, .none⟩, ⟨.brfalseS, .target 4⟩, ⟨.leaveS, .target 4⟩, ⟨.endfinally, .none⟩,
          ⟨.ret, .none⟩],
        [⟨⟨2⟩, 0, 3, 3, 4, none, none⟩,
          ⟨⟨2⟩, 2, 2, 3, 4, none, none⟩]⟩
    let m : Module :=
      ⟨"Game", [⟨⟨0x02000001⟩, "", "Player", 1,
        [⟨⟨0x06000001⟩, "Update", 6, [0x20, 0, 1], some body⟩]⟩], [], []⟩
    let patch : ExternalMethod :=
      ⟨"Patch", ⟨⟨0x02000001⟩, "", "Hooks", 1, []⟩, ⟨⟨0x06000001⟩, "After", 0x16, [0, 0, 1], none⟩⟩
    let m' : Module := (inject m ⟨0, 0⟩ patch .exits).2
    (inject m ⟨0, 0⟩ patch .exits).1 = .ok (.inserted 1) ∧
      (∃ data, body.encode = .ok data) ∧
      codeSize (expandAll body.code) + 5 * 1 < 0x80000000 ∧
      ∃ b', m'.body? ⟨0, 0⟩ = some b' ∧
        ((∃ data', b'.encode = .ok data') ↔ ∀ h ∈ body.handlers, ¬ h.EmptyAt .exits body.code) ∧
        ∀ (a : Assembly) (k : Nat), a.modules[k]? = some m → bodiesEncode a = .ok () →
          (bodiesEncode (a.setModule k m') = .ok () ↔
            ∀ h ∈ body.handlers, ¬ h.EmptyAt .exits body.code) := by
  intro body m patch m'
  have h : (inject m ⟨0, 0⟩ patch .exits).1 = .ok (.inserted 1) := by
    simp only [m, patch, body]
    rfl
  obtain ⟨data, hdata⟩ : ∃ data, body.encode = .ok data := by
    simp only [body]
    exact ⟨_, rfl⟩
  have hsize : codeSize (expandAll body.code) + 5 * 1 < 0x80000000 := by
    simp only [body]
    decide
  exact ⟨h, ⟨data, hdata⟩, hsize, encode_inject_iff (Prod.ext h rfl) rfl hdata hsize⟩

/-- A protected range that is empty at the entry: the call stands between its start and its end. -/
theorem encode_inject_empty_range :
    let body : Body :=
      ⟨8, ⟨0⟩, false, [⟨.nop, .none⟩, ⟨.endfinally, .none⟩, ⟨.ret, .none⟩],
        [⟨⟨2⟩, 0, 0, 0, 2, none, none⟩]⟩
    let m : Module :=
      ⟨"Game", [⟨⟨0x02000001⟩, "", "Player", 1,
        [⟨⟨0x06000001⟩, "Update", 6, [0x20, 0, 1], some body⟩]⟩], [], []⟩
    let patch : ExternalMethod :=
      ⟨"Patch", ⟨⟨0x02000001⟩, "", "Hooks", 1, []⟩, ⟨⟨0x06000001⟩, "Run", 0x16, [0, 0, 1], none⟩⟩
    let m' : Module := (inject m ⟨0, 0⟩ patch .entry).2
    let a : Assembly := ⟨"Game", none, [m]⟩
    (∃ data, body.encode = .ok data) ∧ codeSize (expandAll body.code) + 5 * 1 < 0x80000000 ∧
      (inject m ⟨0, 0⟩ patch .entry).1 = .ok (.inserted 1) ∧
      (∃ b', m'.body? ⟨0, 0⟩ = some b' ∧ b'.encode = .error (.malformed .rangeReversed)) ∧
      bodiesEncode a = .ok () ∧ bodiesEncode (a.setModule 0 m') = .error (.integrity "Game") := by
  intro body m patch m' a
  simp only [a, m', m, patch, body]
  exact ⟨⟨_, rfl⟩, by decide, rfl, ⟨_, rfl, rfl⟩, rfl, rfl⟩

end CilGraft
