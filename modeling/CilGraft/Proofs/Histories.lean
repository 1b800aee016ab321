import CilGraft.Proofs.Rerun

/-!
# Histories of requests

Requests come one after the other, for any patches, methods and locations, and some of them fail.
What they have inserted into a method lies in layers: the calls of the entry in front of everything,
the latest one first, and the calls of the exits in front of every return, the latest one last.

* `runRequests`, `layersOf` — the module after requests, and the layers that they have left in a
  method.
* `Layered` — the layers as they stand in the code; `Layered.insertCalls` — one more call;
  `layered_runRequests` — **a whole history**.
* `ExitsCovered` — right in front of every return there are calls, among them a given one.
* `Layers.Misread` — a call of the entry stands where a call of the exits might.
* `covered_or_misread` — **when a patch is reported as present at the exits**: every exit
  has its call, or its call at the entry has been misread.
-/

set_option autoImplicit false

namespace CilGraft

/-! ## Requests -/

/-- A patch, the method that it is for, and where its call is to go. -/
structure PatchRequest where
  target : MethodPlace
  patch : ExternalMethod
  location : Location

/-- The module after a request, whether or not it has succeeded. -/
def PatchRequest.run (m : Module) (r : PatchRequest) : Module :=
  (inject m r.target r.patch r.location).2

/-- The module after requests, one after the other. -/
def runRequests (m : Module) (rs : List PatchRequest) : Module := rs.foldl PatchRequest.run m

/-- The calls that requests have inserted into a method: those of the entry, and those of the exits,
which are the same in front of every return; both in the order of the code. -/
structure Layers where
  entry : List Token
  exits : List Token

/-- The layers with one more call. -/
def Layers.add (ls : Layers) (t : Token) : Location → Layers
  | .entry => { ls with entry := t :: ls.entry }
  | .exits => { ls with exits := ls.exits ++ [t] }

/-- The layers of a method after a request: one that has inserted calls into it adds its token. -/
def PatchRequest.layers (target : MethodPlace) (m : Module) (ls : Layers) (r : PatchRequest) :
    Layers :=
  match (inject m r.target r.patch r.location).1, (m.import_ r.patch).1 with
  | .ok (.inserted _), .ok t => if r.target = target then ls.add t r.location else ls
  | _, _ => ls

/-- The layers of a method after requests, from the given ones on. -/
def layersFrom (target : MethodPlace) (m : Module) (ls : Layers) : List PatchRequest → Layers
  | [] => ls
  | r :: rs => layersFrom target (r.run m) (r.layers target m ls) rs

/-- The layers that requests leave in a method of a module. -/
def layersOf (target : MethodPlace) (m : Module) (rs : List PatchRequest) : Layers :=
  layersFrom target m ⟨[], []⟩ rs

/-! ## Layers in the code -/

/-- The layers as they stand in the code of a method, and where its calls come from. -/
structure Layered (old code : List Instruction) (ls : Layers) : Prop where
  entry : ∀ (k : Nat) (t : Token), ls.entry[k]? = some t → code[k]? = some (Instruction.call t)
  exits : ∀ (q : Nat) (i : Instruction), code[q]? = some i → i.isReturn = true →
    ∃ p, q = p + ls.exits.length ∧
      ∀ (k : Nat) (t : Token), ls.exits[k]? = some t → code[p + k]? = some (Instruction.call t)
  /-- every call is one of the entry, one of the exits, or one of the method itself -/
  calls : ∀ (q : Nat) (t : Token), code[q]? = some (Instruction.call t) →
    ls.entry[q]? = some t ∨ t ∈ ls.exits ∨ Instruction.call t ∈ old

theorem Layered.refl (code : List Instruction) : Layered code code ⟨[], []⟩ where
  entry := by simp
  exits := by
    intro q i _ _
    exact ⟨q, rfl, by simp⟩
  calls := by
    intro q t hq
    exact Or.inr (Or.inr (List.mem_of_getElem? hq))

/-- There is no return among calls. -/
theorem returnsBefore_add_of_calls {xs : List Instruction} {p n : Nat}
    (h : ∀ k < n, ∃ t, xs[p + k]? = some (Instruction.call t)) :
    returnsBefore xs (p + n) = returnsBefore xs p := by
  induction n with
  | zero => rfl
  | succ n ih =>
    have hbefore := ih fun k hk => h k (Nat.lt_succ_of_lt hk)
    obtain ⟨t, ht⟩ := h n (Nat.lt_succ_self n)
    have hcall : (Instruction.call t).isReturn = false := rfl
    rw [← Nat.add_assoc, returnsBefore_succ, hbefore, ht, Option.any_some, hcall]
    rfl

section Insertion

variable {b b' : Body} {t : Token} {l : Location} {count : Nat}

/-- A call is made where the same call was made before. -/
theorem eq_call_of_operation {i : Instruction} {f : Nat → Nat} {s : Token}
    (h : (Instruction.call s).operation = i.operation.mapTargets f) : i = Instruction.call s := by
  cases hop : i.operation with
  | other op o =>
    rw [hop] at h
    obtain ⟨hopcode, hoperand⟩ := Operation.other.inj h
    have ho : o = .token s := by
      cases o with
      | token u =>
        cases hoperand
        rfl
      | _ => cases hoperand
    rw [Instruction.eq_of_operation_other hop, ← hopcode, ho]
    rfl
  | _ =>
    rw [hop] at h
    cases h

/-- What stands in the new code is an added call or has stood in the old code. -/
theorem exists_old_of_insertCalls (h : insertCalls b t l = .ok (count, b')) {q : Nat}
    {j : Instruction} (hj : b'.code[q]? = some j) :
    (IsAdded b.code (l.place b.code) q ∧ j = Instruction.call t) ∨
      ∃ k i, b.code[k]? = some i ∧ l.place b.code k = q ∧ i.isReturn = j.isReturn ∧
        ∀ s, j = Instruction.call s → i = Instruction.call s := by
  by_cases hq : IsAdded b.code (l.place b.code) q
  · exact Or.inl ⟨hq, eq_call_of_isAdded h hj hq⟩
  · obtain ⟨k, hk, rfl⟩ : ∃ k < b.code.length, l.place b.code k = q := by
      simpa [IsAdded] using hq
    obtain ⟨j', hj', hoperation⟩ := exists_kept_of_insertCalls h (List.getElem?_eq_getElem hk)
    obtain rfl : j' = j := Option.some.inj (hj'.symm.trans hj)
    refine Or.inr ⟨k, b.code[k], List.getElem?_eq_getElem hk, rfl, ?_, ?_⟩
    · rw [← Instruction.isReturn_operation j', hoperation, Operation.isReturn_mapTargets,
        Instruction.isReturn_operation]
    · intro s hs
      rw [hs] at hoperation
      exact eq_call_of_operation hoperation

/-- A call of the entry moves the layers by one. -/
theorem Layered.insertEntry {old : List Instruction} {ls : Layers} (h : Layered old b.code ls)
    (hinsert : insertCalls b t .entry = .ok (count, b')) :
    Layered old b'.code (ls.add t .entry) where
  entry := by
    intro k s hs
    cases k with
    | zero =>
      obtain rfl : t = s := by simpa [Layers.add] using hs
      exact (entry_of_insertCalls hinsert).1
    | succ k => exact getElem?_call_of_insertCalls hinsert (h.entry k s hs)
  exits := by
    intro q j hj hret
    rcases exists_old_of_insertCalls hinsert hj with ⟨-, rfl⟩ | ⟨k, i, hi, rfl, hsame, -⟩
    · cases hret
    · obtain ⟨p, rfl, hcalls⟩ := h.exits k i hi (hsame.trans hret)
      refine ⟨p + 1, ?_, ?_⟩
      · show p + ls.exits.length + 1 = p + 1 + ls.exits.length
        omega
      · intro n s hs
        have hnew := getElem?_call_of_insertCalls hinsert (hcalls n s hs)
        rwa [show p + 1 + n = p + n + 1 by omega]
  calls := by
    intro q s hs
    rcases exists_old_of_insertCalls hinsert hs with ⟨hadded, hcall⟩ | ⟨k, i, hi, rfl, -, hcall⟩
    · cases hcall
      have hlt := (List.getElem?_eq_some_iff.1 hs).1
      rw [length_of_insertCalls hinsert, (sameOperations_of_insertCalls hinsert).1] at hlt
      have hcount : Location.count .entry b.code = 1 := rfl
      cases q with
      | zero => exact Or.inl rfl
      | succ q => exact absurd rfl (hadded q (by omega))
    · rw [hcall s rfl] at hi
      exact h.calls k s hi

/-- The calls of the exits leave those of the entry where they are. -/
theorem Layered.place_entry {old code : List Instruction} {ls : Layers} (h : Layered old code ls)
    {k : Nat} (hk : k < ls.entry.length) : Location.place .exits code k = k := by
  have hnone : returnsBefore code (0 + (k + 1)) = returnsBefore code 0 := by
    apply returnsBefore_add_of_calls
    intro n hn
    rw [Nat.zero_add]
    exact ⟨_, h.entry n _ (List.getElem?_eq_getElem (by omega))⟩
  show k + returnsBefore code (k + 1) = k
  rw [← Nat.zero_add (k + 1), hnone, returnsBefore_zero, Nat.add_zero]

/-- A call of the exits comes behind those that stand in front of a return already, which move as a
whole. -/
theorem Layered.exits_insertExits {old : List Instruction} {ls : Layers}
    (h : Layered old b.code ls) (hinsert : insertCalls b t .exits = .ok (count, b')) {k : Nat}
    {i : Instruction} (hi : b.code[k]? = some i) (hret : i.isReturn = true) :
    ∃ p, Location.place .exits b.code k = p + ls.exits.length + 1 ∧
      b'.code[p + ls.exits.length]? = some (Instruction.call t) ∧
      ∀ (n : Nat) (s : Token), ls.exits[n]? = some s →
        b'.code[p + n]? = some (Instruction.call s) := by
  obtain ⟨p, rfl, hcalls⟩ := h.exits k i hi hret
  obtain ⟨q, hq, -, hcall⟩ := exits_of_insertCalls hinsert hi hret
  have hrun : ∀ n ≤ ls.exits.length, returnsBefore b.code (p + n) = returnsBefore b.code p := by
    intro n hn
    apply returnsBefore_add_of_calls
    intro m hm
    exact ⟨_, hcalls m _ (List.getElem?_eq_getElem (by omega))⟩
  have hreturn : Location.place .exits b.code (p + ls.exits.length) =
      landing b.code p + ls.exits.length + 1 := by
    show place b.code (p + ls.exits.length) = _
    rw [place_of_isReturn hi hret, landing, hrun _ (Nat.le_refl _), landing]
    omega
  refine ⟨landing b.code p, hreturn, ?_, ?_⟩
  · have hsame : landing b.code p + ls.exits.length + 1 = q + 1 := hreturn.symm.trans hq
    rwa [Nat.succ.inj hsame]
  · intro n s hs
    have hn := (List.getElem?_eq_some_iff.1 hs).1
    have hplace : Location.place .exits b.code (p + n) = landing b.code p + n := by
      show p + n + returnsBefore b.code (p + n + 1) = _
      rw [Nat.add_assoc p n 1, hrun (n + 1) hn, landing]
      omega
    rw [← hplace]
    exact getElem?_call_of_insertCalls hinsert (hcalls n s hs)

/-- A call of the exits is the last one in front of every return. -/
theorem Layered.insertExits {old : List Instruction} {ls : Layers} (h : Layered old b.code ls)
    (hinsert : insertCalls b t .exits = .ok (count, b')) :
    Layered old b'.code (ls.add t .exits) where
  entry := by
    intro k s hs
    have hk := (List.getElem?_eq_some_iff.1 hs).1
    rw [← h.place_entry hk]
    exact getElem?_call_of_insertCalls hinsert (h.entry k s hs)
  exits := by
    intro q j hj hret
    rcases exists_old_of_insertCalls hinsert hj with ⟨-, rfl⟩ | ⟨k, i, hi, rfl, hsame, -⟩
    · cases hret
    · obtain ⟨p, hp, hcall, hcalls⟩ := h.exits_insertExits hinsert hi (hsame.trans hret)
      refine ⟨p, ?_, ?_⟩
      · rw [hp, Layers.add, List.length_append, List.length_singleton, Nat.add_assoc]
      · intro n s hs
        rcases Nat.lt_or_ge n ls.exits.length with hn | hn
        · apply hcalls n s
          rwa [Layers.add, List.getElem?_append_left hn] at hs
        · have hlt := (List.getElem?_eq_some_iff.1 hs).1
          simp only [Layers.add, List.length_append, List.length_singleton] at hlt
          obtain rfl : n = ls.exits.length := by omega
          obtain rfl : t = s := by simpa [Layers.add] using hs
          exact hcall
  calls := by
    intro q s hs
    rcases exists_old_of_insertCalls hinsert hs with ⟨-, hcall⟩ | ⟨k, i, hi, rfl, -, hcall⟩
    · cases hcall
      exact Or.inr (Or.inl (by simp [Layers.add]))
    · rw [hcall s rfl] at hi
      rcases h.calls k s hi with hs | hs | hs
      · rw [h.place_entry (List.getElem?_eq_some_iff.1 hs).1]
        exact Or.inl hs
      · exact Or.inr (Or.inl (by simp [Layers.add, hs]))
      · exact Or.inr (Or.inr hs)

/-- **One more call keeps the layers.** -/
theorem Layered.insertCalls {old : List Instruction} {ls : Layers} (h : Layered old b.code ls)
    (hinsert : CilGraft.insertCalls b t l = .ok (count, b')) :
    Layered old b'.code (ls.add t l) := by
  cases l with
  | entry => exact h.insertEntry hinsert
  | exits => exact h.insertExits hinsert

end Insertion

/-! ## A whole history -/

section History

variable {target : MethodPlace} {m : Module} {ls : Layers} {old : List Instruction}

theorem layers_of_inserted {r : PatchRequest} {count : Nat} {t : Token} {m' m₁ : Module}
    (h : inject m r.target r.patch r.location = (.ok (.inserted count), m'))
    (himport : m.import_ r.patch = (.ok t, m₁)) :
    r.layers target m ls = if r.target = target then ls.add t r.location else ls := by
  simp only [PatchRequest.layers, h, himport]

theorem layers_of_not_inserted {r : PatchRequest} {result : Except Error Injected} {m' : Module}
    (h : inject m r.target r.patch r.location = (result, m'))
    (hresult : ∀ count, result ≠ .ok (.inserted count)) : r.layers target m ls = ls := by
  unfold PatchRequest.layers
  split
  · rename_i count t hinserted himport
    rw [h] at hinserted
    exact absurd hinserted (hresult count)
  · rfl

/-- One request keeps the layers of a method, whatever becomes of it and whichever method it is
for. -/
theorem layered_run (r : PatchRequest)
    (hold : ∀ b, m.body? target = some b → Layered old b.code ls) :
    ∀ b, (r.run m).body? target = some b → Layered old b.code (r.layers target m ls) := by
  intro b hbody
  obtain ⟨result, m', h⟩ : ∃ result m', inject m r.target r.patch r.location = (result, m') :=
    ⟨_, _, rfl⟩
  rw [PatchRequest.run, h] at hbody
  by_cases hresult : ∃ count, result = .ok (.inserted count)
  · obtain ⟨count, rfl⟩ := hresult
    obtain ⟨b₀, t, m₁, b₁, hbody₀, -, -, himport, hinsert, rfl⟩ := inject_cases h
    have htypes := m.types_import_ r.patch
    rw [himport] at htypes
    have hsame := Module.body?_congr htypes
    rw [layers_of_inserted h himport]
    by_cases htarget : r.target = target
    · subst htarget
      rw [Module.body?_setBody b₁ ((hsame r.target).trans hbody₀)] at hbody
      cases hbody
      rw [if_pos rfl]
      exact (hold b₀ hbody₀).insertCalls hinsert
    · rw [Module.body?_setBody_of_ne _ (Ne.symm htarget), hsame target] at hbody
      rw [if_neg htarget]
      exact hold b hbody
  · have hnothing : ∀ count, result ≠ .ok (.inserted count) := not_exists.1 hresult
    rw [Module.body?_congr (types_inject h hnothing) target] at hbody
    rw [layers_of_not_inserted h hnothing]
    exact hold b hbody

theorem layered_layersFrom (rs : List PatchRequest)
    (hold : ∀ b, m.body? target = some b → Layered old b.code ls) :
    ∀ b, (runRequests m rs).body? target = some b →
      Layered old b.code (layersFrom target m ls rs) := by
  induction rs generalizing m ls with
  | nil => exact hold
  | cons r rs ih => exact ih (layered_run r hold)

/-- **After any history the calls lie in layers**, on top of the code that the method had. -/
theorem layered_runRequests (m : Module) (rs : List PatchRequest) {b : Body}
    (hbody : (runRequests m rs).body? target = some b) :
    Layered ((m.body? target).elim [] Body.code) b.code (layersOf target m rs) := by
  apply layered_layersFrom rs _ b hbody
  intro b₀ hbody₀
  rw [hbody₀]
  exact Layered.refl b₀.code

end History

/-! ## Calls at the exits -/

/-- Right in front of every return there are calls without a gap, among them the given one. -/
def ExitsCovered (t : Token) (xs : List Instruction) : Prop :=
  ∀ (q : Nat) (i : Instruction), xs[q]? = some i → i.isReturn = true →
    ∃ p < q, xs[p]? = some (Instruction.call t) ∧
      ∀ k, p ≤ k → k < q → ∃ s, xs[k]? = some (Instruction.call s)

/-- A call of the entry that is taken for one of the exits: it has another one in front of it, or it
is alone and a return follows. -/
def Layers.Misread (ls : Layers) (t : Token) (code : List Instruction) : Prop :=
  t ∈ ls.entry.tail ∨ ls.entry = [t] ∧ code[1]?.any Instruction.isReturn = true

section Exits

variable {old code : List Instruction} {ls : Layers} {t : Token} {b : Body}

theorem Layered.exitsCovered (h : Layered old code ls) (ht : t ∈ ls.exits) :
    ExitsCovered t code := by
  intro q i hi hret
  obtain ⟨p, rfl, hcalls⟩ := h.exits q i hi hret
  obtain ⟨k, hk⟩ := List.mem_iff_getElem?.1 ht
  have hlt := (List.getElem?_eq_some_iff.1 hk).1
  refine ⟨p + k, by omega, hcalls k t hk, ?_⟩
  intro j hpj hj
  obtain ⟨n, rfl⟩ : ∃ n, j = p + n := ⟨j - p, by omega⟩
  exact ⟨_, hcalls n _ (List.getElem?_eq_getElem (by omega))⟩

/-- A call that stands nowhere but in front of everything, and not in front of a return, stands
alone. -/
theorem standsAlone_of_first (hmem : Instruction.call t ∈ code)
    (hfirst : ∀ q : Nat, code[q]? = some (Instruction.call t) → q = 0)
    (hreturn : ¬ code[1]?.any Instruction.isReturn = true) : StandsAlone t code := by
  obtain ⟨q, hq⟩ := List.mem_iff_getElem?.1 hmem
  obtain rfl := hfirst q hq
  cases code with
  | nil => cases hmem
  | cons i rest =>
    obtain rfl : i = Instruction.call t := Option.some.inj hq
    refine ⟨rest, rfl, ?_, ?_⟩
    · intro hrest
      obtain ⟨k, hk⟩ := List.mem_iff_getElem?.1 hrest
      exact absurd (hfirst (k + 1) hk) (Nat.succ_ne_zero k)
    · rw [List.head?_eq_getElem?]
      exact Bool.eq_false_iff.2 hreturn

/-- A call that is found at the exits is in their layer or is misread, unless the method has had it
from the beginning. -/
theorem Layered.mem_or_misread (h : Layered old b.code ls) (hold : Instruction.call t ∉ old)
    (hinjected : isInjected b t .exits = true) : t ∈ ls.exits ∨ ls.Misread t b.code := by
  obtain ⟨hmem, halone⟩ := isInjected_exits_iff.1 hinjected
  by_contra hnone
  obtain ⟨hexits, hmisread⟩ := not_or.1 hnone
  obtain ⟨htail, hreturn⟩ := not_or.1 hmisread
  -- every call is one of the entry, and only the first of these is the given one
  have hentry : ∀ q : Nat, b.code[q]? = some (Instruction.call t) → ls.entry[q]? = some t := by
    intro q hq
    rcases h.calls q t hq with hq | hq | hq
    · exact hq
    · exact absurd hq hexits
    · exact absurd hq hold
  have hfirst : ∀ q : Nat, b.code[q]? = some (Instruction.call t) → q = 0 := by
    intro q hq
    have hlayer := hentry q hq
    cases q with
    | zero => rfl
    | succ q =>
      rw [← List.getElem?_tail] at hlayer
      exact absurd (List.mem_of_getElem? hlayer) htail
  obtain ⟨q, hq⟩ := List.mem_iff_getElem?.1 hmem
  obtain rfl := hfirst q hq
  have hzero := hentry 0 hq
  apply halone
  apply standsAlone_of_first hmem hfirst
  intro hsecond
  cases hlayer : ls.entry with
  | nil =>
    rw [hlayer] at hzero
    cases hzero
  | cons s es =>
    cases es with
    | nil =>
      rw [hlayer] at hzero
      obtain rfl : s = t := Option.some.inj hzero
      exact hreturn ⟨hlayer, hsecond⟩
    | cons s' es =>
      have hcall := h.entry 1 s' (by rw [hlayer]; rfl)
      rw [hcall] at hsecond
      cases hsecond

/-- A call that is misread is found at the exits. -/
theorem Layered.isInjected_of_misread (h : Layered old b.code ls) (hmisread : ls.Misread t b.code) :
    isInjected b t .exits = true := by
  rw [isInjected_exits_iff]
  rcases hmisread with htail | ⟨hentry, hreturn⟩
  · obtain ⟨k, hk⟩ := List.mem_iff_getElem?.1 htail
    rw [List.getElem?_tail] at hk
    have hcall := h.entry (k + 1) t hk
    refine ⟨List.mem_of_getElem? hcall, ?_⟩
    rintro ⟨rest, hcode, hout, -⟩
    rw [hcode, List.getElem?_cons_succ] at hcall
    exact hout (List.mem_of_getElem? hcall)
  · have hcall := h.entry 0 t (by rw [hentry]; rfl)
    refine ⟨List.mem_of_getElem? hcall, ?_⟩
    rintro ⟨rest, hcode, -, hnext⟩
    rw [hcode, List.getElem?_cons_succ, ← List.head?_eq_getElem?, hnext] at hreturn
    cases hreturn

end Exits

/-- **When a patch is reported as present at the exits of a method.**  After any history of requests
on a module in which the method does not call the patch, either its call stands in front of every
return of the method, or its call at the entry has been misread; and a call that can be misread
always is. -/
theorem covered_or_misread {m : Module} {target : MethodPlace} {patch : ExternalMethod}
    (rs : List PatchRequest)
    (hclean : ∀ b t, m.body? target = some b → (runRequests m rs).findImport? patch = some t →
      Instruction.call t ∉ b.code) :
    ((inject (runRequests m rs) target patch .exits).1 = .ok .alreadyPresent →
      ∃ b t, (runRequests m rs).body? target = some b ∧
        (runRequests m rs).findImport? patch = some t ∧
        (ExitsCovered t b.code ∨ (layersOf target m rs).Misread t b.code)) ∧
    (∀ b t, patch.ensureCallable = .ok () → (runRequests m rs).body? target = some b →
      (runRequests m rs).findImport? patch = some t → (layersOf target m rs).Misread t b.code →
      inject (runRequests m rs) target patch .exits = (.ok .alreadyPresent, runRequests m rs)) := by
  constructor
  · intro hresult
    obtain ⟨m', h⟩ : ∃ m', inject (runRequests m rs) target patch .exits =
        (.ok .alreadyPresent, m') := ⟨_, Prod.ext hresult rfl⟩
    obtain ⟨rfl, -, b, hbody, -, hpresent⟩ := inject_alreadyPresent_iff.1 h
    obtain ⟨t, hfound, hinjected⟩ := isPresent_iff.1 hpresent
    have hlayered := layered_runRequests m rs hbody
    have hold : Instruction.call t ∉ (m.body? target).elim [] Body.code := by
      cases hbody₀ : m.body? target with
      | none => exact List.not_mem_nil
      | some b₀ => exact hclean b₀ t hbody₀ hfound
    refine ⟨b, t, hbody, hfound, ?_⟩
    rcases hlayered.mem_or_misread hold hinjected with hexits | hmisread
    · exact Or.inl (hlayered.exitsCovered hexits)
    · exact Or.inr hmisread
  · intro b t hcallable hbody hfound hmisread
    have hinjected := (layered_runRequests m rs hbody).isInjected_of_misread hmisread
    have hpresent := isPresent_iff.2 ⟨t, hfound, hinjected⟩
    exact inject_alreadyPresent_iff.2
      ⟨rfl, hcallable, b, hbody, ne_nil_of_isPresent hpresent, hpresent⟩

/-- A patch at the exits, and another one at the entry after it. -/
theorem covered_or_misread_exits_first :
    let body : Body := ⟨8, ⟨0⟩, false, [⟨.nop, .none⟩, ⟨.ret, .none⟩], []⟩
    let m : Module :=
      ⟨"Game", [⟨⟨0x02000001⟩, "", "Player", 1,
        [⟨⟨0x06000001⟩, "Update", 6, [0x20, 0, 1], some body⟩]⟩], [], []⟩
    let patch (scope : String) : ExternalMethod :=
      ⟨scope, ⟨⟨0x02000001⟩, "", "Hooks", 1, []⟩, ⟨⟨0x06000001⟩, "Run", 0x16, [0, 0, 1], none⟩⟩
    let rs : List PatchRequest := [⟨⟨0, 0⟩, patch "A", .exits⟩, ⟨⟨0, 0⟩, patch "B", .entry⟩]
    ∃ b t, (runRequests m rs).body? ⟨0, 0⟩ = some b ∧
      (runRequests m rs).findImport? (patch "A") = some t ∧
      (ExitsCovered t b.code ∨ (layersOf ⟨0, 0⟩ m rs).Misread t b.code) := by
  intro body m patch rs
  have hresult : (inject (runRequests m rs) ⟨0, 0⟩ (patch "A") .exits).1 =
      .ok .alreadyPresent := by
    simp only [rs, patch, m, body]
    rfl
  refine (covered_or_misread rs ?_).1 hresult
  intro b t hbody _ hcall
  cases hbody
  simp [body, Instruction.call] at hcall

/-- Two patches at the entry: the first of them is reported as present at the exits, where nothing
has been inserted. -/
theorem alreadyPresent_not_covered :
    let body : Body := ⟨8, ⟨0⟩, false, [⟨.nop, .none⟩, ⟨.ret, .none⟩], []⟩
    let m : Module :=
      ⟨"Game", [⟨⟨0x02000001⟩, "", "Player", 1,
        [⟨⟨0x06000001⟩, "Update", 6, [0x20, 0, 1], some body⟩]⟩], [], []⟩
    let patch (scope : String) : ExternalMethod :=
      ⟨scope, ⟨⟨0x02000001⟩, "", "Hooks", 1, []⟩, ⟨⟨0x06000001⟩, "Run", 0x16, [0, 0, 1], none⟩⟩
    let rs : List PatchRequest := [⟨⟨0, 0⟩, patch "A", .entry⟩, ⟨⟨0, 0⟩, patch "B", .entry⟩]
    (∀ t, Instruction.call t ∉ body.code) ∧
    (inject (runRequests m rs) ⟨0, 0⟩ (patch "A") .exits).1 = .ok .alreadyPresent ∧
    ∃ b t, (runRequests m rs).body? ⟨0, 0⟩ = some b ∧
      (runRequests m rs).findImport? (patch "A") = some t ∧ ¬ ExitsCovered t b.code := by
  intro body m patch rs
  refine ⟨?_, ?_, ?_⟩
  · intro t hcall
    simp [body, Instruction.call] at hcall
  · simp only [rs, patch, m, body]
    rfl
  · simp only [rs, patch, m, body]
    refine ⟨_, _, rfl, rfl, ?_⟩
    intro hcovered
    obtain ⟨p, hp, -, hcalls⟩ := hcovered 3 ⟨.ret, .none⟩ rfl rfl
    -- right in front of the return stands the instruction of the method itself
    obtain ⟨s, hs⟩ := hcalls 2 (Nat.le_of_lt_succ hp) (Nat.lt_succ_self 2)
    cases hs

end CilGraft
