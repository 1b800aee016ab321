import CilGraft.Proofs.ControlFlow
import CilGraft.Proofs.References

/-!
# Requests that are made again

A request is a patch with a location.  When requests succeed one after the other and are made again,
each of them looks for its call in the body that all of them have left behind: the later ones may
have moved what the earlier ones put in.

* `StandsAlone` — the only call is the first instruction, and no return follows it; a request for
  the exits takes it for the call of the entry.
* `isInjected_of_insertCalls`, `inject_again` — a request made again at once finds its call.
* `Pass` — what requests leave behind that have all succeeded; `pass_of_injectEach`.
* `injectEach_again_iff` — **when a second pass over the same requests does nothing**.
-/

set_option autoImplicit false

namespace CilGraft

/-! ## Detection -/

section Detection

variable {t : Token}

theorem isCallTo_iff {i : Instruction} : i.isCallTo t = true ↔ i = Instruction.call t := beq_iff_eq

theorem lastCallFrom_eq_none_iff (n : Nat) (xs : List Instruction) :
    lastCallFrom t n xs = none ↔ Instruction.call t ∉ xs := by
  induction xs generalizing n with
  | nil => exact ⟨fun _ => List.not_mem_nil, fun _ => rfl⟩
  | cons i xs ih =>
    rw [List.mem_cons, not_or, ← ih (n + 1), lastCallFrom]
    cases lastCallFrom t (n + 1) xs with
    | some k => exact ⟨nofun, fun h => nomatch h.2⟩
    | none =>
      by_cases hcall : i.isCallTo t = true
      · simp only [if_pos hcall]
        exact ⟨nofun, fun h => absurd (isCallTo_iff.1 hcall).symm h.1⟩
      · simp only [if_neg hcall]
        exact ⟨fun _ => ⟨fun heq => hcall (isCallTo_iff.2 heq.symm), trivial⟩, fun _ => trivial⟩

theorem le_of_lastCallFrom {n k : Nat} {xs : List Instruction} (h : lastCallFrom t n xs = some k) :
    n ≤ k := by
  induction xs generalizing n with
  | nil => cases h
  | cons i xs ih =>
    unfold lastCallFrom at h
    split at h
    · rename_i k' hk
      cases h
      exact Nat.le_of_succ_le (ih hk)
    · split at h
      · cases h
        exact Nat.le_refl k
      · cases h

/-- The last call is the first instruction when no other call follows it. -/
theorem lastCallFrom_cons_eq_self_iff (n : Nat) (i : Instruction) (xs : List Instruction) :
    lastCallFrom t n (i :: xs) = some n ↔
      i = Instruction.call t ∧ Instruction.call t ∉ xs := by
  rw [← lastCallFrom_eq_none_iff (n + 1), ← isCallTo_iff, lastCallFrom]
  cases hrest : lastCallFrom t (n + 1) xs with
  | some k =>
    have hle := le_of_lastCallFrom hrest
    refine ⟨fun h => ?_, fun h => nomatch h.2⟩
    have heq : k = n := Option.some.inj h
    omega
  | none =>
    by_cases hcall : i.isCallTo t = true
    · simp only [if_pos hcall]
      exact ⟨fun _ => ⟨hcall, trivial⟩, fun _ => trivial⟩
    · simp only [if_neg hcall]
      exact ⟨nofun, fun h => absurd h.1 hcall⟩

/-- The only call of the method is the first instruction, and no return follows it. -/
def StandsAlone (t : Token) (xs : List Instruction) : Prop :=
  ∃ rest, xs = Instruction.call t :: rest ∧ Instruction.call t ∉ rest ∧
    rest.head?.any Instruction.isReturn = false

theorem isInjected_entry_iff {b : Body} :
    isInjected b t .entry = true ↔ b.code.head? = some (Instruction.call t) := by
  cases hcode : b.code with
  | nil =>
    simp only [isInjected, hcode]
    exact ⟨nofun, nofun⟩
  | cons i rest =>
    simp only [isInjected, hcode]
    rw [isCallTo_iff, List.head?_cons, Option.some.injEq]

/-- The exits have the call unless it stands alone at the entry. -/
theorem isInjected_exits_iff {b : Body} :
    isInjected b t .exits = true ↔
      Instruction.call t ∈ b.code ∧ ¬ StandsAlone t b.code := by
  cases hcode : b.code with
  | nil =>
    simp only [isInjected, hcode, lastCallFrom]
    exact ⟨nofun, fun h => nomatch h.1⟩
  | cons i rest =>
    have hnone := lastCallFrom_eq_none_iff (t := t) 0 (i :: rest)
    have hfirst := lastCallFrom_cons_eq_self_iff (t := t) 0 i rest
    have halone (h : StandsAlone t (i :: rest)) :
        (i = Instruction.call t ∧ Instruction.call t ∉ rest) ∧
          rest.head?.any Instruction.isReturn = false := by
      obtain ⟨rest', heq, hout, hreturn⟩ := h
      cases heq
      exact ⟨⟨rfl, hout⟩, hreturn⟩
    cases hlast : lastCallFrom t 0 (i :: rest) with
    | none =>
      simp only [isInjected, hcode, hlast]
      exact ⟨nofun, fun h => absurd h.1 (hnone.1 hlast)⟩
    | some k =>
      have hmem : Instruction.call t ∈ i :: rest := by
        by_contra hout
        rw [hnone.2 hout] at hlast
        cases hlast
      cases k with
      | zero =>
        obtain ⟨rfl, hout⟩ := hfirst.1 hlast
        have hhead : isInjected b t .exits = rest.head?.any Instruction.isReturn := by
          simp only [isInjected, hcode, hlast]
          cases rest <;> rfl
        rw [hhead]
        refine ⟨fun hreturn => ⟨hmem, fun h => ?_⟩, fun h => ?_⟩
        · rw [(halone h).2] at hreturn
          cases hreturn
        · by_contra hreturn
          exact h.2 ⟨rest, rfl, hout, Bool.eq_false_iff.2 hreturn⟩
      | succ k =>
        simp only [isInjected, hcode, hlast]
        refine ⟨fun _ => ⟨hmem, fun h => ?_⟩, fun _ => trivial⟩
        rw [hfirst.2 (halone h).1] at hlast
        cases hlast

theorem mem_call_of_isInjected {b : Body} {l : Location} (h : isInjected b t l = true) :
    Instruction.call t ∈ b.code := by
  cases l with
  | entry => exact List.mem_of_mem_head? (isInjected_entry_iff.1 h)
  | exits => exact (isInjected_exits_iff.1 h).1

end Detection

/-! ## Calls that stay -/

section Calls

variable {b b' : Body} {t s : Token} {l : Location} {count : Nat}

/-- A call of the old code is a call of the new code. -/
theorem getElem?_call_of_insertCalls (h : insertCalls b t l = .ok (count, b')) {k : Nat}
    (hk : b.code[k]? = some (Instruction.call s)) :
    b'.code[l.place b.code k]? = some (Instruction.call s) := by
  obtain ⟨j, hj, hoperation⟩ := exists_kept_of_insertCalls h hk
  rw [hj, Instruction.eq_of_operation_other hoperation]
  rfl

theorem mem_call_of_insertCalls (h : insertCalls b t l = .ok (count, b'))
    (hmem : Instruction.call s ∈ b.code) : Instruction.call s ∈ b'.code := by
  obtain ⟨k, hk⟩ := List.mem_iff_getElem?.1 hmem
  exact List.mem_of_getElem? (getElem?_call_of_insertCalls h hk)

/-- The calls of the exits leave a call at the entry where it is. -/
theorem head?_of_insertCalls (h : insertCalls b t .exits = .ok (count, b'))
    (hhead : b.code.head? = some (Instruction.call s)) :
    b'.code.head? = some (Instruction.call s) := by
  rw [List.head?_eq_getElem?] at hhead ⊢
  have hplace := place_eq_landing b.code 0
  rw [hhead] at hplace
  have hfirst : Location.place .exits b.code 0 = 0 := hplace
  have hkept := getElem?_call_of_insertCalls h hhead
  rwa [hfirst] at hkept

/-- A body with returns has a return at some index. -/
theorem exists_return (h : b.returns ≠ []) :
    ∃ (k : Nat) (i : Instruction), b.code[k]? = some i ∧ i.isReturn = true := by
  have hpos : 0 < b.code.countP Instruction.isReturn := by
    rw [← length_returnsFrom 0 b.code]
    exact List.length_pos_iff.2 h
  obtain ⟨i, hi, hret⟩ := List.countP_pos_iff.1 hpos
  obtain ⟨k, hk⟩ := List.mem_iff_getElem?.1 hi
  exact ⟨k, i, hk, hret⟩

/-- **Calls that are inserted are found.** -/
theorem isInjected_of_insertCalls (h : insertCalls b t l = .ok (count, b'))
    (hreturns : l = .exits → b.returns ≠ []) : isInjected b' t l = true := by
  cases l with
  | entry =>
    rw [isInjected_entry_iff, List.head?_eq_getElem?]
    exact (entry_of_insertCalls h).1
  | exits =>
    obtain ⟨k, i, hk, hret⟩ := exists_return (hreturns rfl)
    obtain ⟨q, hplace, -, hcall⟩ := exits_of_insertCalls h hk hret
    obtain ⟨j, hj, hoperation⟩ := exists_kept_of_insertCalls h hk
    refine isInjected_exits_iff.2 ⟨List.mem_of_getElem? hcall, ?_⟩
    rintro ⟨rest, hcode, hout, hreturn⟩
    have hj' : b'.code[q + 1]? = some j := by
      rw [← hplace]
      exact hj
    rw [hcode] at hcall hj'
    -- the call is not among the others, so it is the first instruction, and its return follows
    cases q with
    | zero =>
      rw [List.head?_eq_getElem?, show rest[0]? = some j from hj', Option.any_some,
        ← Instruction.isReturn_operation, hoperation, Operation.isReturn_mapTargets,
        Instruction.isReturn_operation, hret] at hreturn
      cases hreturn
    | succ q => exact hout (List.mem_of_getElem? hcall)

end Calls

/-! ## One request -/

section OneRequest

variable {m m' : Module} {target : MethodPlace} {patch : ExternalMethod} {l : Location}
  {outcome : Injected}

theorem callable_of_inject (h : inject m target patch l = (.ok outcome, m')) :
    patch.ensureCallable = .ok () := by
  cases outcome with
  | inserted count =>
    obtain ⟨b, t, m₁, b', -, hcallable, -⟩ := inject_cases h
    exact hcallable
  | alreadyPresent => exact (inject_alreadyPresent_iff.1 h).2.1

theorem isPresent_iff {b : Body} :
    isPresent m b patch l = true ↔ ∃ t, m.findImport? patch = some t ∧ isInjected b t l = true := by
  unfold isPresent
  cases m.findImport? patch with
  | none => exact ⟨nofun, fun ⟨_, h, _⟩ => nomatch h⟩
  | some t =>
    constructor
    · exact fun h => ⟨t, rfl, h⟩
    · rintro ⟨t', heq, h⟩
      cases heq
      exact h

/-- What a request leaves behind: its call is found, and the body is the old one or has got the
calls. -/
theorem inject_ok_cases (hrefs : m.RefsResolve)
    (h : inject m target patch l = (.ok outcome, m')) :
    ∃ b b' t, m.body? target = some b ∧ m'.body? target = some b' ∧ m.Extends m' ∧
      m'.RefsResolve ∧ m'.findImport? patch = some t ∧ isInjected b' t l = true ∧
      (b' = b ∨ ∃ count, insertCalls b t l = .ok (count, b')) := by
  cases outcome with
  | inserted count =>
    obtain ⟨b, t, m₁, b', hbody, -, hreturns, himport, hinsert, rfl⟩ := inject_cases h
    have htypes := m.types_import_ patch
    rw [himport] at htypes
    have hbody₁ := (Module.body?_congr htypes target).trans hbody
    have hext := Module.extends_import_ himport
    have hrefs₁ : m₁.RefsResolve := Module.refsResolve_import_ hrefs himport
    have hfound : m₁.findImport? patch = some t := Module.findImport?_of_import_ hrefs himport
    exact ⟨b, b', t, hbody, Module.body?_setBody b' hbody₁, ⟨hext.typeRefs, hext.memberRefs⟩,
      hrefs₁, hfound, isInjected_of_insertCalls hinsert hreturns, Or.inr ⟨count, hinsert⟩⟩
  | alreadyPresent =>
    obtain ⟨rfl, -, b, hbody, -, hpresent⟩ := inject_alreadyPresent_iff.1 h
    obtain ⟨t, hfound, hinjected⟩ := isPresent_iff.1 hpresent
    exact ⟨b, b, t, hbody, hbody, Module.Extends.refl _, hrefs, hfound, hinjected, Or.inl rfl⟩

theorem ne_nil_of_isPresent {b : Body} (h : isPresent m b patch l = true) : b.code ≠ [] := by
  obtain ⟨t, -, hinjected⟩ := isPresent_iff.1 h
  exact List.ne_nil_of_mem (mem_call_of_isInjected hinjected)

/-- **A request that is made again at once does nothing.** -/
theorem inject_again (hrefs : m.RefsResolve)
    (h : inject m target patch l = (.ok outcome, m')) :
    inject m' target patch l = (.ok .alreadyPresent, m') := by
  obtain ⟨b, b', t, -, hbody, -, -, hfound, hinjected, -⟩ := inject_ok_cases hrefs h
  have hpresent : isPresent m' b' patch l = true := isPresent_iff.2 ⟨t, hfound, hinjected⟩
  exact inject_alreadyPresent_iff.2
    ⟨rfl, callable_of_inject h, b', hbody, ne_nil_of_isPresent hpresent, hpresent⟩

end OneRequest

/-! ## One request after the other -/

/-- A patch and where it is to be called. -/
abbrev InjectRequest := ExternalMethod × Location

/-- The requests, one after the other, up to the first that fails. -/
def injectEach (target : MethodPlace) :
    List InjectRequest → Module → Except Error (List Injected × Module)
  | [], m => .ok ([], m)
  | r :: rest, m =>
    match inject m target r.1 r.2 with
    | (.error e, _) => .error e
    | (.ok outcome, m) =>
      match injectEach target rest m with
      | .error e => .error e
      | .ok (outcomes, m) => .ok (outcome :: outcomes, m)

section Pass

variable {target : MethodPlace} {r : InjectRequest} {rs : List InjectRequest} {m m' m₁ m₂ : Module}
  {os : List Injected}

theorem injectEach_cons_eq_ok (h : injectEach target (r :: rs) m = .ok (os, m')) :
    ∃ o os' m₁, inject m target r.1 r.2 = (.ok o, m₁) ∧
      injectEach target rs m₁ = .ok (os', m') ∧ os = o :: os' := by
  unfold injectEach at h
  split at h
  · cases h
  · rename_i o m₁ hfirst
    split at h
    · cases h
    · rename_i os' m₂ hrest
      cases h
      exact ⟨o, os', m₁, hfirst, hrest, rfl⟩

theorem callable_of_injectEach (h : injectEach target rs m = .ok (os, m')) :
    ∀ r ∈ rs, r.1.ensureCallable = .ok () := by
  induction rs generalizing m os with
  | nil => nofun
  | cons r rs ih =>
    obtain ⟨o, os', m₁, hfirst, hrest, -⟩ := injectEach_cons_eq_ok h
    exact List.forall_mem_cons.2 ⟨callable_of_inject hfirst, ih hrest⟩

/-- A pass does nothing when none of its requests does anything. -/
theorem injectEach_eq_self_iff :
    injectEach target rs m = .ok (rs.map fun _ => .alreadyPresent, m) ↔
      ∀ r ∈ rs, inject m target r.1 r.2 = (.ok .alreadyPresent, m) := by
  induction rs with
  | nil => exact ⟨fun _ => nofun, fun _ => rfl⟩
  | cons r rs ih =>
    rw [List.forall_mem_cons]
    constructor
    · intro h
      obtain ⟨o, os', m₁, hfirst, hrest, hos⟩ := injectEach_cons_eq_ok h
      cases hos
      obtain ⟨rfl, -⟩ := inject_alreadyPresent_iff.1 hfirst
      exact ⟨hfirst, ih.1 hrest⟩
    · rintro ⟨hfirst, hrest⟩
      simp only [injectEach, hfirst, ih.2 hrest, List.map_cons]

/-- What requests leave behind that have all succeeded, of a module with the body `b` and a module
with the body `b'`. -/
structure Pass (target : MethodPlace) (rs : List InjectRequest) (m m' : Module) (b b' : Body) :
    Prop where
  after : m'.body? target = some b'
  grows : m.Extends m'
  calls : ∀ s, Instruction.call s ∈ b.code → Instruction.call s ∈ b'.code
  requested : ∀ r ∈ rs, ∃ t, m'.findImport? r.1 = some t ∧ Instruction.call t ∈ b'.code
  /-- requests for the exits leave a call at the entry where it is -/
  headKept : (∀ r ∈ rs, r.2 = .exits) → ∀ s, b.code.head? = some (Instruction.call s) →
    b'.code.head? = some (Instruction.call s)
  /-- a request for the entry that is the last of its kind has its call there -/
  headSet : (∃ r ∈ rs, r.2 = .entry) → ∃ r ∈ rs, r.2 = .entry ∧
    ∃ t, m'.findImport? r.1 = some t ∧ b'.code.head? = some (Instruction.call t)

theorem Pass.nil {b : Body} (hbody : m.body? target = some b) : Pass target [] m m b b where
  after := hbody
  grows := Module.Extends.refl m
  calls _ h := h
  requested := nofun
  headKept _ _ h := h
  headSet h := nomatch h

theorem Pass.cons {b b₁ b₂ : Body} (hfirst : Pass target [r] m m₁ b b₁)
    (hrest : Pass target rs m₁ m₂ b₁ b₂) : Pass target (r :: rs) m m₂ b b₂ where
  after := hrest.after
  grows := hfirst.grows.trans hrest.grows
  calls s h := hrest.calls s (hfirst.calls s h)
  requested := by
    obtain ⟨t, hfound, hcall⟩ := hfirst.requested r List.mem_cons_self
    exact List.forall_mem_cons.2
      ⟨⟨t, Module.findImport?_of_extends hrest.grows hfound, hrest.calls t hcall⟩, hrest.requested⟩
  headKept hall s hhead := by
    obtain ⟨hr, hall⟩ := List.forall_mem_cons.1 hall
    exact hrest.headKept hall s
      (hfirst.headKept (List.forall_mem_cons.2 ⟨hr, nofun⟩) s hhead)
  headSet hany := by
    by_cases hlater : ∃ r ∈ rs, r.2 = .entry
    · obtain ⟨r', hr', hset⟩ := hrest.headSet hlater
      exact ⟨r', List.mem_cons_of_mem r hr', hset⟩
    · have hexits : ∀ r ∈ rs, r.2 = .exits := by
        intro r' hr'
        cases hl : r'.2 with
        | entry => exact absurd ⟨r', hr', hl⟩ hlater
        | exits => rfl
      obtain ⟨r', hr', hl⟩ := hany
      obtain rfl | hr' := List.mem_cons.1 hr'
      · obtain ⟨r', hr', -, t, hfound, hhead⟩ := hfirst.headSet ⟨r', List.mem_cons_self, hl⟩
        obtain rfl := List.mem_singleton.1 hr'
        exact ⟨r', List.mem_cons_self, hl, t, Module.findImport?_of_extends hrest.grows hfound,
          hrest.headKept hexits t hhead⟩
      · exact absurd ⟨r', hr', hl⟩ hlater

/-- One request is a pass. -/
theorem pass_of_inject {b : Body} {o : Injected} (hrefs : m.RefsResolve)
    (hbody : m.body? target = some b) (h : inject m target r.1 r.2 = (.ok o, m')) :
    m'.RefsResolve ∧ ∃ b', Pass target [r] m m' b b' := by
  obtain ⟨b₀, b', t, hbody₀, hafter, hgrows, hrefs', hfound, hinjected, hcode⟩ :=
    inject_ok_cases hrefs h
  obtain rfl : b₀ = b := Option.some.inj (hbody₀.symm.trans hbody)
  refine ⟨hrefs', b', ?_⟩
  exact {
    after := hafter
    grows := hgrows
    calls := by
      intro s hmem
      obtain rfl | ⟨count, hinsert⟩ := hcode
      · exact hmem
      · exact mem_call_of_insertCalls hinsert hmem
    requested := by
      intro r' hr'
      obtain rfl := List.mem_singleton.1 hr'
      exact ⟨t, hfound, mem_call_of_isInjected hinjected⟩
    headKept := by
      intro hexits s hhead
      obtain rfl | ⟨count, hinsert⟩ := hcode
      · exact hhead
      · rw [hexits r List.mem_cons_self] at hinsert
        exact head?_of_insertCalls hinsert hhead
    headSet := by
      rintro ⟨r', hr', hl⟩
      obtain rfl := List.mem_singleton.1 hr'
      rw [hl] at hinjected
      exact ⟨r', hr', hl, t, hfound, isInjected_entry_iff.1 hinjected⟩ }

/-- **Requests that all succeed are a pass.** -/
theorem pass_of_injectEach {b : Body} (hrefs : m.RefsResolve) (hbody : m.body? target = some b)
    (h : injectEach target rs m = .ok (os, m')) : ∃ b', Pass target rs m m' b b' := by
  induction rs generalizing m b os with
  | nil =>
    cases h
    exact ⟨b, Pass.nil hbody⟩
  | cons r rs ih =>
    obtain ⟨o, os', m₁, hfirst, hrest, -⟩ := injectEach_cons_eq_ok h
    obtain ⟨hrefs₁, b₁, hpass⟩ := pass_of_inject hrefs hbody hfirst
    obtain ⟨b', hpasses⟩ := ih hrefs₁ hpass.after hrest
    exact ⟨b', hpass.cons hpasses⟩

/-- All requests for the entry find one and the same call. -/
def OneAtEntry (m : Module) (rs : List InjectRequest) : Prop :=
  ∀ r ∈ rs, ∀ r' ∈ rs, r.2 = .entry → r'.2 = .entry → m.findImport? r.1 = m.findImport? r'.1

/-- No request for the exits finds a call that stands alone at the entry. -/
def NoneAlone (m : Module) (target : MethodPlace) (rs : List InjectRequest) : Prop :=
  ∀ r ∈ rs, r.2 = .exits → ∀ b t, m.body? target = some b → m.findImport? r.1 = some t →
    ¬ StandsAlone t b.code

/-- The calls of a pass are found if and only if those of the entry are one and the same, and none
of those of the exits stands alone at the entry. -/
theorem Pass.isPresent_iff {b b' : Body} (h : Pass target rs m m' b b') :
    (∀ r ∈ rs, isPresent m' b' r.1 r.2 = true) ↔ OneAtEntry m' rs ∧ NoneAlone m' target rs := by
  constructor
  · intro hall
    refine ⟨fun r hr r' hr' hl hl' => ?_, fun r hr hl b t hbody hfound => ?_⟩
    · obtain ⟨t, hfound, hinjected⟩ := CilGraft.isPresent_iff.1 (hall r hr)
      obtain ⟨t', hfound', hinjected'⟩ := CilGraft.isPresent_iff.1 (hall r' hr')
      rw [hl] at hinjected
      rw [hl'] at hinjected'
      have hhead := isInjected_entry_iff.1 hinjected
      rw [isInjected_entry_iff.1 hinjected'] at hhead
      cases hhead
      rw [hfound, hfound']
    · obtain rfl : b' = b := Option.some.inj (h.after.symm.trans hbody)
      obtain ⟨t', hfound', hinjected⟩ := CilGraft.isPresent_iff.1 (hall r hr)
      obtain rfl : t' = t := Option.some.inj (hfound'.symm.trans hfound)
      rw [hl] at hinjected
      exact (isInjected_exits_iff.1 hinjected).2
  · rintro ⟨hsame, halone⟩ r hr
    obtain ⟨t, hfound, hcall⟩ := h.requested r hr
    refine CilGraft.isPresent_iff.2 ⟨t, hfound, ?_⟩
    cases hl : r.2 with
    | entry =>
      obtain ⟨r', hr', hl', t', hfound', hhead⟩ := h.headSet ⟨r, hr, hl⟩
      have heq := hsame r hr r' hr' hl hl'
      rw [hfound, hfound'] at heq
      cases heq
      exact isInjected_entry_iff.2 hhead
    | exits => exact isInjected_exits_iff.2 ⟨hcall, halone r hr hl b' t h.after hfound⟩

/-- A second pass does nothing when every call is found. -/
theorem injectEach_eq_self_iff_isPresent (target : MethodPlace) (m : Module)
    (hcallable : ∀ r ∈ rs, r.1.ensureCallable = .ok ()) :
    injectEach target rs m = .ok (rs.map fun _ => .alreadyPresent, m) ↔
      ∀ r ∈ rs, ∃ b, m.body? target = some b ∧ isPresent m b r.1 r.2 = true := by
  rw [injectEach_eq_self_iff]
  refine forall₂_congr fun r hr => ?_
  rw [inject_alreadyPresent_iff]
  constructor
  · rintro ⟨-, -, b, hbody, -, hpresent⟩
    exact ⟨b, hbody, hpresent⟩
  · rintro ⟨b, hbody, hpresent⟩
    exact ⟨rfl, hcallable r hr, b, hbody, ne_nil_of_isPresent hpresent, hpresent⟩

theorem forall_isPresent_iff (hrefs : m.RefsResolve)
    (h : injectEach target rs m = .ok (os, m')) :
    (∀ r ∈ rs, ∃ b, m'.body? target = some b ∧ isPresent m' b r.1 r.2 = true) ↔
      OneAtEntry m' rs ∧ NoneAlone m' target rs := by
  cases rs with
  | nil => exact ⟨fun _ => ⟨nofun, nofun⟩, fun _ => nofun⟩
  | cons r rs =>
    obtain ⟨o, os', m₁, hfirst, -, -⟩ := injectEach_cons_eq_ok h
    obtain ⟨b, -, -, hbody, -⟩ := inject_ok_cases hrefs hfirst
    obtain ⟨b', hpass⟩ := pass_of_injectEach hrefs hbody h
    rw [← hpass.isPresent_iff]
    refine forall₂_congr fun r _ => ?_
    constructor
    · rintro ⟨b₀, hafter, hpresent⟩
      obtain rfl : b' = b₀ := Option.some.inj (hpass.after.symm.trans hafter)
      exact hpresent
    · exact fun hpresent => ⟨b', hpass.after, hpresent⟩

/-- **When a second pass does nothing.**  Requests that have all succeeded and are made again, in
the same order, change nothing exactly if each finds its call in the body that the first pass has
left.  In a module whose references resolve this is so exactly if the requests for the entry are all
for one call, and no call of the exits is left alone at the entry. -/
theorem injectEach_again_iff (h : injectEach target rs m = .ok (os, m')) :
    (injectEach target rs m' = .ok (rs.map fun _ => .alreadyPresent, m') ↔
      ∀ r ∈ rs, ∃ b, m'.body? target = some b ∧ isPresent m' b r.1 r.2 = true) ∧
    (m.RefsResolve →
      (injectEach target rs m' = .ok (rs.map fun _ => .alreadyPresent, m') ↔
        OneAtEntry m' rs ∧ NoneAlone m' target rs)) := by
  have hself := injectEach_eq_self_iff_isPresent target m' (callable_of_injectEach h)
  exact ⟨hself, fun hrefs => hself.trans (forall_isPresent_iff hrefs h)⟩

/-- One patch at the entry and at the exits, another one at the exits only. -/
theorem injectEach_again_mixed :
    let body : Body := ⟨8, ⟨0⟩, false, [⟨.nop, .none⟩, ⟨.ret, .none⟩], []⟩
    let m : Module :=
      ⟨"Game", [⟨⟨0x02000001⟩, "", "Player", 1,
        [⟨⟨0x06000001⟩, "Update", 6, [0x20, 0, 1], some body⟩]⟩], [], []⟩
    let patch (scope : String) : ExternalMethod :=
      ⟨scope, ⟨⟨0x02000001⟩, "", "Hooks", 1, []⟩, ⟨⟨0x06000001⟩, "Run", 0x16, [0, 0, 1], none⟩⟩
    let rs : List InjectRequest := [(patch "A", .entry), (patch "A", .exits), (patch "B", .exits)]
    ∃ os m', injectEach ⟨0, 0⟩ rs m = .ok (os, m') ∧
      (injectEach ⟨0, 0⟩ rs m' = .ok (rs.map fun _ => .alreadyPresent, m') ↔
        ∀ r ∈ rs, ∃ b, m'.body? ⟨0, 0⟩ = some b ∧ isPresent m' b r.1 r.2 = true) ∧
      (m.RefsResolve →
        (injectEach ⟨0, 0⟩ rs m' = .ok (rs.map fun _ => .alreadyPresent, m') ↔
          OneAtEntry m' rs ∧ NoneAlone m' ⟨0, 0⟩ rs)) := by
  intro body m patch rs
  obtain ⟨⟨os, m'⟩, h⟩ : ∃ r, injectEach ⟨0, 0⟩ rs m = .ok r := by
    simp only [rs, patch, m, body]
    exact ⟨_, rfl⟩
  exact ⟨os, m', h, injectEach_again_iff h⟩

/-- Two patches at the entry: the second pass inserts both calls again. -/
theorem injectEach_again_two_entries :
    let body : Body := ⟨8, ⟨0⟩, false, [⟨.nop, .none⟩, ⟨.ret, .none⟩], []⟩
    let m : Module :=
      ⟨"Game", [⟨⟨0x02000001⟩, "", "Player", 1,
        [⟨⟨0x06000001⟩, "Update", 6, [0x20, 0, 1], some body⟩]⟩], [], []⟩
    let patch (scope : String) : ExternalMethod :=
      ⟨scope, ⟨⟨0x02000001⟩, "", "Hooks", 1, []⟩, ⟨⟨0x06000001⟩, "Run", 0x16, [0, 0, 1], none⟩⟩
    let rs : List InjectRequest := [(patch "A", .entry), (patch "B", .entry)]
    ∃ os m', injectEach ⟨0, 0⟩ rs m = .ok (os, m') ∧
      injectEach ⟨0, 0⟩ rs m' ≠ .ok (rs.map fun _ => .alreadyPresent, m') := by
  intro body m patch rs
  simp only [rs, patch, m, body]
  refine ⟨_, _, rfl, fun h => ?_⟩
  have houtcomes := congrArg (Except.map Prod.fst) h
  cases houtcomes

end Pass

end CilGraft
