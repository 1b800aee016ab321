import CilGraft.Proofs.Histories

/-!
# What an injection touches

An injection adds references and changes the body of one method, which is put in place last. What
fails before that leaves every method as it was.

* `Module.AddsRows` — a table has at most one row more, at its end; `addsRows_import_`.
* `Module.DiffersInBody` — the modules define the same, up to the body of one method.
* `inject_ends` — the ways in which an injection ends.
* `Footprint` — what may be touched, by the result; `inject_footprint` — **and nothing else is**.
* `runRequests_others` — requests for other methods keep the body and the references of a method, so
  that a patch that was applied to it stays there: `inject_after_others`.
-/

set_option autoImplicit false

namespace CilGraft

/-! ## Rows that are added -/

namespace Module

/-- The second module has the name and the references of the first, and at most one more reference of
each kind. -/
structure AddsRows (m m' : Module) : Prop where
  name : m'.name = m.name
  typeRefs : ∃ rows, rows.length ≤ 1 ∧ m'.typeRefs = m.typeRefs ++ rows
  memberRefs : ∃ rows, rows.length ≤ 1 ∧ m'.memberRefs = m.memberRefs ++ rows

theorem AddsRows.refl (m : Module) : m.AddsRows m where
  name := rfl
  typeRefs := ⟨[], Nat.zero_le 1, (List.append_nil _).symm⟩
  memberRefs := ⟨[], Nat.zero_le 1, (List.append_nil _).symm⟩

theorem AddsRows.extends {m m' : Module} (h : m.AddsRows m') : m.Extends m' := by
  obtain ⟨-, ⟨ts, -, hts⟩, ms, -, hms⟩ := h
  exact ⟨⟨ts, hts.symm⟩, ⟨ms, hms.symm⟩⟩

section Import

variable (m : Module)

/-- A reference to a type adds a row to the table of types only. -/
theorem addsRows_importType (scope : String) (owner : TypeDef) :
    m.AddsRows (m.importType scope owner).2 ∧
      (m.importType scope owner).2.memberRefs = m.memberRefs := by
  unfold importType
  split
  · exact ⟨AddsRows.refl m, rfl⟩
  · split
    · exact ⟨AddsRows.refl m, rfl⟩
    · exact ⟨⟨rfl, ⟨[_], Nat.le_refl 1, rfl⟩, (AddsRows.refl m).memberRefs⟩, rfl⟩

/-- A reference to a member adds a row to the table of members only. -/
theorem addsRows_addMember (class_ : Token) (f : Method) :
    m.AddsRows (m.addMember class_ f).2 ∧ (m.addMember class_ f).2.typeRefs = m.typeRefs := by
  unfold addMember
  split
  · exact ⟨AddsRows.refl m, rfl⟩
  · exact ⟨⟨rfl, (AddsRows.refl m).typeRefs, ⟨[_], Nat.le_refl 1, rfl⟩⟩, rfl⟩

/-- An import adds one row to each table at most, whether or not it succeeds. -/
theorem addsRows_import_ (e : ExternalMethod) : m.AddsRows (m.import_ e).2 := by
  obtain hsame | ⟨class_, m₁, htype, hsame⟩ := m.snd_import_cases e <;> rw [hsame]
  · exact AddsRows.refl m
  · obtain ⟨hrows, hkept⟩ := m.addsRows_importType e.scope e.owner
    rw [htype] at hrows hkept
    obtain ⟨hmember, hkept'⟩ := m₁.addsRows_addMember class_ e.method
    exact ⟨hmember.name.trans hrows.name, by rw [hkept']; exact hrows.typeRefs,
      by rw [← hkept]; exact hmember.memberRefs⟩

/-- An import of a method that can be called fails only for want of rows. -/
theorem exists_code_of_import_ {e : ExternalMethod} {err : Error} {m' : Module}
    (hcallable : e.ensureCallable = .ok ()) (h : m.import_ e = (.error err, m')) :
    ∃ c : CodeError, err = .code c := by
  have himports := m.imports_import_ e
  rw [h] at himports
  cases himports with
  | uncallable huncallable =>
    rw [hcallable] at huncallable
    cases huncallable
  | @typeless c | @memberless _ c => exact ⟨c, rfl⟩

end Import

/-! ## Modules that differ in one body -/

/-- The two modules define the same types and methods, and only the method at the place has another
body. -/
structure DiffersInBody (target : MethodPlace) (m m' : Module) : Prop where
  types : m'.types.length = m.types.length
  headers : ∀ (i : Nat) (t t' : TypeDef), m.types[i]? = some t → m'.types[i]? = some t' →
    t' = { t with methods := t'.methods } ∧ t'.methods.length = t.methods.length
  others : ∀ p ≠ target, m'.method? p = m.method? p
  target : ∃ f body, m.method? target = some f ∧ m'.method? target = some { f with body }

theorem differsInBody_setBody {m : Module} {target : MethodPlace} {f : Method} (body : Option Body)
    (h : m.method? target = some f) : m.DiffersInBody target (m.setBody target body) where
  types := List.length_modify _ _ _
  headers := by
    intro i t t' ht ht'
    rw [setBody, List.getElem?_modify, ht, Option.map_eq_map, Option.map_some] at ht'
    cases ht'
    by_cases hi : target.type = i
    · rw [if_pos hi]
      exact ⟨rfl, List.length_modify _ _ _⟩
    · rw [if_neg hi]
      exact ⟨rfl, rfl⟩
  others _ hp := method?_setBody_of_ne body hp
  target := ⟨f, body, h, method?_setBody body h⟩

/-- Only the types of the modules count. -/
theorem DiffersInBody.congr {m m₁ m' : Module} {target : MethodPlace} (htypes : m₁.types = m.types)
    (h : m₁.DiffersInBody target m') : m.DiffersInBody target m' := by
  have hmethod : m₁.method? = m.method? := by
    funext p
    rw [method?, method?, owner?, owner?, htypes]
  obtain ⟨hlength, hheaders, hothers, hplace⟩ := h
  rw [htypes] at hlength hheaders
  rw [hmethod] at hothers hplace
  exact ⟨hlength, hheaders, hothers, hplace⟩

end Module

/-! ## The footprint of an injection -/

/-- The error says that the method or the patch is unfit, which is found out before anything is
changed. -/
def Error.isRefusal : Error → Bool
  | .methodNotFound _ _ | .notPatchable _ | .notCallable _ _ | .instructionNotFound _ _ => true
  | _ => false

theorem isRefusal_of_patchableBody {m : Module} {target : MethodPlace} {e : Error}
    (h : patchableBody m target = .error e) : e.isRefusal = true := by
  unfold patchableBody at h
  split at h
  · cases h
    rfl
  · split at h
    · cases h
      rfl
    · split at h
      · cases h
        rfl
      · cases h

theorem isRefusal_of_ensureCallable {patch : ExternalMethod} {e : Error}
    (h : patch.ensureCallable = .error e) : e.isRefusal = true := by
  unfold ExternalMethod.ensureCallable at h
  split at h
  · cases h
    rfl
  · cases h

/-- The ways in which an injection ends: before it changes anything, after its import, or with another
body for the method. -/
theorem inject_ends (m : Module) (target : MethodPlace) (patch : ExternalMethod) (l : Location) :
    (inject m target patch l = (.ok .alreadyPresent, m) ∨
      ∃ e, e.isRefusal = true ∧ inject m target patch l = (.error e, m)) ∨
    (∃ c : CodeError, inject m target patch l = (.error (.code c), (m.import_ patch).2)) ∨
    ∃ f count body, m.method? target = some f ∧ inject m target patch l =
      (.ok (.inserted count), (m.import_ patch).2.setBody target (some body)) := by
  have hinjects := injects_inject m target patch l
  generalize inject m target patch l = done at hinjects
  cases hinjects with
  | unfit hbody => exact Or.inl (Or.inr ⟨_, isRefusal_of_patchableBody hbody, rfl⟩)
  | uncallable hcallable => exact Or.inl (Or.inr ⟨_, isRefusal_of_ensureCallable hcallable, rfl⟩)
  | present => exact Or.inl (Or.inl rfl)
  | endless => exact Or.inl (Or.inr ⟨_, rfl, rfl⟩)
  | unimported hcallable himport =>
    obtain ⟨c, rfl⟩ := m.exists_code_of_import_ hcallable himport
    exact Or.inr (Or.inl ⟨c, by rw [himport]⟩)
  | @unmade _ _ _ c himport _ => exact Or.inr (Or.inl ⟨c, by rw [himport]⟩)
  | @inserted _ b' _ _ count hbody _ _ himport _ =>
    obtain ⟨f, hf, -⟩ := Option.bind_eq_some_iff.1 (patchableBody_eq_ok_iff.1 hbody).1
    exact Or.inr (Or.inr ⟨f, count, b', hf, by rw [himport]⟩)

/-- What an injection may touch, by what it gives. -/
def Footprint (target : MethodPlace) (m : Module) : Except Error Injected × Module → Prop
  | (.ok .alreadyPresent, m') => m' = m
  | (.ok (.inserted _), m') => m.DiffersInBody target m' ∧ m.AddsRows m'
  | (.error e, m') => if e.isRefusal then m' = m else m'.types = m.types ∧ m.AddsRows m'

/-- **An injection touches only what it may.**  One that finds its call in place, or is refused,
changes nothing; one that fails later has at most added references; and one that inserts calls has
changed the body of its method and added one reference of each kind at most. -/
theorem inject_footprint (m : Module) (target : MethodPlace) (patch : ExternalMethod)
    (l : Location) : Footprint target m (inject m target patch l) := by
  have htypes := m.types_import_ patch
  have hrows := m.addsRows_import_ patch
  obtain (h | ⟨e, hrefusal, h⟩) | ⟨c, h⟩ | ⟨f, count, body, hf, h⟩ :=
    inject_ends m target patch l <;> rw [h]
  · rfl
  · exact (if_pos hrefusal).mpr rfl
  · exact ⟨htypes, hrows⟩
  · have hf₁ : (m.import_ patch).2.method? target = some f := by
      rw [← hf, Module.method?, Module.method?, Module.owner?, Module.owner?, htypes]
    exact ⟨(Module.differsInBody_setBody (some body) hf₁).congr htypes,
      ⟨hrows.name, hrows.typeRefs, hrows.memberRefs⟩⟩

/-! ## Requests for other methods -/

section Others

variable {target : MethodPlace}

/-- A request keeps the references of a module. -/
theorem extends_run (m : Module) (r : PatchRequest) : m.Extends (r.run m) := by
  have hrows := (m.addsRows_import_ r.patch).extends
  unfold PatchRequest.run
  obtain (h | ⟨e, -, h⟩) | ⟨c, h⟩ | ⟨f, count, body, -, h⟩ :=
    inject_ends m r.target r.patch r.location <;> rw [h]
  · exact Module.Extends.refl m
  · exact Module.Extends.refl m
  · exact hrows
  · exact ⟨hrows.typeRefs, hrows.memberRefs⟩

/-- A request for another method keeps the body of a method. -/
theorem body?_run (m : Module) {r : PatchRequest} (hother : r.target ≠ target) :
    (r.run m).body? target = m.body? target := by
  have hbody := Module.body?_congr (m.types_import_ r.patch) target
  unfold PatchRequest.run
  obtain (h | ⟨e, -, h⟩) | ⟨c, h⟩ | ⟨f, count, body, -, h⟩ :=
    inject_ends m r.target r.patch r.location <;> rw [h]
  · exact hbody
  · rw [Module.body?_setBody_of_ne _ (Ne.symm hother), hbody]

/-- **Requests for other methods** keep the references of a module and the body of a method, whatever
becomes of them. -/
theorem runRequests_others (m : Module) {rs : List PatchRequest}
    (hothers : ∀ r ∈ rs, r.target ≠ target) :
    m.Extends (runRequests m rs) ∧ (runRequests m rs).body? target = m.body? target := by
  induction rs generalizing m with
  | nil => exact ⟨Module.Extends.refl m, rfl⟩
  | cons r rs ih =>
    obtain ⟨hother, hothers⟩ := List.forall_mem_cons.1 hothers
    obtain ⟨hext, hbody⟩ := ih (r.run m) hothers
    exact ⟨(extends_run m r).trans hext, hbody.trans (body?_run m hother)⟩

end Others

/-- **A patch that was applied stays detected.**  In a module whose references resolve, a patch whose
calls were inserted into a method is found there after any requests for other methods, and applying
it again changes nothing. -/
theorem inject_after_others {m m' : Module} {target : MethodPlace} {patch : ExternalMethod}
    {l : Location} {count : Nat} {rs : List PatchRequest} (hrefs : m.RefsResolve)
    (h : inject m target patch l = (.ok (.inserted count), m'))
    (hothers : ∀ r ∈ rs, r.target ≠ target) :
    inject (runRequests m' rs) target patch l = (.ok .alreadyPresent, runRequests m' rs) := by
  obtain ⟨-, b, t, -, hbody, -, -, hfound, hinjected, -⟩ := inject_ok_cases hrefs h
  obtain ⟨hext, hsame⟩ := runRequests_others m' hothers
  have hpresent : isPresent (runRequests m' rs) b patch l = true :=
    isPresent_iff.2 ⟨t, Module.findImport?_of_extends hext hfound, hinjected⟩
  exact inject_alreadyPresent_iff.2 ⟨rfl, callable_of_inject h, b, hsame.trans hbody,
    ne_nil_of_isPresent hpresent, hpresent⟩

/-- A patch at the exits of a body that is a return only, then another patch for another method, and
one for a method that is not there. -/
theorem inject_after_others_return_only :
    let body : Body := ⟨8, ⟨0⟩, false, [⟨.ret, .none⟩], []⟩
    let m : Module :=
      ⟨"Game", [⟨⟨0x02000001⟩, "", "Player", 1,
        [⟨⟨0x06000001⟩, "Update", 6, [0x20, 0, 1], some body⟩,
          ⟨⟨0x06000002⟩, "Start", 6, [0x20, 0, 1], some body⟩]⟩], [], []⟩
    let patch (scope : String) : ExternalMethod :=
      ⟨scope, ⟨⟨0x02000001⟩, "", "Hooks", 1, []⟩, ⟨⟨0x06000001⟩, "Run", 0x16, [0, 0, 1], none⟩⟩
    let rs : List PatchRequest :=
      [⟨⟨0, 1⟩, patch "B", .entry⟩, ⟨⟨7, 7⟩, patch "A", .exits⟩, ⟨⟨0, 1⟩, patch "A", .exits⟩]
    ∃ m', inject m ⟨0, 0⟩ (patch "A") .exits = (.ok (.inserted 1), m') ∧
      inject (runRequests m' rs) ⟨0, 0⟩ (patch "A") .exits =
        (.ok .alreadyPresent, runRequests m' rs) := by
  intro body m patch rs
  have hresult : (inject m ⟨0, 0⟩ (patch "A") .exits).1 = .ok (.inserted 1) := by
    simp only [m, patch, body]
    rfl
  have h : inject m ⟨0, 0⟩ (patch "A") .exits =
      (.ok (.inserted 1), (inject m ⟨0, 0⟩ (patch "A") .exits).2) := Prod.ext hresult rfl
  have hrefs : m.RefsResolve := by
    intro r hr
    cases hr
  have hothers : ∀ r ∈ rs, r.target ≠ ⟨0, 0⟩ := by
    simp [rs]
  exact ⟨_, h, inject_after_others hrefs h hothers⟩

end CilGraft
