import CilGraft.Proofs.ImportedReferences

/-!
# Imports that fail

An import takes a row of the table of types, when the type is new, and then one of the table of
members.  The first row is not given back when there is none left for the second.

* `freeToken_eq_error_iff` — a table has no free token exactly when its last row is in use.
* `Module.import_error_cases` — the ways in which an import fails.
* `Module.StrandsType` — a new type gets a row, but its member gets none; `import_of_strands` — what
  an import does then, and `inject_of_strands` — **an injection leaves the row behind as well**.
* `failed_import_keeps_iff` — **an import that fails leaves the tables as they were in every other
  case**, and an import that is tried again fails again and adds nothing more.
* `stranded_type` — a module with a full table of members, to which a failed import has added a type.
-/

set_option autoImplicit false

namespace CilGraft

theorem freeToken_eq_error_iff {table : Table} {used : List Token} {err : CodeError} :
    freeToken table used = .error err ↔
      err = .malformed (.tableFull table) ∧ ¬ HasFreeRow used := by
  rw [← exists_freeToken_iff table]
  simp only [freeToken]
  split
  · constructor
    · intro h
      cases h
      refine ⟨rfl, ?_⟩
      rintro ⟨t, ht⟩
      cases ht
    · rintro ⟨rfl, -⟩
      rfl
  · constructor
    · intro h
      cases h
    · rintro ⟨-, hfull⟩
      exact absurd ⟨_, rfl⟩ hfull

namespace Module

variable {m m' : Module} {e : ExternalMethod} {err : Error}

/-! ## The ways in which an import fails -/

theorem importType_eq_error {scope : String} {owner : TypeDef} {c : CodeError}
    (h : m.importType scope owner = (.error c, m')) :
    m' = m ∧ c = .malformed (.tableFull .typeRef) ∧ ¬ HasFreeRow (m.typeRefs.map (·.token)) := by
  unfold importType at h
  split at h
  · cases h
  · split at h
    · rename_i hfree
      cases h
      exact ⟨rfl, freeToken_eq_error_iff.1 hfree⟩
    · cases h

theorem addMember_eq_error {class_ : Token} {f : Method} {c : CodeError}
    (h : m.addMember class_ f = (.error c, m')) :
    m' = m ∧ c = .malformed (.tableFull .memberRef) ∧
      ¬ HasFreeRow (m.memberRefs.map (·.token)) := by
  unfold addMember at h
  split at h
  · rename_i hfree
    cases h
    exact ⟨rfl, freeToken_eq_error_iff.1 hfree⟩
  · cases h

/-- The ways in which an import fails: the method cannot be called, there is no row for its type, or
there is none for the method itself, when its type may have got one. -/
theorem import_error_cases (h : m.import_ e = (.error err, m')) :
    (m' = m ∧ e.ensureCallable = .error err) ∨
      e.ensureCallable = .ok () ∧
        ((m' = m ∧ err = .code (.malformed (.tableFull .typeRef)) ∧
            ¬ HasFreeRow (m.typeRefs.map (·.token))) ∨
          ∃ class_, m.importType e.scope e.owner = (.ok class_, m') ∧
            err = .code (.malformed (.tableFull .memberRef)) ∧
            ¬ HasFreeRow (m.memberRefs.map (·.token))) := by
  have himports := m.imports_import_ e
  rw [h] at himports
  cases himports with
  | uncallable huncallable => exact Or.inl ⟨rfl, huncallable⟩
  | typeless hcallable htype =>
    obtain ⟨rfl, rfl, hfull⟩ := importType_eq_error htype
    exact Or.inr ⟨hcallable, Or.inl ⟨rfl, rfl, hfull⟩⟩
  | @memberless class_ c m₁ _ hcallable htype hmember =>
    have hkept := (m.addsRows_importType e.scope e.owner).2
    obtain ⟨rfl, rfl, hfull⟩ := addMember_eq_error hmember
    rw [htype] at hkept
    rw [hkept] at hfull
    exact Or.inr ⟨hcallable, Or.inr ⟨class_, htype, rfl, hfull⟩⟩

/-! ## A row that is left behind -/

/-- The type of the method has no row and can get one, but there is none left for the method. -/
structure StrandsType (m : Module) (e : ExternalMethod) : Prop where
  callable : e.ensureCallable = .ok ()
  newType : m.findTypeRef? e.scope e.owner = none
  room : HasFreeRow (m.typeRefs.map (·.token))
  full : ¬ HasFreeRow (m.memberRefs.map (·.token))

/-- The row by which a type is referred to. -/
def typeRow (class_ : Token) (e : ExternalMethod) : TypeRef :=
  ⟨class_, e.scope, e.owner.namespace_, e.owner.name⟩

/-- The module with a row for the type of the method. -/
def withTypeRow (m : Module) (class_ : Token) (e : ExternalMethod) : Module :=
  { m with typeRefs := m.typeRefs ++ [typeRow class_ e] }

theorem typeRefs_withTypeRow_ne (m : Module) (class_ : Token) (e : ExternalMethod) :
    (m.withTypeRow class_ e).typeRefs ≠ m.typeRefs := fun h =>
  List.cons_ne_nil _ _ (List.append_right_eq_self.1 h)

theorem addMember_of_full (hfull : ¬ HasFreeRow (m.memberRefs.map (·.token))) (class_ : Token)
    (f : Method) : m.addMember class_ f = (.error (.malformed (.tableFull .memberRef)), m) := by
  have hfree : freeToken .memberRef (m.memberRefs.map (·.token)) =
      .error (.malformed (.tableFull .memberRef)) := freeToken_eq_error_iff.2 ⟨rfl, hfull⟩
  rw [addMember, hfree]

/-- A new type gets the first free row. -/
theorem importType_of_free {class_ : Token} (hnew : m.findTypeRef? e.scope e.owner = none)
    (hfree : freeToken .typeRef (m.typeRefs.map (·.token)) = .ok class_) :
    m.importType e.scope e.owner = (.ok class_, m.withTypeRow class_ e) := by
  simp only [importType, hnew, hfree]
  rfl

/-- A stranded type has its row, and the import has failed. -/
theorem import_of_strands (h : m.StrandsType e) :
    ∃ class_, freeToken .typeRef (m.typeRefs.map (·.token)) = .ok class_ ∧
      m.import_ e =
        (.error (.code (.malformed (.tableFull .memberRef))), m.withTypeRow class_ e) := by
  obtain ⟨class_, hfree⟩ := (exists_freeToken_iff .typeRef).2 h.room
  have htype := importType_of_free h.newType hfree
  have himport : m.findImport? e = none := by rw [findImport?, h.newType, Option.bind_none]
  have hmember := addMember_of_full (m := m.withTypeRow class_ e) h.full class_ e.method
  refine ⟨class_, hfree, ?_⟩
  simp only [import_, h.callable, himport, htype, hmember]

/-- In all other cases nothing has changed. -/
theorem import_of_not_strands (h : m.import_ e = (.error err, m')) (hnot : ¬ m.StrandsType e) :
    m' = m := by
  obtain ⟨hsame, -⟩ | ⟨hcallable, ⟨hsame, -⟩ | ⟨class_, htype, -, hfull⟩⟩ := import_error_cases h
  · exact hsame
  · exact hsame
  · obtain ⟨hsame, -⟩ | ⟨hnew, hfree, -⟩ := importType_cases htype
    · exact hsame
    · exact absurd ⟨hcallable, hnew, (exists_freeToken_iff .typeRef).1 ⟨class_, hfree⟩, hfull⟩ hnot

/-- An import that has failed fails again, in the same way, and adds nothing more. -/
theorem import_again (hrefs : m.RefsResolve) (h : m.import_ e = (.error err, m')) :
    m'.import_ e = (.error err, m') := by
  by_cases hstrands : m.StrandsType e
  · obtain ⟨class_, hfree, himport⟩ := import_of_strands hstrands
    rw [himport] at h
    cases h
    have htype := importType_of_free hstrands.newType hfree
    have hfound := findTypeRef?_importType htype
    have hmissing : (m.withTypeRow class_ e).findImport? e = none := by
      rw [findImport?, hfound, Option.bind_some]
      exact findMemberRef?_importType hrefs htype hstrands.newType
    have hagain : (m.withTypeRow class_ e).importType e.scope e.owner =
        (.ok class_, m.withTypeRow class_ e) := by
      simp only [importType, hfound]
    have hmember := addMember_of_full (m := m.withTypeRow class_ e) hstrands.full class_ e.method
    simp only [import_, hstrands.callable, hmissing, hagain, hmember]
  · obtain rfl := import_of_not_strands h hstrands
    exact h

end Module

/-- An injection whose import strands a type fails, and the row stays in the module. -/
theorem inject_of_strands {m : Module} {target : MethodPlace} {patch : ExternalMethod} {l : Location}
    {b : Body} (hbody : patchableBody m target = .ok b) (hreturns : l = .exits → b.returns ≠ [])
    (h : m.StrandsType patch) :
    ∃ class_, inject m target patch l =
      (.error (.code (.malformed (.tableFull .memberRef))), m.withTypeRow class_ patch) := by
  obtain ⟨class_, -, himport⟩ := Module.import_of_strands h
  have hpresent : isPresent m b patch l = false := by
    rw [isPresent, Module.findImport?, h.newType, Option.bind_none]
  have hsome : ¬ (l = .exits ∧ b.returns = []) := fun hnone => hreturns hnone.1 hnone.2
  refine ⟨class_, ?_⟩
  simp only [inject, hbody, h.callable, hpresent, Bool.false_eq_true, if_false, if_neg hsome,
    himport]

/-- **A failed import changes nothing, unless it strands a type.**  An import that fails leaves both
tables of references as they were exactly when it does not strand the type of its method, and then the
module is the same as a whole.  Otherwise the table of members is full, and the module has one more
row, for the type.  In a module whose references resolve, the import fails again when it is tried
again, with the same error, and adds nothing more. -/
theorem failed_import_keeps_iff {m m' : Module} {e : ExternalMethod} {err : Error}
    (h : m.import_ e = (.error err, m')) :
    (m'.typeRefs = m.typeRefs ∧ m'.memberRefs = m.memberRefs ↔ ¬ m.StrandsType e) ∧
      (¬ m.StrandsType e → m' = m) ∧
      (m.StrandsType e → err = .code (.malformed (.tableFull .memberRef)) ∧
        ∃ class_, freeToken .typeRef (m.typeRefs.map (·.token)) = .ok class_ ∧
          m' = m.withTypeRow class_ e) ∧
      (m.RefsResolve → m'.import_ e = (.error err, m')) := by
  have hkept := Module.import_of_not_strands h
  have hstranded : m.StrandsType e → err = .code (.malformed (.tableFull .memberRef)) ∧
      ∃ class_, freeToken .typeRef (m.typeRefs.map (·.token)) = .ok class_ ∧
        m' = m.withTypeRow class_ e := by
    intro hstrands
    obtain ⟨class_, hfree, himport⟩ := Module.import_of_strands hstrands
    rw [himport] at h
    cases h
    exact ⟨rfl, class_, hfree, rfl⟩
  refine ⟨⟨?_, ?_⟩, hkept, hstranded, fun hrefs => Module.import_again hrefs h⟩
  · rintro ⟨htypes, -⟩ hstrands
    obtain ⟨-, class_, -, rfl⟩ := hstranded hstrands
    exact Module.typeRefs_withTypeRow_ne m class_ e htypes
  · intro hnot
    rw [hkept hnot]
    exact ⟨rfl, rfl⟩

/-- A full table of members and a method of a new type, whose import is tried twice. -/
theorem failed_import_keeps_iff_full :
    let m : Module :=
      ⟨"Game.dll", [], [⟨⟨0x01000007⟩, "A", "", "Other"⟩],
        [⟨⟨0x0AFFFFFF⟩, ⟨0x01000007⟩, "M", [0, 0, 1]⟩]⟩
    let e : ExternalMethod :=
      ⟨"A", ⟨⟨0x02000002⟩, "", "P", 1, []⟩, ⟨⟨0x06000001⟩, "M", 0x96, [0, 0, 1], none⟩⟩
    let err : Error := .code (.malformed (.tableFull .memberRef))
    let m' : Module := m.withTypeRow ⟨0x01000008⟩ e
    m.import_ e = (.error err, m') ∧
      (m'.typeRefs = m.typeRefs ∧ m'.memberRefs = m.memberRefs ↔ ¬ m.StrandsType e) ∧
      m'.import_ e = (.error err, m') := by
  intro m e err m'
  have h : m.import_ e = (.error err, m') := by
    simp only [m, e, err, m']
    rfl
  have hrefs : m.RefsResolve := by
    intro r hr _
    obtain rfl := List.mem_singleton.1 hr
    exact ⟨_, List.mem_singleton_self _, rfl⟩
  obtain ⟨hiff, -, -, hagain⟩ := failed_import_keeps_iff h
  exact ⟨h, hiff, hagain hrefs⟩

/-- The row of a new type is left behind by a failed import, and by an injection that fails with it. -/
theorem stranded_type :
    let body : Body := ⟨8, ⟨0⟩, false, [⟨.nop, .none⟩, ⟨.ret, .none⟩], []⟩
    let m : Module :=
      ⟨"Game.dll", [⟨⟨0x02000001⟩, "", "Player", 1,
        [⟨⟨0x06000001⟩, "Update", 0x86, [0x20, 0, 1], some body⟩]⟩],
        [⟨⟨0x01000007⟩, "mscorlib", "System", "Object"⟩],
        [⟨⟨0x0AFFFFFF⟩, ⟨0x01000007⟩, ".ctor", [0x20, 0, 1]⟩]⟩
    let e : ExternalMethod :=
      ⟨"A", ⟨⟨0x02000002⟩, "", "P", 1, []⟩, ⟨⟨0x06000001⟩, "M", 0x96, [0, 0, 1], none⟩⟩
    let m' : Module :=
      { m with typeRefs :=
        [⟨⟨0x01000007⟩, "mscorlib", "System", "Object"⟩, ⟨⟨0x01000008⟩, "A", "", "P"⟩] }
    m.import_ e = (.error (.code (.malformed (.tableFull .memberRef))), m') ∧
      inject m ⟨0, 0⟩ e .entry = (.error (.code (.malformed (.tableFull .memberRef))), m') ∧
      ¬ (m'.typeRefs = m.typeRefs ∧ m'.memberRefs = m.memberRefs) := by
  intro body m e m'
  refine ⟨?_, ?_, ?_⟩
  · simp only [m, e, m', body]
    rfl
  · simp only [m, e, m', body]
    rfl
  · rintro ⟨htypes, -⟩
    exact absurd (congrArg List.length htypes) (by decide)

end CilGraft
