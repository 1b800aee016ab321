import CilGraft.Metadata.Import
import CilGraft.Steps

/-!
# References that stay

The token of a referenced method is looked up through two tables. Rows are only ever added at their
ends, so a token that is found is found for good.

* `Module.RefsResolve` — every reference to a member of a referenced type has a row for the type.
* `Module.Extends` — the tables of one module begin with those of the other.
* `findImport?_of_extends` — a token that is found in a module is found in all that extend it.
* `Module.Imports` — how an import ends; `imports_import_`.
* `findImport?_of_import_` — the token that `import_` gives is the one that is found afterwards.
-/

set_option autoImplicit false

namespace CilGraft

/-! ## Free tokens -/

theorem foldl_max_lt_iff {l : List Nat} {a b : Nat} :
    l.foldl max a < b ↔ a < b ∧ ∀ n ∈ l, n < b := by
  induction l generalizing a with
  | nil => simp
  | cons n l ih => rw [List.foldl_cons, ih, Nat.max_lt, List.forall_mem_cons, and_assoc]

/-- A free token is one of its table, and is not in use. -/
theorem table_of_freeToken {table : Table} {used : List Token} {t : Token}
    (h : freeToken table used = .ok t) : t.table = table.id ∧ t ∉ used := by
  simp only [freeToken] at h
  split at h
  · cases h
  · rename_i hroom
    cases h
    refine ⟨Token.table_ofRow _ _, fun hmem => ?_⟩
    obtain ⟨-, hbelow⟩ :=
      foldl_max_lt_iff.1 (Nat.lt_succ_self ((used.map Token.row).foldl max 0))
    have hlt := hbelow _ (List.mem_map_of_mem (f := Token.row) hmem)
    rw [Token.row_ofRow] at hlt
    simp only [Token.maxRow] at hroom
    omega

namespace Module

/-! ## Tables that grow -/

/-- Every reference to a member of a type of the table of type references has a row for the type. -/
def RefsResolve (m : Module) : Prop :=
  ∀ r ∈ m.memberRefs, r.class_.table = Table.typeRef.id → ∃ s ∈ m.typeRefs, s.token = r.class_

/-- The tables of the second module begin with those of the first. -/
structure Extends (m m' : Module) : Prop where
  typeRefs : m.typeRefs <+: m'.typeRefs
  memberRefs : m.memberRefs <+: m'.memberRefs

theorem Extends.refl (m : Module) : m.Extends m := ⟨List.prefix_rfl, List.prefix_rfl⟩

theorem Extends.trans {m₁ m₂ m₃ : Module} (h : m₁.Extends m₂) (h' : m₂.Extends m₃) :
    m₁.Extends m₃ :=
  ⟨h.typeRefs.trans h'.typeRefs, h.memberRefs.trans h'.memberRefs⟩

theorem find?_of_prefix {α : Type} {p : α → Bool} {xs ys : List α} {a : α} (hstart : xs <+: ys)
    (h : xs.find? p = some a) : ys.find? p = some a := by
  obtain ⟨zs, rfl⟩ := hstart
  rw [List.find?_append, h]
  rfl

section Found

variable {m m' : Module}

theorem findTypeRef?_of_extends (hext : m.Extends m') {scope : String} {owner : TypeDef} {t : Token}
    (h : m.findTypeRef? scope owner = some t) : m'.findTypeRef? scope owner = some t := by
  obtain ⟨r, hr, rfl⟩ := Option.map_eq_some_iff.1 h
  rw [findTypeRef?, find?_of_prefix hext.typeRefs hr]
  rfl

theorem findMemberRef?_of_extends (hext : m.Extends m') {class_ t : Token} {f : Method}
    (h : m.findMemberRef? class_ f = some t) : m'.findMemberRef? class_ f = some t := by
  obtain ⟨r, hr, rfl⟩ := Option.map_eq_some_iff.1 h
  rw [findMemberRef?, find?_of_prefix hext.memberRefs hr]
  rfl

/-- A token that is found is found for good. -/
theorem findImport?_of_extends (hext : m.Extends m') {e : ExternalMethod} {t : Token}
    (h : m.findImport? e = some t) : m'.findImport? e = some t := by
  obtain ⟨class_, hclass, hmember⟩ := Option.bind_eq_some_iff.1 h
  rw [findImport?, findTypeRef?_of_extends hext hclass]
  exact findMemberRef?_of_extends hext hmember

end Found

/-! ## What an import adds -/

/-- What the reference to a type does: nothing, or it adds a row with a free token. -/
theorem importType_cases {m m' : Module} {scope : String} {owner : TypeDef} {class_ : Token}
    (h : m.importType scope owner = (.ok class_, m')) :
    (m' = m ∧ m.findTypeRef? scope owner = some class_) ∨
      (m.findTypeRef? scope owner = none ∧
        freeToken .typeRef (m.typeRefs.map (·.token)) = .ok class_ ∧
        m' = { m with
          typeRefs := m.typeRefs ++ [⟨class_, scope, owner.namespace_, owner.name⟩] }) := by
  unfold importType at h
  split at h
  · rename_i t ht
    cases h
    exact Or.inl ⟨rfl, ht⟩
  · rename_i hnone
    split at h
    · cases h
    · rename_i t ht
      cases h
      exact Or.inr ⟨hnone, ht, rfl⟩

/-- A reference to a type that finds no free token adds nothing. -/
theorem importType_error {m m' : Module} {scope : String} {owner : TypeDef} {err : CodeError}
    (h : m.importType scope owner = (.error err, m')) : m' = m := by
  unfold importType at h
  split at h
  · cases h
  · split at h <;> cases h
    rfl

section Added

variable {m m' : Module} {scope : String} {owner : TypeDef} {class_ t : Token} {f : Method}

theorem addMember_eq_ok (h : m.addMember class_ f = (.ok t, m')) :
    m' = { m with memberRefs := m.memberRefs ++ [⟨t, class_, f.name, f.signature⟩] } := by
  unfold addMember at h
  split at h
  · cases h
  · cases h
    rfl

theorem extends_importType (h : m.importType scope owner = (.ok class_, m')) : m.Extends m' := by
  obtain ⟨rfl, -⟩ | ⟨-, -, rfl⟩ := importType_cases h
  · exact Extends.refl _
  · exact ⟨List.prefix_append _ _, List.prefix_rfl⟩

theorem extends_addMember (h : m.addMember class_ f = (.ok t, m')) : m.Extends m' := by
  rw [addMember_eq_ok h]
  exact ⟨List.prefix_rfl, List.prefix_append _ _⟩

theorem findTypeRef?_importType (h : m.importType scope owner = (.ok class_, m')) :
    m'.findTypeRef? scope owner = some class_ := by
  obtain ⟨rfl, hfound⟩ | ⟨hnone, -, rfl⟩ := importType_cases h
  · exact hfound
  · rw [findTypeRef?, Option.map_eq_none_iff] at hnone
    simp [findTypeRef?, List.find?_append, hnone]

/-- A type that is found has a row. -/
theorem exists_of_findTypeRef? (h : m.findTypeRef? scope owner = some class_) :
    ∃ s ∈ m.typeRefs, s.token = class_ := by
  obtain ⟨r, hr, htoken⟩ := Option.map_eq_some_iff.1 h
  exact ⟨r, List.mem_of_find?_eq_some hr, htoken⟩

theorem refsResolve_importType (hrefs : m.RefsResolve)
    (h : m.importType scope owner = (.ok class_, m')) : m'.RefsResolve := by
  obtain ⟨rfl, -⟩ | ⟨-, -, rfl⟩ := importType_cases h
  · exact hrefs
  · intro r hr htable
    obtain ⟨s, hs, htoken⟩ := hrefs r hr htable
    exact ⟨s, List.mem_append_left _ hs, htoken⟩

/-- The references of a module resolve with a member of a type that has a row. -/
theorem refsResolve_addMember (hrefs : m.RefsResolve) (hrow : ∃ s ∈ m.typeRefs, s.token = class_)
    (f : Method) : (m.addMember class_ f).2.RefsResolve := by
  unfold addMember
  split
  · exact hrefs
  · intro r hr htable
    obtain hr | hr := List.mem_append.1 hr
    · exact hrefs r hr htable
    · obtain rfl := List.mem_singleton.1 hr
      exact hrow

/-- A member of a type that has only now got its row has none itself. -/
theorem findMemberRef?_importType (hrefs : m.RefsResolve)
    (h : m.importType scope owner = (.ok class_, m'))
    (hnone : m.findTypeRef? scope owner = none) : m'.findMemberRef? class_ f = none := by
  obtain ⟨rfl, hfound⟩ | ⟨-, hfree, rfl⟩ := importType_cases h
  · rw [hfound] at hnone
    cases hnone
  · obtain ⟨htable, hunused⟩ := table_of_freeToken hfree
    rw [findMemberRef?, Option.map_eq_none_iff, List.find?_eq_none]
    intro r hr hmatch
    simp only [Bool.and_eq_true, beq_iff_eq] at hmatch
    obtain ⟨s, hs, htoken⟩ := hrefs r hr (by rw [hmatch.1.1, htable])
    exact hunused (List.mem_map.2 ⟨s, hs, htoken.trans hmatch.1.1⟩)

end Added

/-- How an import ends: the method cannot be called, it is referred to already, or its rows are added,
that of its type first, as long as there are free tokens. -/
inductive Imports (m : Module) (e : ExternalMethod) : Except Error Token × Module → Prop
  | uncallable {err : Error} (uncallable : e.ensureCallable = .error err) :
      Imports m e (.error err, m)
  | found {t : Token} (callable : e.ensureCallable = .ok ()) (found : m.findImport? e = some t) :
      Imports m e (.ok t, m)
  | typeless {c : CodeError} {m₁ : Module} (callable : e.ensureCallable = .ok ())
      (type : m.importType e.scope e.owner = (.error c, m₁)) : Imports m e (.error (.code c), m₁)
  | memberless {class_ : Token} {c : CodeError} {m₁ m₂ : Module}
      (callable : e.ensureCallable = .ok ())
      (type : m.importType e.scope e.owner = (.ok class_, m₁))
      (member : m₁.addMember class_ e.method = (.error c, m₂)) : Imports m e (.error (.code c), m₂)
  | added {class_ t : Token} {m₁ m₂ : Module} (callable : e.ensureCallable = .ok ())
      (missing : m.findImport? e = none)
      (type : m.importType e.scope e.owner = (.ok class_, m₁))
      (member : m₁.addMember class_ e.method = (.ok t, m₂)) : Imports m e (.ok t, m₂)

/-- **What `import_` does**, step by step. -/
theorem imports_import_ (m : Module) (e : ExternalMethod) : m.Imports e (m.import_ e) := by
  unfold import_
  split
  · rename_i hcallable
    exact .uncallable hcallable
  · rename_i hcallable
    split
    · rename_i hfound
      exact .found hcallable hfound
    · rename_i hnone
      split
      · rename_i htype
        exact .typeless hcallable htype
      · rename_i htype
        split
        · rename_i hmember
          exact .memberless hcallable htype hmember
        · rename_i hmember
          exact .added hcallable hnone htype hmember

section Imported

variable {m m' : Module} {e : ExternalMethod} {t : Token}

/-- What an import that succeeds does: nothing, or it adds a row for the member, and one for the type if
need be. -/
theorem import_cases (h : m.import_ e = (.ok t, m')) :
    (m' = m ∧ m.findImport? e = some t) ∨
      (m.findImport? e = none ∧ ∃ class_ m₁, m.importType e.scope e.owner = (.ok class_, m₁) ∧
        m₁.addMember class_ e.method = (.ok t, m')) := by
  have himports := m.imports_import_ e
  rw [h] at himports
  cases himports with
  | found _ hfound => exact Or.inl ⟨rfl, hfound⟩
  | added _ hnone htype hmember => exact Or.inr ⟨hnone, _, _, htype, hmember⟩

theorem extends_import_ (h : m.import_ e = (.ok t, m')) : m.Extends m' := by
  obtain ⟨rfl, -⟩ | ⟨-, class_, m₁, htype, hmember⟩ := import_cases h
  · exact Extends.refl _
  · exact (extends_importType htype).trans (extends_addMember hmember)

/-- The module that an import leaves, whether or not it succeeds: it is as before, or has a row for
the member where there was room for one, and one for the type if need be. -/
theorem snd_import_cases (m : Module) (e : ExternalMethod) :
    (m.import_ e).2 = m ∨ ∃ class_ m₁, m.importType e.scope e.owner = (.ok class_, m₁) ∧
      (m.import_ e).2 = (m₁.addMember class_ e.method).2 := by
  have himports := m.imports_import_ e
  generalize m.import_ e = done at himports
  cases himports with
  | uncallable | found => exact Or.inl rfl
  | typeless _ htype => exact Or.inl (importType_error htype)
  | memberless _ htype hmember | added _ _ htype hmember =>
    exact Or.inr ⟨_, _, htype, by rw [hmember]⟩

/-- The references of a module resolve after an import, also after one that failed. -/
theorem refsResolve_snd_import_ (hrefs : m.RefsResolve) (e : ExternalMethod) :
    (m.import_ e).2.RefsResolve := by
  obtain hsame | ⟨class_, m₁, htype, hsame⟩ := m.snd_import_cases e <;> rw [hsame]
  · exact hrefs
  · exact refsResolve_addMember (refsResolve_importType hrefs htype)
      (exists_of_findTypeRef? (findTypeRef?_importType htype)) e.method

theorem refsResolve_import_ (hrefs : m.RefsResolve) (h : m.import_ e = (.ok t, m')) :
    m'.RefsResolve := by
  have hresolve := refsResolve_snd_import_ hrefs e
  rwa [h] at hresolve

/-- **The token that an import gives is the one that is found afterwards.** -/
theorem findImport?_of_import_ (hrefs : m.RefsResolve) (h : m.import_ e = (.ok t, m')) :
    m'.findImport? e = some t := by
  obtain ⟨rfl, hfound⟩ | ⟨hnone, class_, m₁, htype, hmember⟩ := import_cases h
  · exact hfound
  · have hclass := findTypeRef?_importType htype
    have hmissing : m₁.findMemberRef? class_ e.method = none := by
      obtain ⟨rfl, hfound⟩ | ⟨hfresh, -, -⟩ := importType_cases htype
      · rw [findImport?, hfound] at hnone
        exact hnone
      · exact findMemberRef?_importType hrefs htype hfresh
    rw [findImport?, findTypeRef?_of_extends (extends_addMember hmember) hclass, Option.bind_some,
      addMember_eq_ok hmember]
    rw [findMemberRef?, Option.map_eq_none_iff] at hmissing
    simp [findMemberRef?, List.find?_append, hmissing]

end Imported

end Module

end CilGraft
