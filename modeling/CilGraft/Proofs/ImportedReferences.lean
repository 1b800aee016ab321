import CilGraft.Proofs.Footprint
import Mathlib.Data.List.Nodup

/-!
# References as a dictionary

The two tables of references give a token to every method that is imported.  As long as the tokens
of each table are pairwise distinct, a row is as good as its token, and the token of a method stands
for what the method is looked up by: its assembly, the names of its type, its name and its signature.

* `DistinctIn` — tokens that are pairwise distinct and of one table; a free token is one more of
  them: `DistinctIn.concat`.
* `Module.RefsKeyed` — both tables have such tokens, and references to members resolve;
  `refsKeyed_import_` — one import keeps this, also one that fails, and `refsKeyed_importEach` —
  **so does a sequence of imports**.
* `Module.HasRoomFor` — the rows that an import has to add can be added; `exists_import_iff` — it
  succeeds exactly when there is room and the method can be called.
* `ExternalMethod.SameReference` — methods that are looked up by the same;
  `sameReference_of_findImport?` — they are the only ones that have a token in common.
* `tokens_of_imports` — **imports of any methods, in any order, some of which fail: the tokens are
  found again for good, and two of them are equal exactly when the methods are looked up by the
  same.**
-/

set_option autoImplicit false

namespace CilGraft

/-! ## Tokens of one table -/

/-- The tokens are pairwise distinct and of one table. -/
structure DistinctIn (table : Table) (ts : List Token) : Prop where
  nodup : ts.Nodup
  table : ∀ t ∈ ts, t.table = table.id

/-- A free token is distinct from all that are in use. -/
theorem DistinctIn.concat {table : Table} {ts : List Token} {t : Token} (h : DistinctIn table ts)
    (hfree : freeToken table ts = .ok t) : DistinctIn table (ts ++ [t]) := by
  obtain ⟨htable, hunused⟩ := table_of_freeToken hfree
  constructor
  · rw [← List.concat_eq_append]
    exact h.nodup.concat hunused
  · intro t' ht'
    obtain hold | hnew := List.mem_append.1 ht'
    · exact h.table t' hold
    · rw [List.mem_singleton.1 hnew, htable]

/-- A row is as good as its token. -/
theorem DistinctIn.row_inj {α : Type} {table : Table} {token : α → Token} {rows : List α} {r r' : α}
    (h : DistinctIn table (rows.map token)) (hr : r ∈ rows) (hr' : r' ∈ rows)
    (htoken : token r = token r') : r = r' :=
  List.inj_on_of_nodup_map h.nodup hr hr' htoken

/-- None of the tokens has the last row. -/
def HasFreeRow (ts : List Token) : Prop := ∀ t ∈ ts, t.row < Token.maxRow

theorem exists_freeToken_iff (table : Table) {used : List Token} :
    (∃ t, freeToken table used = .ok t) ↔ HasFreeRow used := by
  have hmax : (used.map Token.row).foldl max 0 < Token.maxRow ↔ HasFreeRow used := by
    rw [foldl_max_lt_iff, List.forall_mem_map]
    exact and_iff_right (by decide)
  rw [← hmax]
  simp only [freeToken]
  split
  · rename_i hfull
    refine ⟨?_, fun hlt => absurd hlt (by omega)⟩
    rintro ⟨t, h⟩
    cases h
  · rename_i hroom
    exact ⟨fun _ => by omega, fun _ => ⟨_, rfl⟩⟩

namespace Module

/-! ## Keyed tables -/

/-- The tokens of each table of references are pairwise distinct and of that table, and every
reference to a member of a referenced type has a row for the type. -/
structure RefsKeyed (m : Module) : Prop where
  typeRefs : DistinctIn .typeRef (m.typeRefs.map (·.token))
  memberRefs : DistinctIn .memberRef (m.memberRefs.map (·.token))
  resolve : m.RefsResolve

section Step

variable {m m₁ : Module}

theorem refsKeyed_importType {scope : String} {owner : TypeDef} {class_ : Token} (hm : m.RefsKeyed)
    (h : m.importType scope owner = (.ok class_, m₁)) : m₁.RefsKeyed := by
  have hresolve := refsResolve_importType hm.resolve h
  obtain ⟨rfl, -⟩ | ⟨-, hfree, rfl⟩ := importType_cases h
  · exact hm
  · refine ⟨?_, hm.memberRefs, hresolve⟩
    rw [List.map_append]
    exact hm.typeRefs.concat hfree

theorem refsKeyed_addMember {class_ : Token} (hm : m.RefsKeyed)
    (hrow : ∃ s ∈ m.typeRefs, s.token = class_) (f : Method) :
    (m.addMember class_ f).2.RefsKeyed := by
  have hresolve := refsResolve_addMember hm.resolve hrow f
  unfold addMember at hresolve ⊢
  split
  · exact hm
  · rename_i t hfree
    rw [hfree] at hresolve
    refine ⟨hm.typeRefs, ?_, hresolve⟩
    rw [List.map_append]
    exact hm.memberRefs.concat hfree

/-- One import keeps the tables keyed, whether or not it succeeds. -/
theorem refsKeyed_import_ (hm : m.RefsKeyed) {e : ExternalMethod} {result : Except Error Token}
    (h : m.import_ e = (result, m₁)) : m₁.RefsKeyed := by
  have hm₁ : m₁ = (m.import_ e).2 := by rw [h]
  rw [hm₁]
  obtain hsame | ⟨class_, m₂, htype, hsame⟩ := m.snd_import_cases e <;> rw [hsame]
  · exact hm
  · exact refsKeyed_addMember (refsKeyed_importType hm htype)
      (exists_of_findTypeRef? (findTypeRef?_importType htype)) e.method

end Step

/-! ## Room for an import -/

/-- The module refers to the method already, or both rows that it takes are there or can be added. -/
def HasRoomFor (m : Module) (e : ExternalMethod) : Prop :=
  (∃ t, m.findImport? e = some t) ∨
    HasFreeRow (m.memberRefs.map (·.token)) ∧
      ((∃ class_, m.findTypeRef? e.scope e.owner = some class_) ∨
        HasFreeRow (m.typeRefs.map (·.token)))

section Room

variable {m : Module}

theorem exists_importType_iff {scope : String} {owner : TypeDef} :
    (∃ class_ m₁, m.importType scope owner = (.ok class_, m₁)) ↔
      (∃ class_, m.findTypeRef? scope owner = some class_) ∨
        HasFreeRow (m.typeRefs.map (·.token)) := by
  rw [← exists_freeToken_iff .typeRef]
  constructor
  · rintro ⟨class_, m₁, h⟩
    obtain ⟨-, hfound⟩ | ⟨-, hfree, -⟩ := importType_cases h
    · exact Or.inl ⟨class_, hfound⟩
    · exact Or.inr ⟨class_, hfree⟩
  · intro h
    unfold importType
    split
    · exact ⟨_, _, rfl⟩
    · rename_i hnone
      obtain ⟨class_, hfound⟩ | ⟨class_, hfree⟩ := h
      · rw [hfound] at hnone
        cases hnone
      · rw [hfree]
        exact ⟨_, _, rfl⟩

theorem exists_addMember_iff {class_ : Token} {f : Method} :
    (∃ t m₁, m.addMember class_ f = (.ok t, m₁)) ↔ HasFreeRow (m.memberRefs.map (·.token)) := by
  rw [← exists_freeToken_iff .memberRef]
  unfold addMember
  constructor
  · rintro ⟨t, m₁, h⟩
    split at h
    · cases h
    · rename_i t' hfree
      exact ⟨t', hfree⟩
  · rintro ⟨t, hfree⟩
    rw [hfree]
    exact ⟨_, _, rfl⟩

theorem ensureCallable_of_import_ {m₁ : Module} {e : ExternalMethod} {t : Token}
    (h : m.import_ e = (.ok t, m₁)) : e.ensureCallable = .ok () := by
  have himports := m.imports_import_ e
  rw [h] at himports
  cases himports <;> assumption

/-- **An import succeeds exactly when there is room for it** and the method can be called. -/
theorem exists_import_iff {e : ExternalMethod} :
    (∃ t m₁, m.import_ e = (.ok t, m₁)) ↔ e.ensureCallable = .ok () ∧ m.HasRoomFor e := by
  constructor
  · rintro ⟨t, m₁, h⟩
    refine ⟨ensureCallable_of_import_ h, ?_⟩
    obtain ⟨-, hfound⟩ | ⟨-, class_, m₂, htype, hmember⟩ := import_cases h
    · exact Or.inl ⟨t, hfound⟩
    · have hkept := (m.addsRows_importType e.scope e.owner).2
      rw [htype] at hkept
      have hfree := exists_addMember_iff.1 ⟨t, m₁, hmember⟩
      rw [hkept] at hfree
      exact Or.inr ⟨hfree, exists_importType_iff.1 ⟨class_, m₂, htype⟩⟩
  · rintro ⟨hcallable, hroom⟩
    unfold import_
    rw [hcallable]
    dsimp only
    split
    · exact ⟨_, _, rfl⟩
    · rename_i hnone
      obtain ⟨t, hfound⟩ | ⟨hfree, htype⟩ := hroom
      · rw [hfound] at hnone
        cases hnone
      · obtain ⟨class_, m₂, htype⟩ := exists_importType_iff.2 htype
        have hkept := (m.addsRows_importType e.scope e.owner).2
        rw [htype] at hkept
        rw [← hkept] at hfree
        obtain ⟨t, m₁, hmember⟩ := exists_addMember_iff.2 hfree
        rw [htype]
        dsimp only
        rw [hmember]
        exact ⟨_, _, rfl⟩

end Room

/-! ## Sequences of imports -/

/-- The module after imports, one after the other, whether or not they succeed. -/
def importEach (m : Module) (es : List ExternalMethod) : Module :=
  es.foldl (fun m e => (m.import_ e).2) m

/-- **A sequence of imports keeps the tables keyed.** -/
theorem refsKeyed_importEach {m : Module} (hm : m.RefsKeyed) (es : List ExternalMethod) :
    (m.importEach es).RefsKeyed := by
  induction es generalizing m with
  | nil => exact hm
  | cons e es ih => exact ih (refsKeyed_import_ hm rfl)

/-- A sequence of imports changes and removes no row. -/
theorem extends_importEach (m : Module) (es : List ExternalMethod) : m.Extends (m.importEach es) := by
  induction es generalizing m with
  | nil => exact Extends.refl m
  | cons e es ih => exact (m.addsRows_import_ e).extends.trans (ih _)

end Module

/-! ## What a token stands for -/

/-- The methods agree in everything that a reference says about them. -/
structure ExternalMethod.SameReference (e e' : ExternalMethod) : Prop where
  scope : e.scope = e'.scope
  namespace_ : e.owner.namespace_ = e'.owner.namespace_
  typeName : e.owner.name = e'.owner.name
  methodName : e.method.name = e'.method.name
  signature : e.method.signature = e'.method.signature

namespace Module

section Lookup

variable {m : Module} {e e' : ExternalMethod} {class_ class' t : Token}

/-- The row behind the token of a type. -/
theorem row_of_findTypeRef? {scope : String} {owner : TypeDef}
    (h : m.findTypeRef? scope owner = some t) :
    ⟨t, scope, owner.namespace_, owner.name⟩ ∈ m.typeRefs := by
  obtain ⟨⟨token, s, n, c⟩, hr, rfl⟩ := Option.map_eq_some_iff.1 h
  have hmatch := List.find?_some hr
  simp only [Bool.and_eq_true, beq_iff_eq] at hmatch
  obtain ⟨⟨rfl, rfl⟩, rfl⟩ := hmatch
  exact List.mem_of_find?_eq_some hr

/-- The row behind the token of a member. -/
theorem row_of_findMemberRef? {f : Method} (h : m.findMemberRef? class_ f = some t) :
    ⟨t, class_, f.name, f.signature⟩ ∈ m.memberRefs := by
  obtain ⟨⟨token, c, n, s⟩, hr, rfl⟩ := Option.map_eq_some_iff.1 h
  have hmatch := List.find?_some hr
  simp only [Bool.and_eq_true, beq_iff_eq] at hmatch
  obtain ⟨⟨rfl, rfl⟩, rfl⟩ := hmatch
  exact List.mem_of_find?_eq_some hr

/-- A method is looked up by what a reference says about it, and by nothing else. -/
theorem findImport?_congr (h : e.SameReference e') : m.findImport? e = m.findImport? e' := by
  obtain ⟨hscope, hnamespace, htype, hmethod, hsignature⟩ := h
  simp only [findImport?, findTypeRef?, findMemberRef?, hscope, hnamespace, htype, hmethod,
    hsignature]

/-- Methods that are found under one token agree in what a reference says about them. -/
theorem sameReference_of_findImport? (hm : m.RefsKeyed) (h : m.findImport? e = some t)
    (h' : m.findImport? e' = some t) : e.SameReference e' := by
  obtain ⟨class_, hclass, hmember⟩ := Option.bind_eq_some_iff.1 h
  obtain ⟨class', hclass', hmember'⟩ := Option.bind_eq_some_iff.1 h'
  have hrow := hm.memberRefs.row_inj (row_of_findMemberRef? hmember)
    (row_of_findMemberRef? hmember') rfl
  obtain ⟨-, hsame, hmethod, hsignature⟩ := MemberRef.mk.inj hrow
  have htypeRow := hm.typeRefs.row_inj (row_of_findTypeRef? hclass) (row_of_findTypeRef? hclass')
    hsame
  obtain ⟨-, hscope, hnamespace, htype⟩ := TypeRef.mk.inj htypeRow
  exact ⟨hscope, hnamespace, htype, hmethod, hsignature⟩

end Lookup

/-- **The tables of references are an injective dictionary that only grows.**  Start from any module
with keyed tables and import methods in any order, some of which may fail.  The tables stay keyed,
and no row is changed or removed.  An import succeeds as long as the method can be called and there
is room for its rows.  The token that it gives is found for its method from then on, and of two
imports that succeed the later one gives the same token exactly when its method agrees in the
assembly, the names of the type, the name and the signature. -/
theorem tokens_of_imports {m : Module} (hm : m.RefsKeyed) (before : List ExternalMethod) :
    (m.importEach before).RefsKeyed ∧ m.Extends (m.importEach before) ∧
      (∀ e, (∃ t m₁, (m.importEach before).import_ e = (.ok t, m₁)) ↔
        e.ensureCallable = .ok () ∧ (m.importEach before).HasRoomFor e) ∧
      ∀ e t m₁, (m.importEach before).import_ e = (.ok t, m₁) → ∀ later,
        (m.importEach before).Extends (m₁.importEach later) ∧
        (m₁.importEach later).findImport? e = some t ∧
        ∀ e' t' m₂, (m₁.importEach later).import_ e' = (.ok t', m₂) →
          (t = t' ↔ e.SameReference e') := by
  have hm₀ := refsKeyed_importEach hm before
  refine ⟨hm₀, extends_importEach m before, fun _ => exists_import_iff,
    fun e t m₁ himport later => ?_⟩
  have hfound : (m₁.importEach later).findImport? e = some t :=
    findImport?_of_extends (extends_importEach m₁ later) (findImport?_of_import_ hm₀.resolve himport)
  refine ⟨(extends_import_ himport).trans (extends_importEach m₁ later), hfound,
    fun e' t' m₂ himport' => ?_⟩
  have hlater := refsKeyed_importEach (refsKeyed_import_ hm₀ himport) later
  have hfound' : m₂.findImport? e' = some t' := findImport?_of_import_ hlater.resolve himport'
  have hkept : m₂.findImport? e = some t := findImport?_of_extends (extends_import_ himport') hfound
  constructor
  · rintro rfl
    exact sameReference_of_findImport? (refsKeyed_import_ hlater himport') hkept hfound'
  · intro hsame
    rw [findImport?_congr hsame, hfound'] at hkept
    exact (Option.some.inj hkept).symm

/-- Methods of the same type and name in two assemblies, in a module with a row of each kind. -/
theorem tokens_of_imports_two_scopes :
    let m : Module :=
      ⟨"Game.dll", [], [⟨⟨0x01000007⟩, "mscorlib", "System", "Object"⟩],
        [⟨⟨0x0A000003⟩, ⟨0x01000007⟩, ".ctor", [0x20, 0, 1]⟩]⟩
    let method (scope : String) : ExternalMethod :=
      ⟨scope, ⟨⟨0x02000002⟩, "", "P", 1, []⟩, ⟨⟨0x06000001⟩, "M", 0x96, [0, 0, 1], none⟩⟩
    ∃ m₁ m₂, m.RefsKeyed ∧ m.import_ (method "A") = (.ok ⟨0x0A000004⟩, m₁) ∧
      m₁.import_ (method "B") = (.ok ⟨0x0A000005⟩, m₂) ∧
      m₁.findImport? (method "A") = some ⟨0x0A000004⟩ ∧
      ((⟨0x0A000004⟩ : Token) = ⟨0x0A000005⟩ ↔ (method "A").SameReference (method "B")) := by
  intro m method
  have hm : m.RefsKeyed := by
    refine ⟨⟨by decide, by decide⟩, ⟨by decide, by decide⟩, ?_⟩
    intro r hr _
    obtain rfl := List.mem_singleton.1 hr
    exact ⟨_, List.mem_singleton_self _, rfl⟩
  have hfirst : m.import_ (method "A") = (.ok ⟨0x0A000004⟩, (m.import_ (method "A")).2) := by
    simp only [m, method]
    rfl
  have hsecond : (m.import_ (method "A")).2.import_ (method "B") =
      (.ok ⟨0x0A000005⟩, ((m.import_ (method "A")).2.import_ (method "B")).2) := by
    simp only [m, method]
    rfl
  obtain ⟨-, hfound, hsame⟩ := (tokens_of_imports hm []).2.2.2 _ _ _ hfirst []
  exact ⟨_, _, hm, hfirst, hsecond, hfound, hsame _ _ _ hsecond⟩

end Module

end CilGraft
