import CilGraft.Injection
import CilGraft.Proofs.References

/-!
# The steps of an injection

An injection looks up the body of a method, imports the patch, inserts the calls and puts the new
body in place. Every step may fail.

* `Module.body?` — the body of a method; `method?_setBody`, `body?_setBody` — the method whose body is
  replaced; `body?_setBody_of_ne`, `types_import_` — the others stay, and all of them when a method is
  imported.
* `patchableBody_eq_ok_iff` — the bodies that can be patched.
* `Injects` — how an injection ends, from its first check to the calls that it inserts;
  `injects_inject`.
* `inject_cases` — what an injection that inserts something has done.
* `inject_alreadyPresent_iff` — an injection that finds the call in place has done nothing.
* `types_inject` — an injection that inserts nothing leaves the bodies as they are.
-/

set_option autoImplicit false

namespace CilGraft

/-! ## Bodies of methods -/

namespace Module

/-- The body of the method at a place. -/
def body? (m : Module) (p : MethodPlace) : Option Body := (m.method? p).bind Method.body

/-- The method whose body is replaced is the same otherwise. -/
theorem method?_setBody {m : Module} {p : MethodPlace} {f : Method} (body : Option Body)
    (h : m.method? p = some f) : (m.setBody p body).method? p = some { f with body } := by
  obtain ⟨t, ht, hf⟩ := Option.bind_eq_some_iff.1 h
  have htypes : m.types[p.type]? = some t := ht
  simp only [method?, owner?, setBody, List.getElem?_modify, if_true, htypes, Option.map_eq_map,
    Option.map_some, Option.bind_some, hf]

/-- The other methods stay. -/
theorem method?_setBody_of_ne {m : Module} {p q : MethodPlace} (body : Option Body) (h : q ≠ p) :
    (m.setBody p body).method? q = m.method? q := by
  simp only [method?, owner?, setBody, List.getElem?_modify]
  by_cases htype : p.type = q.type
  · have hmethod : p.method ≠ q.method := by
      intro hmethod
      obtain ⟨i, j⟩ := p
      obtain ⟨i', j'⟩ := q
      exact h (by rw [MethodPlace.mk.injEq]; exact ⟨htype.symm, hmethod.symm⟩)
    cases m.types[q.type]? with
    | none => rfl
    | some t => simp [htype, hmethod]
  · simp [htype]

theorem body?_setBody {m : Module} {p : MethodPlace} {b : Body} (b' : Body)
    (h : m.body? p = some b) : (m.setBody p (some b')).body? p = some b' := by
  obtain ⟨f, hf, -⟩ := Option.bind_eq_some_iff.1 h
  rw [body?, method?_setBody _ hf, Option.bind_some]

/-- The bodies of the other methods stay. -/
theorem body?_setBody_of_ne {m : Module} {p q : MethodPlace} (body : Option Body) (h : q ≠ p) :
    (m.setBody p body).body? q = m.body? q := by
  rw [body?, method?_setBody_of_ne body h, body?]

theorem types_importType (m : Module) (scope : String) (owner : TypeDef) :
    (m.importType scope owner).2.types = m.types := by
  unfold importType
  split
  · rfl
  · split <;> rfl

theorem types_addMember (m : Module) (class_ : Token) (f : Method) :
    (m.addMember class_ f).2.types = m.types := by
  unfold addMember
  split <;> rfl

/-- A reference leaves the types of the module as they are. -/
theorem types_import_ (m : Module) (e : ExternalMethod) : (m.import_ e).2.types = m.types := by
  have htypes := m.types_importType e.scope e.owner
  obtain hsame | ⟨class_, m₁, htype, hsame⟩ := m.snd_import_cases e <;> rw [hsame]
  rw [htype] at htypes
  exact (m₁.types_addMember class_ e.method).trans htypes

theorem body?_congr {m m' : Module} (h : m'.types = m.types) (p : MethodPlace) :
    m'.body? p = m.body? p := by
  simp only [body?, method?, owner?, h]

end Module

theorem patchableBody_eq_ok_iff {m : Module} {target : MethodPlace} {b : Body} :
    patchableBody m target = .ok b ↔ m.body? target = some b ∧ b.code ≠ [] := by
  constructor
  · intro h
    unfold patchableBody at h
    split at h
    · cases h
    · rename_i f hf
      split at h
      · cases h
      · rename_i b' hb
        split at h
        · cases h
        · rename_i hempty
          cases h
          refine ⟨by rw [Module.body?, hf, Option.bind_some, hb], fun hnil => hempty ?_⟩
          rw [Body.isEmpty, hnil, List.isEmpty_nil]
  · rintro ⟨hbody, hne⟩
    obtain ⟨f, hf, hb⟩ := Option.bind_eq_some_iff.1 hbody
    have hempty : ¬ b.isEmpty = true := fun h => hne (List.isEmpty_iff.1 h)
    simp only [patchableBody, hf, hb, if_neg hempty]

/-! ## How an injection ends -/

/-- How an injection ends: the first of its steps that fails, the call that is there already, or the
calls that are inserted. -/
inductive Injects (m : Module) (target : MethodPlace) (patch : ExternalMethod) (l : Location) :
    Except Error Injected × Module → Prop
  | unfit {e : Error} (unfit : patchableBody m target = .error e) :
      Injects m target patch l (.error e, m)
  | uncallable {e : Error} (uncallable : patch.ensureCallable = .error e) :
      Injects m target patch l (.error e, m)
  | present {b : Body} (body : patchableBody m target = .ok b)
      (callable : patch.ensureCallable = .ok ()) (present : isPresent m b patch l = true) :
      Injects m target patch l (.ok .alreadyPresent, m)
  | endless {b : Body} (body : patchableBody m target = .ok b) (exits : l = .exits)
      (returns : b.returns = []) :
      Injects m target patch l
        (.error (.instructionNotFound (m.methodName target) OpCode.ret.mnemonic), m)
  | unimported {e : Error} {m₁ : Module} (callable : patch.ensureCallable = .ok ())
      (imported : m.import_ patch = (.error e, m₁)) : Injects m target patch l (.error e, m₁)
  | unmade {b : Body} {t : Token} {m₁ : Module} {c : CodeError}
      (imported : m.import_ patch = (.ok t, m₁)) (made : insertCalls b t l = .error c) :
      Injects m target patch l (.error (.code c), m₁)
  | inserted {b b' : Body} {t : Token} {m₁ : Module} {count : Nat}
      (body : patchableBody m target = .ok b) (callable : patch.ensureCallable = .ok ())
      (returns : l = .exits → b.returns ≠ []) (imported : m.import_ patch = (.ok t, m₁))
      (made : insertCalls b t l = .ok (count, b')) :
      Injects m target patch l (.ok (.inserted count), m₁.setBody target (some b'))

/-- **What `inject` does**, step by step. -/
theorem injects_inject (m : Module) (target : MethodPlace) (patch : ExternalMethod) (l : Location) :
    Injects m target patch l (inject m target patch l) := by
  unfold inject
  split
  · rename_i hbody
    exact .unfit hbody
  · rename_i b hbody
    split
    · rename_i hcallable
      exact .uncallable hcallable
    · rename_i hcallable
      split
      · rename_i hpresent
        exact .present hbody hcallable hpresent
      · split
        · rename_i hreturns
          exact .endless hbody hreturns.1 hreturns.2
        · rename_i hreturns
          split
          · rename_i himport
            exact .unimported hcallable himport
          · rename_i himport
            split
            · rename_i hmade
              exact .unmade himport hmade
            · rename_i hmade
              exact .inserted hbody hcallable (fun hl hnil => hreturns ⟨hl, hnil⟩) himport hmade

section Ends

variable {m m' : Module} {target : MethodPlace} {patch : ExternalMethod} {l : Location}

/-- What an injection that inserts something does. -/
theorem inject_cases {count : Nat} (h : inject m target patch l = (.ok (.inserted count), m')) :
    ∃ b t m₁ b', m.body? target = some b ∧ patch.ensureCallable = .ok () ∧
      (l = .exits → b.returns ≠ []) ∧ m.import_ patch = (.ok t, m₁) ∧
      insertCalls b t l = .ok (count, b') ∧ m' = m₁.setBody target (some b') := by
  have hinjects := injects_inject m target patch l
  rw [h] at hinjects
  cases hinjects with
  | inserted hbody hcallable hreturns himport hmade =>
    exact ⟨_, _, _, _, (patchableBody_eq_ok_iff.1 hbody).1, hcallable, hreturns, himport, hmade, rfl⟩

/-- An injection that finds the call in place changes nothing. -/
theorem inject_alreadyPresent_iff :
    inject m target patch l = (.ok .alreadyPresent, m') ↔
      m' = m ∧ patch.ensureCallable = .ok () ∧
        ∃ b, m.body? target = some b ∧ b.code ≠ [] ∧ isPresent m b patch l = true := by
  constructor
  · intro h
    have hinjects := injects_inject m target patch l
    rw [h] at hinjects
    cases hinjects with
    | @present b hbody hcallable hpresent =>
      obtain ⟨hfound, hne⟩ := patchableBody_eq_ok_iff.1 hbody
      exact ⟨rfl, hcallable, b, hfound, hne, hpresent⟩
  · rintro ⟨rfl, hcallable, b, hbody, hne, hpresent⟩
    have hb := patchableBody_eq_ok_iff.2 ⟨hbody, hne⟩
    simp only [inject, hb, hcallable, hpresent, if_true]

/-- An injection that inserts nothing leaves the types of the module as they are: it may have added
references before it failed. -/
theorem types_inject {result : Except Error Injected} (h : inject m target patch l = (result, m'))
    (hresult : ∀ count, result ≠ .ok (.inserted count)) : m'.types = m.types := by
  have hinjects := injects_inject m target patch l
  have htypes := m.types_import_ patch
  rw [h] at hinjects
  cases hinjects with
  | unfit | uncallable | present | endless => rfl
  | unimported _ himport =>
    rw [himport] at htypes
    exact htypes
  | unmade himport _ =>
    rw [himport] at htypes
    exact htypes
  | inserted => exact absurd rfl (hresult _)

end Ends

end CilGraft
