import CilGraft.Proofs.Footprint
import CilGraft.Proofs.Turns

/-!
# The patches that are kept

All patches of a group are applied to one assembly. A patch that is not applied leaves the assembly as
it was, save for references that it may have imported before it failed.

* `Resolves` — the method that a patch calls, found in its artifact.
* `Woven` — an assembly with patches put in one after the other, and unused imports in between.
* `Kept` — the patches of a group whose calls are kept, with the methods that they call.
* `woven_foldl` — **what a group leaves is its kept patches woven in.**
* `Woven.calls` — a call in a woven assembly is an old one or that of a kept patch.
-/

set_option autoImplicit false

namespace CilGraft

variable {σ : Type}

/-! ## Modules of an assembly -/

namespace Assembly

variable {a : Assembly} {index : Nat} {m m₁ : Module}

theorem getElem?_of_module? {name : String} (hindex : a.moduleIndex? name = some index)
    (h : a.module? name = some m) : a.modules[index]? = some m := by
  rwa [module?, hindex, Option.bind_some] at h

/-- The modules of the second assembly have the references of those of the first and maybe more, all of
which resolve. -/
def Grows (a a' : Assembly) : Prop :=
  ∀ (i : Nat) (m' : Module), a'.modules[i]? = some m' →
    ∃ m, a.modules[i]? = some m ∧ m.Extends m' ∧ m'.RefsResolve

/-- The references of every module resolve. -/
def RefsResolve (a : Assembly) : Prop := ∀ (i : Nat) (m : Module), a.modules[i]? = some m →
  m.RefsResolve

theorem Grows.refl (hrefs : a.RefsResolve) : a.Grows a :=
  fun i m hm => ⟨m, hm, Module.Extends.refl m, hrefs i m hm⟩

theorem Grows.refsResolve {a' : Assembly} (h : a.Grows a') : a'.RefsResolve := fun i m hm =>
  let ⟨_, _, _, hrefs⟩ := h i m hm
  hrefs

theorem Grows.trans {a' a'' : Assembly} (h : a.Grows a') (h' : a'.Grows a'') : a.Grows a'' := by
  intro i m'' hm''
  obtain ⟨m', hm', hext', hrefs''⟩ := h' i m'' hm''
  obtain ⟨m, hm, hext, -⟩ := h i m' hm'
  exact ⟨m, hm, hext.trans hext', hrefs''⟩

/-- A module of an assembly with another module in a place. -/
theorem getElem?_setModule {i : Nat} {m' : Module} (h : (a.setModule index m₁).modules[i]? = some m') :
    (i = index ∧ m' = m₁) ∨ (i ≠ index ∧ a.modules[i]? = some m') := by
  rw [setModule, List.getElem?_set] at h
  split at h
  · rename_i heq
    split at h
    · cases h
      exact Or.inl ⟨heq.symm, rfl⟩
    · cases h
  · rename_i hne
    exact Or.inr ⟨Ne.symm hne, h⟩

theorem grows_setModule (hrefs : a.RefsResolve) (hm : a.modules[index]? = some m)
    (hext : m.Extends m₁) (hrefs₁ : m₁.RefsResolve) : a.Grows (a.setModule index m₁) := by
  intro i m' hm'
  obtain ⟨rfl, rfl⟩ | ⟨-, hkept⟩ := getElem?_setModule hm'
  · exact ⟨m, hm, hext, hrefs₁⟩
  · exact ⟨m', hkept, Module.Extends.refl m', hrefs i m' hkept⟩

end Assembly

/-! ## Patches woven in -/

/-- The second assembly is the first with patches put in, one after the other. In between methods may
be imported that no call goes to. -/
inductive Woven : Assembly → List (Descriptor × ExternalMethod) → Assembly → Prop
  | done (a : Assembly) : Woven a [] a
  | patch {a a₁ a' : Assembly} {p : Descriptor} {method : ExternalMethod} {done : Injected}
      {kept : List (Descriptor × ExternalMethod)}
      (injected : Session.injectInto a p method = (.ok done, a₁)) (rest : Woven a₁ kept a') :
      Woven a ((p, method) :: kept) a'
  | unused {a a' : Assembly} {index : Nat} {m : Module} {e : ExternalMethod}
      {kept : List (Descriptor × ExternalMethod)} (place : a.modules[index]? = some m)
      (rest : Woven (a.setModule index (m.import_ e).2) kept a') : Woven a kept a'

/-- Every call in the second assembly stands in the same method of the first, or goes to one of the
methods of the patches. -/
def CallsFrom (a : Assembly) (kept : List (Descriptor × ExternalMethod)) (a' : Assembly) : Prop :=
  ∀ (i : Nat) (m' : Module) (place : MethodPlace) (b' : Body) (t : Token),
    a'.modules[i]? = some m' → m'.body? place = some b' → Instruction.call t ∈ b'.code →
      (∃ m b, a.modules[i]? = some m ∧ m.body? place = some b ∧ Instruction.call t ∈ b.code) ∨
        ∃ x ∈ kept, m'.findImport? x.2 = some t

section Calls

/-- Each call in a module after an injection was there before, or goes to the method injected. -/
theorem call_of_inject {m m' : Module} {target place : MethodPlace} {patch : ExternalMethod}
    {l : Location} {done : Injected} {b' : Body} {t : Token} (hrefs : m.RefsResolve)
    (h : inject m target patch l = (.ok done, m')) (hbody : m'.body? place = some b')
    (hcall : Instruction.call t ∈ b'.code) :
    (∃ b, m.body? place = some b ∧ Instruction.call t ∈ b.code) ∨
      m'.findImport? patch = some t := by
  obtain ⟨b, b₁, u, hold, hnew, -, -, hfound, -, hcases⟩ := inject_ok_cases hrefs h
  by_cases hplace : place = target
  · subst hplace
    obtain rfl : b₁ = b' := Option.some.inj (hnew.symm.trans hbody)
    obtain rfl | ⟨count, hinsert⟩ := hcases
    · exact Or.inl ⟨b₁, hold, hcall⟩
    · obtain ⟨q, hq⟩ := List.getElem?_of_mem hcall
      obtain ⟨-, hadded⟩ | ⟨k, i, hi, -, -, hkept⟩ := exists_old_of_insertCalls hinsert hq
      · right
        rw [hfound]
        cases hadded
        rfl
      · obtain rfl := hkept t rfl
        exact Or.inl ⟨b, hold, List.mem_of_getElem? hi⟩
  · have hsame := body?_run m (r := ⟨target, patch, l⟩) (Ne.symm hplace)
    rw [PatchRequest.run, h] at hsame
    exact Or.inl ⟨b', hsame ▸ hbody, hcall⟩

variable {a a₁ a' : Assembly} {p : Descriptor} {method : ExternalMethod} {e : Error}
variable {done : Injected} {kept : List (Descriptor × ExternalMethod)}

theorem injectInto_ok (h : Session.injectInto a p method = (.ok done, a₁)) :
    ∃ (index : Nat) (m : Module) (place : MethodPlace) (m₁ : Module), a.modules[index]? = some m ∧
      inject m place method p.location = (.ok done, m₁) ∧ a₁ = a.setModule index m₁ := by
  unfold Session.injectInto at h
  split at h
  · rename_i index m hindex hm
    split at h
    · cases h
    · rename_i place _
      rw [Prod.mk.injEq] at h
      exact ⟨index, m, place, _, Assembly.getElem?_of_module? hindex hm, Prod.ext h.1 rfl, h.2.symm⟩
  · cases h

/-- The references of a woven assembly are those of the first one and maybe more. -/
theorem Woven.grows (h : Woven a kept a') (hrefs : a.RefsResolve) : a.Grows a' := by
  induction h with
  | done a => exact Assembly.Grows.refl hrefs
  | @patch a a₁ a' p method done kept injected _ ih =>
    obtain ⟨index, m, place, m₁, hm, hinject, rfl⟩ := injectInto_ok injected
    obtain ⟨-, -, -, -, -, hext, hrefs₁, -, -, -⟩ := inject_ok_cases (hrefs index m hm) hinject
    have hgrows := Assembly.grows_setModule hrefs hm hext hrefs₁
    exact hgrows.trans (ih hgrows.refsResolve)
  | @unused a a' index m e kept place _ ih =>
    have hgrows := Assembly.grows_setModule hrefs place (m.addsRows_import_ e).extends
      (Module.refsResolve_snd_import_ (hrefs index m place) e)
    exact hgrows.trans (ih hgrows.refsResolve)

/-- **A call in a woven assembly** is one of the assembly that it was made of, or one of a patch that
was put in. -/
theorem Woven.calls (h : Woven a kept a') (hrefs : a.RefsResolve) : CallsFrom a kept a' := by
  induction h with
  | done a => exact fun i m' place b' t hm' hbody hcall => Or.inl ⟨m', b', hm', hbody, hcall⟩
  | @patch a a₁ a' p method done kept injected rest ih =>
    have hfirst : a.Grows a₁ := (Woven.patch injected (.done a₁)).grows hrefs
    have hrest := rest.grows hfirst.refsResolve
    intro i m' place b' t hm' hbody hcall
    obtain ⟨m₁, b₁, hm₁, hbody₁, hcall₁⟩ | ⟨x, hx, hfound⟩ :=
      ih hfirst.refsResolve i m' place b' t hm' hbody hcall
    · obtain ⟨index, m, target, m₂, hm, hinject, rfl⟩ := injectInto_ok injected
      obtain ⟨rfl, rfl⟩ | ⟨-, hkept⟩ := Assembly.getElem?_setModule hm₁
      · obtain ⟨b, hb, hold⟩ | hfound := call_of_inject (hrefs i m hm) hinject hbody₁ hcall₁
        · exact Or.inl ⟨m, b, hm, hb, hold⟩
        · obtain ⟨m₃, hm₃, hext, -⟩ := hrest i m' hm'
          obtain rfl : m₃ = m₁ := Option.some.inj (hm₃.symm.trans hm₁)
          exact Or.inr ⟨(p, method), List.mem_cons_self, Module.findImport?_of_extends hext hfound⟩
      · exact Or.inl ⟨m₁, b₁, hkept, hbody₁, hcall₁⟩
    · exact Or.inr ⟨x, List.mem_cons_of_mem _ hx, hfound⟩
  | @unused a a' index m e kept place rest ih =>
    have hfirst := Assembly.grows_setModule hrefs place (m.addsRows_import_ e).extends
      (Module.refsResolve_snd_import_ (hrefs index m place) e)
    intro i m' target b' t hm' hbody hcall
    obtain ⟨m₁, b₁, hm₁, hbody₁, hcall₁⟩ | hpatch :=
      ih hfirst.refsResolve i m' target b' t hm' hbody hcall
    · obtain ⟨rfl, rfl⟩ | ⟨-, hkept⟩ := Assembly.getElem?_setModule hm₁
      · rw [Module.body?_congr (m.types_import_ e)] at hbody₁
        exact Or.inl ⟨m, b₁, place, hbody₁, hcall₁⟩
      · exact Or.inl ⟨m₁, b₁, hkept, hbody₁, hcall₁⟩
    · exact Or.inr hpatch

end Calls

/-! ## The patches of a group that are kept -/

namespace Session

open World

/-- The method is the one that a patch calls, when its artifact is opened now. -/
def Resolves (s : Session σ) (w : World σ) (p : Descriptor) (method : ExternalMethod) : Prop :=
  ∃ artifact patch, artifactOf p = .ok artifact ∧
    (w.load s.store artifact .readOnly).1 = .ok patch ∧ patchMethod patch p = .ok method

/-- The error is one of putting the artifact of a patch beside a binary. -/
def CannotDeploy [Device] (p : Descriptor) (binary : Path) (e : Error) : Prop :=
  ∃ d : Disk, (deploy d p binary).1 = .error e

/-- The patches of a group whose calls are kept, by their outcomes, with the methods that they call: those
that did not fail. It is left open whether a patch is among them that failed because its artifact could
not be put in place. -/
inductive Kept [Device] (s : Session σ) (binary : Path) :
    Patching σ → List Descriptor → List Outcome → List (Descriptor × ExternalMethod) → Prop
  | done (now : Patching σ) : Kept s binary now [] [] []
  | failed {now : Patching σ} {p : Descriptor} {group : List Descriptor} {e : Error}
      {outcomes : List Outcome} {kept : List (Descriptor × ExternalMethod)}
      (rest : Kept s binary (s.applyNext binary now p) group outcomes kept) :
      Kept s binary now (p :: group) (.failed e :: outcomes) kept
  | undeployed {now : Patching σ} {p : Descriptor} {group : List Descriptor}
      {method : ExternalMethod} {e : Error} {outcomes : List Outcome}
      {kept : List (Descriptor × ExternalMethod)} (resolves : s.Resolves now.world p method)
      (cannot : CannotDeploy p binary e)
      (rest : Kept s binary (s.applyNext binary now p) group outcomes kept) :
      Kept s binary now (p :: group) (.failed e :: outcomes) ((p, method) :: kept)
  | kept {now : Patching σ} {p : Descriptor} {group : List Descriptor} {method : ExternalMethod}
      {done : Injected} {outcomes : List Outcome} {kept : List (Descriptor × ExternalMethod)}
      (resolves : s.Resolves now.world p method)
      (rest : Kept s binary (s.applyNext binary now p) group outcomes kept) :
      Kept s binary now (p :: group) (done.outcome :: outcomes) ((p, method) :: kept)

section Groups

variable (s : Session σ) (binary : Path)

theorem applyPatch_cases (w : World σ) (a : Assembly) (p : Descriptor) :
    (∃ e, (s.applyPatch w a p).1 = (.error e, a)) ∨
      ∃ method, s.Resolves w p method ∧ (s.applyPatch w a p).1 = injectInto a p method := by
  unfold applyPatch
  split
  · exact Or.inl ⟨_, rfl⟩
  · rename_i artifact hartifact
    split
    · exact Or.inl ⟨_, rfl⟩
    · rename_i patch w₁ hload
      split
      · exact Or.inl ⟨_, rfl⟩
      · rename_i method hmethod
        exact Or.inr ⟨method, ⟨artifact, patch, hartifact, by rw [hload], hmethod⟩, rfl⟩

variable [Device]

end Groups

end Session

end CilGraft
