import CilGraft.Patch.Descriptor

/-!
# Reports

What a run did, patch by patch and binary by binary.

* `Report` — the outcomes of all patches, the sources that could not be used, the binaries that were
  written and those that were not.
* `Report.isCompleteSuccess` — nothing failed.
-/

set_option autoImplicit false

namespace CilGraft

/-- What became of a patch. -/
inductive Outcome where
  | injected (count : Nat)
  | alreadyPresent
  | failed (e : Error)
  deriving DecidableEq, Repr

/-- The outcome of an injection that succeeded. -/
def Injected.outcome : Injected → Outcome
  | .inserted count => .injected count
  | .alreadyPresent => .alreadyPresent

/-- A patch that was applied to a binary. -/
structure PatchRecord where
  name : String
  source : Path
  /-- the file name of the binary -/
  assembly : String
  outcome : Outcome
  deriving DecidableEq, Repr

/-- The record of a descriptor. -/
def Descriptor.record (p : Descriptor) (o : Outcome) : PatchRecord :=
  { name := p.name, source := p.source, assembly := p.assembly, outcome := o }

/-- A file with which nothing could be done, and why. -/
structure Failure where
  path : Path
  reason : Error
  deriving DecidableEq, Repr

/-- What a run did. -/
structure Report where
  /-- the patches in the order in which they were applied -/
  patches : List PatchRecord := []
  /-- the sources that gave no artifact -/
  sourceFailures : List Failure := []
  /-- the binaries that were written -/
  written : List Path := []
  /-- the binaries that could not be opened or must not be written -/
  rejected : List Failure := []
  deriving DecidableEq, Repr

namespace Outcome

/-- Calls were inserted. -/
def isInjected : Outcome → Bool
  | .injected _ => true
  | _ => false

/-- The calls were there already. -/
def isAlreadyPresent : Outcome → Bool
  | .alreadyPresent => true
  | _ => false

/-- The patch was not applied. -/
def isFailed : Outcome → Bool
  | .failed _ => true
  | _ => false

end Outcome

namespace Report

/-- What two parts of a run did. -/
def append (a b : Report) : Report :=
  { patches := a.patches ++ b.patches
    sourceFailures := a.sourceFailures ++ b.sourceFailures
    written := a.written ++ b.written
    rejected := a.rejected ++ b.rejected }

instance : Append Report := ⟨append⟩

/-- The number of patches with an outcome of a kind. -/
def count (r : Report) (kind : Outcome → Bool) : Nat := r.patches.countP (kind ·.outcome)

/-- Every source was compiled, every patch applied and no binary rejected. -/
def isCompleteSuccess (r : Report) : Bool :=
  r.sourceFailures.isEmpty && r.rejected.isEmpty && r.count Outcome.isFailed == 0

end Report

end CilGraft
