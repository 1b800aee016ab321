import CilGraft.Build.Request
import CilGraft.Disk.Access
import CilGraft.Metadata.Assembly

/-!
# Stores and the world of a run

Assemblies are read and written by a store, which is not part of this library. A run changes a
world: a disk, the state of the store, and the journal of what the store and the compiler were
asked for.

* `ModuleStore` — a store with states of the type `σ`.
* `World.load`, `World.write` — a request to the store, entered in the journal.
* `Event` — an entry of the journal.
-/

set_option autoImplicit false

namespace CilGraft

/-- How an assembly is opened. -/
structure LoadOptions where
  /-- it will be changed and written back -/
  writable : Bool
  /-- the folders in which other assemblies are looked for -/
  searchFolders : List Path
  deriving DecidableEq, Repr

namespace LoadOptions

/-- An assembly that is only looked at. -/
def readOnly : LoadOptions := ⟨false, []⟩

/-- An assembly that is changed, with its neighbours in a folder. -/
def writableIn (folder : Path) : LoadOptions := ⟨true, [folder]⟩

end LoadOptions

/-- A store of assemblies whose states have the type `σ`. Loading leaves the disk alone. -/
structure ModuleStore (σ : Type) where
  load : σ → Disk → Path → LoadOptions → Except Error Assembly × σ
  write : σ → Disk → Assembly → Path → Except Error Unit × σ × Disk

/-- What was asked of the store or the compiler. -/
inductive Event where
  | loaded (path : Path) (options : LoadOptions)
  /-- the source that was compiled, and the request for it -/
  | compiled (source : Path) (request : Request)
  /-- an assembly that was handed over for writing, and why it was refused, if it was -/
  | written (assembly : Assembly) (path : Path) (failure : Option Error)
  deriving DecidableEq, Repr

/-- What a run changes. -/
structure World (σ : Type) where
  disk : Disk
  store : σ
  journal : List Event

namespace World

variable {σ : Type}

/-- The world with another entry in its journal. -/
def note (w : World σ) (e : Event) : World σ := { w with journal := w.journal ++ [e] }

/-- The assembly at a path. -/
def load (store : ModuleStore σ) (w : World σ) (p : Path) (o : LoadOptions) :
    Except Error Assembly × World σ :=
  let (result, state) := store.load w.store w.disk p o
  (result, { w with store := state }.note (.loaded p o))

/-- The failure of a result. -/
def failureOf : Except Error Unit → Option Error
  | .ok () => none
  | .error e => some e

/-- An assembly written to a path. -/
def write (store : ModuleStore σ) (w : World σ) (a : Assembly) (p : Path) :
    Except Error Unit × World σ :=
  let (result, state, disk) := store.write w.store w.disk a p
  (result, { w with disk, store := state }.note (.written a p (failureOf result)))

end World

end CilGraft
