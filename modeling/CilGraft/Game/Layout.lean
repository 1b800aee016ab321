import CilGraft.Build.References
import CilGraft.Disk.Device
import CilGraft.Error
import CilGraft.Game.Settings
import CilGraft.Text.Casing

/-!
# The layout of a game folder

A game folder holds the program of the game, a data folder with the binaries that can be patched,
and the folders that patching uses.

* `Layout.discover` — the layout of a folder.
* `Layout.ensureFolders` — the folders that patching uses, created where they are missing.
* `Layout.sources` — the patch sources, in the order of their names.
-/

set_option autoImplicit false

namespace CilGraft

/-- The paths of one game. -/
structure Layout where
  root : Path
  /-- the name of the game, which is that of its program -/
  name : String
  /-- the folder of the binaries -/
  managed : Path
  /-- the binary that is patched first -/
  primary : Path
  patches : Path
  library : Path
  compiled : Path
  sourceExtension : String
  deriving DecidableEq, Repr

namespace Layout

/-! ## Finding the parts -/

/-- The paths in a folder, in the order of their names. -/
def entries (d : Disk) (folder : Path) : Except Error (List Path) :=
  match d.list folder with
  | .error e => .error (.onDisk folder e)
  | .ok names => .ok (names.map folder.child)

/-- The file name of a path in lower case. -/
def lowerName (p : Path) : List Char := Text.lower (p.fileName?.getD "").toList

/-- The path is a program of the game: no program of the engine, whose names have `unity` in them. -/
def isGameProgram (d : Disk) (p : Path) : Bool :=
  d.isFile p && References.hasExtension p "exe" && !Text.hasPiece "unity".toList (lowerName p)

/-- The path is a data folder. -/
def isDataFolder (d : Disk) (p : Path) : Bool :=
  d.isFolder p && Text.startsWith "_data".toList.reverse (lowerName p).reverse

/-- The path is a folder with the given name, whatever its case. -/
def isFolderNamed (d : Disk) (name : String) (p : Path) : Bool :=
  d.isFolder p && Text.sameIgnoringAsciiCase (p.fileName?.getD "").toList name.toList

/-- The first path that satisfies a test, or what is missing. -/
def firstOr (gap : LayoutGap) (paths : List Path) (test : Path → Bool) : Except Error Path :=
  match paths.find? test with
  | some p => .ok p
  | none => .error (.layout gap)

/-- The layout of a game folder. -/
def discover (d : Disk) (root : Path) (s : Settings) : Except Error Layout := do
  let found ← entries d root
  let program ← firstOr (.noExecutable root) found (isGameProgram d)
  let data ← firstOr (.noDataFolder root) found (isDataFolder d)
  let inside ← entries d data
  let managed ←
    firstOr (.noManagedFolder s.managedFolder data) inside (isFolderNamed d s.managedFolder)
  let primary := managed.child s.primaryAssembly
  if d.isFile primary then
    .ok {
      root
      name := program.stem?.getD ""
      managed
      primary
      patches := root.join s.patchesFolder
      library := (root.join s.patchesFolder).join s.libraryFolder
      compiled := root.join s.compiledFolder
      sourceExtension := s.sourceExtension }
  else .error (.file primary .noPrimary)

/-! ## Using the parts -/

/-- The file name of the binary that is patched first. -/
def primaryName (l : Layout) : String := l.primary.fileName?.getD ""

/-- The binary with a file name. -/
def assemblyPath (l : Layout) (name : String) : Path := l.managed.child name

/-- The folders that patching uses. -/
def workFolders (l : Layout) : List Path := [l.patches, l.library, l.compiled]

section Changes

variable [Device]

/-- A folder, created when it is missing. -/
def ensureFolder (d : Disk) (p : Path) : Except Error Unit × Disk :=
  if d.isFolder p then (.ok (), d)
  else
    match d.createFolders p with
    | (.ok (), d) => (.ok (), d)
    | (.error e, d) => (.error (.onDisk p e), d)

/-- Folders, created one after the other when they are missing. -/
def ensureEach (d : Disk) : List Path → Except Error Unit × Disk
  | [] => (.ok (), d)
  | p :: rest =>
    match ensureFolder d p with
    | (.error e, d) => (.error e, d)
    | (.ok (), d) => ensureEach d rest

/-- The folders that patching uses, created when they are missing. -/
def ensureFolders (l : Layout) (d : Disk) : Except Error Unit × Disk := ensureEach d l.workFolders

end Changes

/-- The patch sources. -/
def sources (l : Layout) (d : Disk) : Except Error (List Path) :=
  if d.isFolder l.patches then
    match entries d l.patches with
    | .error e => .error e
    | .ok found =>
      .ok (found.filter fun p => d.isFile p && References.hasExtension p l.sourceExtension)
  else .error (.missingFolder l.patches)

end Layout

end CilGraft
