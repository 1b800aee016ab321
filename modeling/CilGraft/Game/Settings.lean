import CilGraft.Patch.Descriptor

/-!
# Settings

The names of folders and files of a run, and its switches. The folders are looked for in the game
folder, except that of the backups.
-/

set_option autoImplicit false

namespace CilGraft

/-- The settings of a run. -/
structure Settings where
  /-- the patch sources -/
  patchesFolder : Path := ⟨"Patches"⟩
  /-- libraries of patches, in the folder of the sources -/
  libraryFolder : Path := ⟨"Lib"⟩
  /-- the artifacts and their sidecars -/
  compiledFolder : Path := ⟨"CompiledPatches"⟩
  /-- the backups of all games -/
  backupFolder : Path := ⟨"Games"⟩
  /-- the file name of the binary that is patched first -/
  primaryAssembly : String := ({} : Defaults).assembly
  /-- the name of the folder with the binaries of a game -/
  managedFolder : String := "Managed"
  sourceExtension : String := "cs"
  artifactExtension : String := "dll"
  /-- patches may use all binaries of the game -/
  gameReferences : Bool := false
  /-- the framework of a patch when neither its header nor the game names one -/
  framework : String := ({} : Defaults).framework
  /-- the folder of the core libraries -/
  runtimeFolder : Option Path := none
  /-- sources may be compiled at the same time -/
  parallel : Bool := true
  deriving DecidableEq, Repr

/-- The values for keys that a header leaves out, in a game that was built for a framework. -/
def Settings.defaults (s : Settings) (gameFramework : Option String) : Defaults :=
  { framework := gameFramework.getD s.framework, assembly := s.primaryAssembly }

end CilGraft
