import CilGraft.Cil.CodeError
import CilGraft.Disk.Basic

/-!
# What can go wrong in a run

* `Error` — the causes, from a damaged body to a missing folder.
* `Error.message` — the wording, which reports quote.

How far a cause reaches is decided where it is met: most of them cost one patch, some one binary,
some the run.
-/

set_option autoImplicit false

namespace CilGraft

/-- What keeps a method from being called at any place of any other one. -/
inductive Uncallable where
  | typeNotPublic
  | methodNotPublic
  | notStatic
  | notPlain
  deriving DecidableEq, Repr

/-- The wording of a reason. -/
def Uncallable.message : Uncallable → String
  | .typeNotPublic => "declaring type is not public"
  | .methodNotPublic => "method is not public"
  | .notStatic => "method is not static"
  | .notPlain => "method must take no parameters and return void"

/-- What is missing in a game folder. -/
inductive LayoutGap where
  | noExecutable (root : Path)
  | noDataFolder (root : Path)
  | noManagedFolder (name : String) (data : Path)
  deriving DecidableEq, Repr

/-- The wording of a gap. -/
def LayoutGap.message : LayoutGap → String
  | .noExecutable root => s!"No game executable found in {root.text}"
  | .noDataFolder root => s!"No directory ending with \"_Data\" in {root.text}"
  | .noManagedFolder name data => s!"No \"{name}\" directory in {data.text}"

/-- Why a file cannot be used: the disk says so, or it is not what it should be. -/
inductive FileFault where
  | disk (e : DiskError)
  | noPrimary
  | noBackup
  | noFileName
  deriving DecidableEq, Repr

/-- The wording of a fault. -/
def FileFault.message : FileFault → String
  | .disk e => e.message
  | .noPrimary => "primary game binary not found"
  | .noBackup => "backup not found"
  | .noFileName => "path has no file name"

/-- The values that name a place of injection, as a message lists them. -/
def locationValues : String := "Prefix, Postfix"

/-- What can go wrong. -/
inductive Error where
  | code (e : CodeError)
  /-- a header without a key that it needs -/
  | missingField (key : String)
  | unknownLocation (value : String)
  /-- the ending of a library reference is not on the border of a character -/
  | brokenReference (reference : String)
  | rejectedSource (file : Path) (diagnostics : String)
  | emptySource (file : Path)
  | duplicateName (name : String) (first : Path)
  | moduleNotFound (name : String)
  | typeNotFound (namespace_ name : String)
  | methodNotFound (type method : String)
  /-- a target without instructions -/
  | notPatchable (method : String)
  | notCallable (method : String) (reason : Uncallable)
  /-- a target without the instruction that an injection needs -/
  | instructionNotFound (method mnemonic : String)
  /-- an assembly that must not be written -/
  | integrity (assembly : String)
  | file (path : Path) (fault : FileFault)
  /-- a fault of a file that is not named -/
  | unnamedFile (fault : DiskError)
  | missingFolder (path : Path)
  | layout (gap : LayoutGap)
  | invalidChecksum (text : String)
  | cannotExecute (program : Path) (fault : DiskError)
  | notCompiled (patch : String)
  | cannotPlace (artifact target : Path)
  /-- a failure of a compiler or a store, in its own words -/
  | service (message : String)
  deriving DecidableEq, Repr

/-- The wording of an error. -/
def Error.message : Error → String
  | .code e => e.message
  | .missingField key => s!"Argument \"@{key}\" in patch was empty."
  | .unknownLocation value =>
    s!"{value} is a invalid target injection location. Valid inputs: {locationValues}."
  | .brokenReference reference => s!"Reference {reference} ends inside of a character"
  | .rejectedSource path diagnostics =>
    s!"There was an error compiling the file: \"{path.text}\".\nError message: {diagnostics}"
  | .emptySource path => s!"Patch file was found, but it was empty: {path.text}"
  | .duplicateName name first => s!"Patch name \"{name}\" is already used by {first.text}"
  | .moduleNotFound name => "Module '" ++ name ++ "' not found"
  | .typeNotFound ns name => "Type '" ++ ns ++ "." ++ name ++ "' not found"
  | .methodNotFound type method => "Method '" ++ method ++ "' not found on type '" ++ type ++ "'"
  | .notPatchable method => s!"Target method doesn't have a body. Method: {method}"
  | .notCallable method reason => s!"Patch method {method} cannot be injected: {reason.message}"
  | .instructionNotFound method mnemonic =>
    "No '" ++ mnemonic ++ "' instruction found in method " ++ method
  | .integrity assembly => s!"{assembly} state is invalid. Aborting the write operation."
  | .file path fault => s!"I/O error on {path.text}: {fault.message}"
  | .unnamedFile fault => fault.message
  | .missingFolder path =>
    s!"{path.text} folder should exist, but it does not. Was it deleted externally?"
  | .layout gap => s!"Invalid game layout: {gap.message}"
  | .invalidChecksum text => "Invalid checksum: '" ++ text ++ "'"
  | .cannotExecute program fault => s!"Failed to execute {program.text}: {fault.message}"
  | .notCompiled patch => s!"Patch {patch} has not been compiled"
  | .cannotPlace artifact target => s!"Cannot place {artifact.text} beside {target.text}"
  | .service message => message

instance : Coe CodeError Error := ⟨Error.code⟩

/-- A failure of an access to the file at a path. -/
def Error.onDisk (path : Path) (e : DiskError) : Error := .file path (.disk e)

/-- The result with its error explained in another type. -/
def explain {ε ε' α : Type} (f : ε → ε') : Except ε α → Except ε' α
  | .ok a => .ok a
  | .error e => .error (f e)

end CilGraft
