import CilGraft.Digest.Checksum
import CilGraft.Injection
import CilGraft.Patch.Header

/-!
# Descriptors

A descriptor says what one patch source patches: the method that is changed, the method that is
called, and where.

* `Descriptor.parse` — the descriptor of a text. Five keys are required; the first one that is
  missing, or the location that is none, decides the error. What the source asks for by a relative
  path is seen from the current folder, the root when nothing is given.
* `Descriptor.ofFile` — the descriptor of a source file.
* `Descriptor.withArtifact` — the descriptor of a compiled patch.
* `Defaults` — the values of a header that names no framework or no assembly.
-/

set_option autoImplicit false

namespace CilGraft

/-- The values for keys that a header may leave out. -/
structure Defaults where
  framework : String := ".NETStandard,Version=v2.1"
  assembly : String := "Assembly-CSharp.dll"
  deriving DecidableEq, Repr

/-- What a patch source says about itself. -/
structure Descriptor where
  name : String
  description : String
  /-- the libraries that the source needs -/
  references : List Path
  /-- the checksum of the source -/
  checksum : Checksum
  source : Path
  /-- the compiled patch -/
  artifact : Option Path
  framework : String
  /-- the file name of the binary that is patched -/
  assembly : String
  module : String
  namespace_ : String
  class_ : String
  method : String
  location : Location
  /-- the type of the method that is called, with its namespace -/
  patchClass : String
  patchMethod : String
  deriving DecidableEq, Repr

namespace Descriptor

open Patch

/-- The last name of a path with separators of either kind. -/
def lastName (path : List Char) : List Char := Text.afterLast (fun c => c == '/' || c == '\\') path

/-- The name of a patch that has none in its header. -/
def nameless (c : Checksum) : String := s!"UnnamedPatch({c.text})"

/-- The value of a key that must be there. -/
def required (lines : List (List Char)) (key : String) : Except Error String :=
  match headerValue? lines key with
  | some value => .ok (String.ofList value)
  | none => .error (.missingField key)

/-- The value of a key, or another one. -/
def optional (lines : List (List Char)) (key : String) (otherwise : String) : String :=
  match headerValue? lines key with
  | some value => String.ofList value
  | none => otherwise

/-- The location with the given name. -/
def locationOf (value : String) : Except Error Location :=
  match Location.ofName? value with
  | some l => .ok l
  | none => .error (.unknownLocation value)

/-- The folder of a source. -/
def baseOf (source : Path) : Path := source.parent?.getD ⟨""⟩

/-- The path of a library that a source asks for. -/
def libraryPath (source : Path) (name : List Char) (here : Option Path := some ⟨"/"⟩) : Path :=
  ((baseOf source).join ⟨String.ofList name⟩).resolve here

/-- The descriptor with the given header lines. -/
def ofLines (lines : List (List Char)) (source : Path) (checksum : Checksum)
    (defaults : Defaults) (here : Option Path := some ⟨"/"⟩) : Except Error Descriptor := do
  let class_ ← required lines "TargetClass"
  let method ← required lines "TargetMethod"
  let value ← required lines "TargetLocation"
  let location ← locationOf value
  let patchClass ← required lines "PatchClass"
  let patchMethod ← required lines "PatchMethod"
  let libraries ← libraryNames lines
  let assembly :=
    match headerValue? lines "TargetAssembly" with
    | some path => String.ofList (lastName path)
    | none => defaults.assembly
  .ok {
    name := optional lines "Name" (nameless checksum)
    description := optional lines "Description" ""
    references := libraries.map fun name => libraryPath source name here
    checksum
    source
    artifact := none
    framework := optional lines "TargetFramework" defaults.framework
    assembly
    module := optional lines "TargetModule" mainModule
    namespace_ := optional lines "TargetNamespace" ""
    class_
    method
    location
    patchClass
    patchMethod }

/-- The descriptor of a text. -/
def parse (content : List Char) (source : Path) (checksum : Checksum) (defaults : Defaults)
    (here : Option Path := some ⟨"/"⟩) : Except Error Descriptor :=
  ofLines (headerLines content) source checksum defaults here

/-- The descriptor of a source file; the current folder is the root of the disk. -/
def ofFile (d : Disk) (source : Path) (defaults : Defaults) : Except Error Descriptor :=
  match d.readFile source with
  | .error e => .error (.onDisk source e)
  | .ok content =>
    parse (Text.Utf8.decodeLossy content) source (Checksum.of content) defaults

/-- The descriptor with a compiled patch. -/
def withArtifact (p : Descriptor) (artifact : Path) : Descriptor :=
  { p with artifact := some artifact }

/-- The namespace and the name of the type of the method that is called. -/
def patchType (p : Descriptor) : String × String :=
  match Text.splitLast? (· == '.') p.patchClass.toList with
  | some (front, back) => (String.ofList front, String.ofList back)
  | none => ("", p.patchClass)

end Descriptor

end CilGraft
