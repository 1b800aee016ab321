import CilGraft.Build.References
import CilGraft.Build.Request
import CilGraft.Disk.Device
import CilGraft.Patch.Descriptor
import CilGraft.Patch.Preamble

/-!
# The cache of compiled patches

A compiled patch is kept in a file of the cache folder, its artifact, with the checksum of its
source beside it, in a sidecar. A source is compiled again only when its checksum is not the one of
the sidecar.

* `fileNameOf` — the name of a patch without the characters that no file name has.
* `Cache.artifactPath`, `sidecarPath` — where the two files are.
* `Cache.store` — a file put in its place as a whole, by way of a temporary file.
* `Cache.compile` — the artifact of a patch. The artifact is stored in front of its sidecar.
-/

set_option autoImplicit false

namespace CilGraft

/-- The characters that no file name has on every system. -/
def reservedCharacters : List Char := ['/', '\\', ':', '*', '?', '"', '<', '>', '|']

/-- The character of a file name that stands for a character of a name. -/
def fileCharacter (c : Char) : Char :=
  if reservedCharacters.contains c || Text.isControl c then '_' else c

/-- The file name that stands for a name. -/
def fileNameOf (name : List Char) : List Char := name.map fileCharacter

/-- Whether an artifact was there already. -/
inductive Freshness where
  | reused
  | compiled
  deriving DecidableEq, Repr

/-- A patch with its artifact. -/
structure Compiled where
  descriptor : Descriptor
  freshness : Freshness
  deriving DecidableEq, Repr

/-- A folder of artifacts, and the libraries that are used for compiling. -/
structure Cache where
  folder : Path
  extension : String
  /-- the folder of the core libraries -/
  runtime : Option Path
  /-- a folder all of whose libraries may be used -/
  libraries : Option Path
  deriving DecidableEq, Repr

/-- The sidecar of an artifact. -/
def sidecarPath (artifact : Path) : Path := artifact.appendText ".md5"

namespace Cache

/-- The name of the assembly of a patch. -/
def assemblyName (patch : String) : String := String.ofList (fileNameOf patch.toList)

/-- The artifact of a patch. -/
def artifactPath (c : Cache) (patch : String) : Path :=
  c.folder.child (assemblyName patch ++ "." ++ c.extension)

/-- The artifact is there, and its sidecar has the checksum of the patch. -/
def isCurrent (d : Disk) (p : Descriptor) (artifact : Path) : Bool :=
  d.isFile artifact &&
    match d.readText (sidecarPath artifact) with
    | .ok stored => p.checksum.agreesWith stored
    | .error _ => false

/-- The libraries that a patch may use: the core libraries, its own ones, and all of the folder. -/
def candidates (c : Cache) (d : Disk) (p : Descriptor) : List Path :=
  (c.runtime.map References.runtimeCandidates).getD [] ++ p.references ++
    (c.libraries.map (References.folderCandidates d)).getD []

/-- The request for a patch with the given source text. -/
def request (c : Cache) (d : Disk) (p : Descriptor) (content : List Char) : Request :=
  { assemblyName := assemblyName p.name
    source := String.ofList (Patch.prepare content p.framework.toList)
    references := References.select d (c.candidates d p) }

/-- The request that the source of a patch leads to. -/
def requestFor (c : Cache) (d : Disk) (p : Descriptor) : Except Error Request :=
  match d.readFile p.source with
  | .error e => .error (.onDisk p.source e)
  | .ok data =>
    let content := Text.Utf8.decodeLossy data
    if Text.trim content = [] then .error (.emptySource p.source)
    else .ok (c.request d p content)

/-- The binary that a compiler gives for a request. -/
def binaryOf (compiler : Compiler) (p : Descriptor) (r : Request) : Except Error Bytes :=
  match compiler r with
  | .error e => .error e
  | .ok (.diagnostics lines) => .error (.rejectedSource p.source ("\n".intercalate lines))
  | .ok (.binary content) => .ok content

section Changes

variable [Device]

/-- A file put in its place as a whole: it is written to a temporary file in the folder of the cache, which
is moved then. -/
def store (c : Cache) (d : Disk) (p : Path) (content : Bytes) : Except Error Disk :=
  match Device.createTemporary d c.folder p with
  | .error e => .error (.onDisk c.folder e)
  | .ok () =>
    match Device.fillTemporary d c.folder p content with
    | .error e => .error (.onDisk (Device.temporaryIn c.folder) e)
    | .ok () =>
      match Device.replaceFile d p content with
      | .error e => .error (.onDisk p e)
      | .ok d => .ok d

/-- The artifact and its sidecar stored one after the other. -/
def storeBoth (c : Cache) (d : Disk) (p : Descriptor) (artifact : Path) (binary : Bytes) :
    Except Error Unit × Disk :=
  match c.store d artifact binary with
  | .error e => (.error e, d)
  | .ok d =>
    match c.store d (sidecarPath artifact) (Text.Utf8.encode p.checksum.hex) with
    | .error e => (.error e, d)
    | .ok d => (.ok (), d)

/-- What compiling a patch leads to. -/
structure Job where
  result : Except Error Compiled
  /-- what the compiler was asked, if it was -/
  request : Option Request
  disk : Disk

/-- A patch whose artifact is not current is compiled. -/
def build (c : Cache) (compiler : Compiler) (d : Disk) (p : Descriptor) (artifact : Path) : Job :=
  match c.requestFor d p with
  | .error e => ⟨.error e, none, d⟩
  | .ok r =>
    match binaryOf compiler p r with
    | .error e => ⟨.error e, some r, d⟩
    | .ok binary =>
      match c.storeBoth d p artifact binary with
      | (.error e, d) => ⟨.error e, some r, d⟩
      | (.ok (), d) => ⟨.ok ⟨p.withArtifact artifact, .compiled⟩, some r, d⟩

/-- The artifact of a patch, compiled when it is not current. -/
def compile (c : Cache) (compiler : Compiler) (d : Disk) (p : Descriptor) : Job :=
  if !d.isFolder c.folder then ⟨.error (.missingFolder c.folder), none, d⟩
  else
    let artifact := c.artifactPath p.name
    if isCurrent d p artifact then ⟨.ok ⟨p.withArtifact artifact, .reused⟩, none, d⟩
    else c.build compiler d p artifact

end Changes

end Cache

end CilGraft
