import CilGraft.Build.Cache
import CilGraft.Game.Report
import CilGraft.Store
import CilGraft.Text.Casing

/-!
# The sources of a run

The sources of a run are parsed, admitted and compiled, in this order and each time all of them.

* `parseEach` — the descriptors of the sources.
* `admitEach` — a source whose patch would have the artifact of an earlier one is refused. Names that
  differ in case only have one artifact on some disks, so they count as equal.
* `compileEach` — the artifacts of the patches that were admitted.
* `Prepared` — the patches that are ready and the sources that failed.
-/

set_option autoImplicit false

namespace CilGraft.Sources

/-- A source with what became of it. -/
abbrev Parsed := Path × Except Error Descriptor

/-- The sources with their descriptors. A reference that breaks off inside of a character stops the
run. -/
def parseEach (d : Disk) (defaults : Defaults) : List Path → Except Error (List Parsed)
  | [] => .ok []
  | source :: rest =>
    match Descriptor.ofFile d source defaults with
    | .error (.brokenReference reference) => .error (.brokenReference reference)
    | result =>
      match parseEach d defaults rest with
      | .error e => .error e
      | .ok others => .ok ((source, result) :: others)

/-- The name under which a patch takes its artifact. -/
def claimOf (patch : String) : List Char := Text.lower (fileNameOf patch.toList)

/-- The sources, with an error for each patch whose artifact is taken. `claimed` holds the artifacts
that are taken and the sources that took them. -/
def admitEach (claimed : List (List Char × Path)) : List Parsed → List Parsed
  | [] => []
  | (source, .error e) :: rest => (source, .error e) :: admitEach claimed rest
  | (source, .ok p) :: rest =>
    match claimed.find? (·.1 == claimOf p.name) with
    | some (_, first) =>
      (source, .error (.duplicateName (Cache.assemblyName p.name) first)) :: admitEach claimed rest
    | none => (source, .ok p) :: admitEach ((claimOf p.name, source) :: claimed) rest

/-- The descriptors among the sources. -/
def admitted (sources : List Parsed) : List Descriptor := sources.filterMap (·.2.toOption)

/-- The failure of a source. -/
def failure? (source : Parsed) : Option Failure :=
  match source.2 with
  | .ok _ => none
  | .error e => some ⟨source.1, e⟩

/-- The failures among the sources. -/
def failures (sources : List Parsed) : List Failure := sources.filterMap failure?

/-- The patches that are ready to be applied, and the sources that failed. -/
structure Prepared where
  failures : List Failure
  ready : List Descriptor

variable {σ : Type}

/-- A patch compiled. -/
def compileOne [Device] (c : Cache) (compiler : Compiler) (w : World σ) (p : Descriptor) :
    Except Error Compiled × World σ :=
  let job := c.compile compiler w.disk p
  let w := { w with disk := job.disk }
  match job.request with
  | none => (job.result, w)
  | some r => (job.result, w.note (.compiled p.source r))

/-- Patches compiled one after the other, with what became of them. -/
def compileEach [Device] (c : Cache) (compiler : Compiler) (w : World σ) :
    List Descriptor → List Parsed × World σ
  | [] => ([], w)
  | p :: rest =>
    let (result, w) := compileOne c compiler w p
    let (others, w) := compileEach c compiler w rest
    ((p.source, result.map (·.descriptor)) :: others, w)

/-- The given sources made ready. -/
def prepare [Device] (c : Cache) (compiler : Compiler) (defaults : Defaults) (w : World σ)
    (sources : List Path) : Except Error Prepared × World σ :=
  match parseEach w.disk defaults sources with
  | .error e => (.error e, w)
  | .ok parsed =>
    let checked := admitEach [] parsed
    let (compiled, w) := compileEach c compiler w (admitted checked)
    (.ok ⟨failures checked ++ failures compiled, admitted compiled⟩, w)

end CilGraft.Sources
