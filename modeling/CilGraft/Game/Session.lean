import CilGraft.Game.Backup
import CilGraft.Game.Layout
import CilGraft.Game.Sources
import CilGraft.Gate

/-!
# Sessions

A run patches one game. It backs up the primary binary, makes the sources ready, applies the
patches of the primary binary and then those of each other binary in the order of their names. A
binary is written once, when a call was inserted and the gate lets it pass.

* `Session` — the settings and the services of a run.
* `Session.patch` — a run. What fails for one source, one patch or one other binary is reported and
  does not stop the run.
* `Session.putBack`, `Session.restore`, `Session.isModified` — the primary binary replaced by its backup,
  and compared with it.
-/

set_option autoImplicit false

namespace CilGraft

/-- The settings and the services of a run. -/
structure Session (σ : Type) where
  settings : Settings
  store : ModuleStore σ
  compiler : Compiler
  gate : Gate := Gate.usual

namespace Session

variable {σ : Type}

/-! ## One patch -/

/-- The artifact of a patch. -/
def artifactOf (p : Descriptor) : Except Error Path :=
  match p.artifact with
  | some a => .ok a
  | none => .error (.notCompiled p.name)

/-- The method of a compiled patch that is called. -/
def patchMethod (patch : Assembly) (p : Descriptor) : Except Error ExternalMethod :=
  match patch.modules with
  | [] => .error (.moduleNotFound patch.name)
  | m :: _ =>
    match m.resolve p.patchType.1 p.patchType.2 p.patchMethod with
    | .error e => .error e
    | .ok place =>
      match m.owner? place, m.method? place with
      | some owner, some method => .ok ⟨patch.name, owner, method⟩
      | _, _ => .error (.methodNotFound p.patchClass p.patchMethod)

/-- The calls of a patch inserted into an assembly. -/
def injectInto (a : Assembly) (p : Descriptor) (method : ExternalMethod) :
    Except Error Injected × Assembly :=
  match a.moduleIndex? p.module, a.module? p.module with
  | some index, some m =>
    match m.resolve p.namespace_ p.class_ p.method with
    | .error e => (.error e, a)
    | .ok place =>
      let (result, m) := inject m place method p.location
      (result, a.setModule index m)
  | _, _ => (.error (.moduleNotFound p.module), a)

/-- A compiled patch applied to an assembly. -/
def applyPatch (s : Session σ) (w : World σ) (a : Assembly) (p : Descriptor) :
    (Except Error Injected × Assembly) × World σ :=
  match artifactOf p with
  | .error e => ((.error e, a), w)
  | .ok artifact =>
    match w.load s.store artifact .readOnly with
    | (.error e, w) => ((.error e, a), w)
    | (.ok patch, w) =>
      match patchMethod patch p with
      | .error e => ((.error e, a), w)
      | .ok method => (injectInto a p method, w)

/-- The place of an artifact beside a binary. -/
def placeBeside (artifact binary : Path) : Except Error Path :=
  match binary.parent?, artifact.fileName? with
  | some folder, some name => .ok (folder.child name)
  | _, _ => .error (.cannotPlace artifact binary)

/-! ## One binary -/

/-- An assembly to which patches are being applied. -/
structure Patching (σ : Type) where
  assembly : Assembly
  /-- a call was inserted -/
  changed : Bool
  records : List PatchRecord
  world : World σ

section Devices

variable [Device]

/-- The artifact of a patch copied beside the binary that calls it now. -/
def deploy (d : Disk) (p : Descriptor) (binary : Path) : Except Error Unit × Disk :=
  match artifactOf p with
  | .error e => (.error e, d)
  | .ok artifact =>
    match placeBeside artifact binary with
    | .error e => (.error e, d)
    | .ok place =>
      match Device.copyFile d artifact place with
      | (.error e, d) => (.error (.onDisk place e), d)
      | (.ok (), d) => (.ok (), d)

/-- The outcome of a patch whose calls are in the assembly, once its artifact is in place. -/
def deployed (w : World σ) (p : Descriptor) (binary : Path) (done : Injected) :
    Outcome × World σ :=
  match deploy w.disk p binary with
  | (.error e, disk) => (.failed e, { w with disk })
  | (.ok (), disk) => (done.outcome, { w with disk })

/-- The injection inserted a call. -/
def inserts : Injected → Bool
  | .inserted _ => true
  | .alreadyPresent => false

/-- The next patch of a binary applied. An assembly counts as changed even when the artifact of the
patch cannot be put in place. -/
def applyNext (s : Session σ) (binary : Path) (now : Patching σ) (p : Descriptor) : Patching σ :=
  match s.applyPatch now.world now.assembly p with
  | ((.error e, assembly), world) =>
    { now with assembly, world, records := now.records ++ [p.record (.failed e)] }
  | ((.ok done, assembly), world) =>
    let (outcome, world) := deployed world p binary done
    { assembly, world
      changed := now.changed || inserts done
      records := now.records ++ [p.record outcome] }

/-- The patches of a binary applied in order. -/
def applyAll (s : Session σ) (w : World σ) (binary : Path) (a : Assembly)
    (group : List Descriptor) : Patching σ :=
  group.foldl (s.applyNext binary) ⟨a, false, [], w⟩

/-- An assembly written to its binary when the gate lets it pass. -/
def writeGuarded (s : Session σ) (w : World σ) (a : Assembly) (binary : Path) :
    Except Error Unit × World σ :=
  match s.gate.verify a with
  | .error e => (.error e, w)
  | .ok () => w.write s.store a binary

/-- The patches of a binary applied, and the binary written if that changed it. -/
def patchBinary (s : Session σ) (w : World σ) (binary : Path) (a : Assembly)
    (group : List Descriptor) : Report × World σ :=
  let done := s.applyAll w binary a group
  let report : Report := { patches := done.records }
  if done.changed then
    match s.writeGuarded done.world done.assembly binary with
    | (.ok (), w) => ({ report with written := [binary] }, w)
    | (.error e, w) => ({ report with rejected := [⟨binary, e⟩] }, w)
  else (report, done.world)

/-- A binary other than the primary one, backed up and opened. -/
def openOther (s : Session σ) (l : Layout) (b : Backup) (w : World σ) (binary : Path) :
    Except Error Assembly × World σ :=
  match b.saveOther w.disk binary with
  | (.error e, disk) => (.error e, { w with disk })
  | (.ok _, disk) => { w with disk }.load s.store binary (.writableIn l.managed)

/-- The patches of another binary applied. When it cannot be opened all of them fail. -/
def patchOther (s : Session σ) (l : Layout) (b : Backup) (w : World σ) (name : String)
    (group : List Descriptor) : Report × World σ :=
  let binary := l.assemblyPath name
  match s.openOther l b w binary with
  | (.error e, w) =>
    ({ patches := group.map (·.record (.failed e)), rejected := [⟨binary, e⟩] }, w)
  | (.ok a, w) => s.patchBinary w binary a group

/-! ## A run -/

/-- The patches of a binary. -/
def groupOf (name : String) (ps : List Descriptor) : List Descriptor :=
  ps.filter (·.assembly == name)

/-- The names of the binaries other than the primary one that patches ask for, in ascending order. -/
def otherNames (primary : String) (ps : List Descriptor) : List String :=
  ((ps.map (·.assembly)).filter (· != primary)).eraseDups.mergeSort fun s t => !(t < s)

/-- The patches of the primary binary applied, when there are any. -/
def patchPrimary (s : Session σ) (l : Layout) (w : World σ) (a : Assembly)
    (ps : List Descriptor) : Report × World σ :=
  let group := groupOf l.primaryName ps
  if group.isEmpty then ({}, w) else s.patchBinary w l.primary a group

/-- The patches of the named binaries applied, binary by binary. -/
def patchOthers (s : Session σ) (l : Layout) (b : Backup) (ps : List Descriptor) (w : World σ) :
    List String → Report × World σ
  | [] => ({}, w)
  | name :: rest =>
    let (report, w) := s.patchOther l b w name (groupOf name ps)
    let (others, w) := patchOthers s l b ps w rest
    (report ++ others, w)

/-- All patches applied. -/
def patchAll (s : Session σ) (l : Layout) (b : Backup) (w : World σ) (primary : Assembly)
    (ps : List Descriptor) : Report × World σ :=
  let (report, w) := s.patchPrimary l w primary ps
  let (others, w) := s.patchOthers l b ps w (otherNames l.primaryName ps)
  (report ++ others, w)

/-- The cache of the artifacts of a game. -/
def cacheOf (s : Session σ) (l : Layout) : Cache :=
  { folder := l.compiled
    extension := s.settings.artifactExtension
    runtime := s.settings.runtimeFolder
    libraries := if s.settings.gameReferences then some l.managed else none }

/-- The backups of a game. -/
def backupOf (s : Session σ) (l : Layout) : Backup := ⟨s.settings.backupFolder, l.name⟩

/-- A game with its folders and the backup of its primary binary in place. -/
def setUp (s : Session σ) (l : Layout) (d : Disk) : Except Error Unit × Disk :=
  match l.ensureFolders d with
  | (.error e, d) => (.error e, d)
  | (.ok (), d) =>
    match (s.backupOf l).savePrimary d l.primary with
    | (.error e, d) => (.error e, d)
    | (.ok _, d) => (.ok (), d)

/-- The sources of a game made ready. -/
def prepare (s : Session σ) (l : Layout) (w : World σ) (defaults : Defaults) :
    Except Error Sources.Prepared × World σ :=
  match l.sources w.disk with
  | .error e => (.error e, w)
  | .ok sources => Sources.prepare (s.cacheOf l) s.compiler defaults w sources

/-- A run on a game whose primary binary is open. -/
def patchOpened (s : Session σ) (l : Layout) (w : World σ) (primary : Assembly) :
    Except Error Report × World σ :=
  match s.prepare l w (s.settings.defaults primary.framework) with
  | (.error e, w) => (.error e, w)
  | (.ok prepared, w) =>
    let (report, w) := s.patchAll l (s.backupOf l) w primary prepared.ready
    (.ok { report with sourceFailures := prepared.failures }, w)

/-- A run. -/
def patch (s : Session σ) (w : World σ) (game : Path) : Except Error Report × World σ :=
  match Layout.discover w.disk game s.settings with
  | .error e => (.error e, w)
  | .ok l =>
    match s.setUp l w.disk with
    | (.error e, disk) => (.error e, { w with disk })
    | (.ok (), disk) =>
      match { w with disk }.load s.store l.primary (.writableIn l.managed) with
      | (.error e, w) => (.error e, w)
      | (.ok primary, w) => s.patchOpened l w primary

/-! ## Going back -/

/-- The primary binary replaced by its backup, and what is left on the disk when that fails. -/
def putBack (s : Session σ) (d : Disk) (game : Path) : Except Error Unit × Disk :=
  match Layout.discover d game s.settings with
  | .error e => (.error e, d)
  | .ok l => (s.backupOf l).putBackPrimary d l.primary

/-- The disk with the primary binary replaced by its backup. -/
def restore (s : Session σ) (d : Disk) (game : Path) : Except Error Disk :=
  Backup.finished (s.putBack d game)

end Devices

/-- The primary binary is not what it was when it was backed up. -/
def isModified (s : Session σ) (d : Disk) (game : Path) : Except Error Bool :=
  match Layout.discover d game s.settings with
  | .error e => .error e
  | .ok l => (s.backupOf l).isModified d l.primary

end Session

end CilGraft
