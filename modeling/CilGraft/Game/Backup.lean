import CilGraft.Digest.Checksum
import CilGraft.Disk.Device

/-!
# Backups

Before a binary is changed for the first time a copy of it is put into a folder that all games
share, and then a marker with its checksum beside the copy. The marker says that there is a backup.

* `Backup` — the backups of one game.
* `Backup.savePrimary`, `Backup.saveOther` — a backup taken unless there is one. A copy without a
  marker is kept as it is.
* `Backup.putBackPrimary`, `Backup.restorePrimary`, `Backup.restoreOther` — a binary replaced by its copy.
* `Backup.isModified` — the binary has another checksum than its marker.
-/

set_option autoImplicit false

namespace CilGraft

/-- The backups of one game. -/
structure Backup where
  /-- the folder of the backups of all games -/
  folder : Path
  game : String
  deriving DecidableEq, Repr

namespace Backup

/-! ## Paths -/

/-- The marker of the primary binary. -/
def primaryMarker (b : Backup) : Path := b.folder.child (b.game ++ ".md5")

/-- The copy of the primary binary. -/
def primaryCopy (b : Backup) : Path := b.folder.child (b.game ++ ".dll")

/-- The copy of another binary. -/
def otherCopy (b : Backup) (name : String) : Path := (b.folder.child b.game).child name

/-- The marker of a copy of another binary. -/
def markerOf (copy : Path) : Path := copy.appendText ".md5"

/-- The file name of a binary. -/
def nameOf (p : Path) : Except Error String :=
  match p.fileName? with
  | some name => .ok name
  | none => .error (.file p .noFileName)

/-! ## Taking a backup -/

/-- There is a backup of the primary binary. -/
def hasPrimary (b : Backup) (d : Disk) : Bool := d.isFile b.primaryMarker

section Changes

variable [Device]

/-- The folder of a copy, with all folders on the way to it. -/
def makeRoom (d : Disk) (copy : Path) : Except Error Unit × Disk :=
  match copy.parent? with
  | none => (.ok (), d)
  | some folder =>
    match d.createFolders folder copy with
    | (.ok (), d) => (.ok (), d)
    | (.error e, d) => (.error (.onDisk folder e), d)

/-- A copy of a binary, unless there is something in its place. -/
def copyOnce (d : Disk) (binary copy : Path) : Except Error Unit × Disk :=
  match makeRoom d copy with
  | (.error e, d) => (.error e, d)
  | (.ok (), d) =>
    if d.exists_ copy then (.ok (), d)
    else
      match Device.copyFile d binary copy with
      | (.error e, d) => (.error (.onDisk binary e), d)
      | (.ok (), d) => (.ok (), d)

/-- The marker of a binary as it is now. -/
def writeMarker (d : Disk) (binary marker : Path) : Except Error Unit × Disk :=
  match Checksum.ofFile d binary with
  | .error e => (.error e, d)
  | .ok checksum =>
    match Device.writeFile d marker (Text.Utf8.encode checksum.hex) with
    | (.error e, d) => (.error (.onDisk marker e), d)
    | (.ok (), d) => (.ok (), d)

/-- A backup taken unless there is a marker; whether it was taken. -/
def save (d : Disk) (binary copy marker : Path) : Except Error Bool × Disk :=
  if d.isFile marker then (.ok false, d)
  else
    match copyOnce d binary copy with
    | (.error e, d) => (.error e, d)
    | (.ok (), d) =>
      match writeMarker d binary marker with
      | (.error e, d) => (.error e, d)
      | (.ok (), d) => (.ok true, d)

/-- A backup of the primary binary, unless there is one. -/
def savePrimary (b : Backup) (d : Disk) (primary : Path) : Except Error Bool × Disk :=
  save d primary b.primaryCopy b.primaryMarker

/-- A backup of another binary, unless there is one. -/
def saveOther (b : Backup) (d : Disk) (binary : Path) : Except Error Bool × Disk :=
  match nameOf binary with
  | .error e => (.error e, d)
  | .ok name => save d binary (b.otherCopy name) (markerOf (b.otherCopy name))

/-! ## Using a backup -/

/-- The disk on which a change has come to its end. -/
def finished : Except Error Unit × Disk → Except Error Disk
  | (.ok (), d) => .ok d
  | (.error e, _) => .error e

/-- A binary replaced by its copy, and what is left on the disk when that fails. -/
def putBack (d : Disk) (copy binary : Path) : Except Error Unit × Disk :=
  if d.isFile copy then
    match Device.copyFile d copy binary with
    | (.error e, d) => (.error (.onDisk binary e), d)
    | (.ok (), d) => (.ok (), d)
  else (.error (.file copy .noBackup), d)

/-- The primary binary replaced by its copy, and what is left on the disk when that fails. -/
def putBackPrimary (b : Backup) (d : Disk) (primary : Path) : Except Error Unit × Disk :=
  putBack d b.primaryCopy primary

/-- The disk with a binary replaced by its copy. -/
def restore (d : Disk) (copy binary : Path) : Except Error Disk := finished (putBack d copy binary)

/-- The disk with the primary binary replaced by its copy. -/
def restorePrimary (b : Backup) (d : Disk) (primary : Path) : Except Error Disk :=
  finished (b.putBackPrimary d primary)

/-- The disk with another binary replaced by its copy. -/
def restoreOther (b : Backup) (d : Disk) (binary : Path) : Except Error Disk :=
  match nameOf binary with
  | .error e => .error e
  | .ok name => restore d (b.otherCopy name) binary

end Changes

/-- The primary binary has another checksum than its marker; not so without a marker. -/
def isModified (b : Backup) (d : Disk) (primary : Path) : Except Error Bool :=
  match d.readText b.primaryMarker with
  | .error .notFound => .ok false
  | .error e => .error (.onDisk b.primaryMarker e)
  | .ok stored =>
    match Checksum.ofFile d primary with
    | .error e => .error e
    | .ok checksum => .ok (!checksum.agreesWith stored)

end Backup

end CilGraft
