import CilGraft.Disk.Access

/-!
# Devices

A disk is changed through a device, which may fail at any change that the disk admits: it is full, say,
or it has been taken away. A folder is created, and a file is moved, as a whole or not at all. A file that
is written in place may be left half-done. Looking at a disk always tells what is there.

* `Change` — a change as the device is asked for it.
* `Device` — which changes fail. Where no device is given it is `Device.sound`, which never fails.
* `Device.writeFile`, `Device.copyFile`, `Device.createFolder`, `Device.replaceFile` — the changes of a
  disk through a device.
* `Device.createTemporary`, `Device.fillTemporary` — a file that is written out of the way, to be moved to
  its place.
* `Disk.createFolders` — a folder with all folders on the way to it.
-/

set_option autoImplicit false

namespace CilGraft

/-- A change that a device is asked for. -/
inductive Change where
  | writeFile (path : Path) (content : Bytes)
  | copyFile (source target : Path)
  /-- a folder, which is on the way to a place -/
  | createFolder (path place : Path)
  /-- a file with a name of its own in a folder, which is meant for another place -/
  | createTemporary (folder place : Path)
  | fillTemporary (folder place : Path) (content : Bytes)
  | replaceFile (path : Path) (content : Bytes)
  deriving DecidableEq, Repr

/-- The failure of a change. -/
structure Fault where
  reason : DiskError
  /-- how much of the file has been written; none when the file has not been touched -/
  written : Option Nat := none
  deriving DecidableEq, Repr

/-- A device, by the changes that fail, each told by the disk that it is asked for. -/
class Device where
  fault? : Disk → Change → Option Fault

namespace Device

/-- A device that never fails. -/
instance sound : Device := ⟨fun _ _ => none⟩

section Changes

variable [Device] (d : Disk)

/-! ## Files written in place -/

/-- What a failure leaves of a change after which the file at `target` would be finished. -/
def halfDone (fault : Fault) (target : Path) (finished : Disk) : Disk :=
  match fault.written, finished.readFile target with
  | some n, .ok content => (d.writeFile target (content.take n)).toOption.getD d
  | _, _ => d

/-- A change of the file at `target`, given the disk on which it is finished. -/
def inPlace (c : Change) (target : Path) : Except DiskError Disk → Except DiskError Unit × Disk
  | .error e => (.error e, d)
  | .ok finished =>
    match fault? d c with
    | none => (.ok (), finished)
    | some fault => (.error fault.reason, halfDone d fault target finished)

/-- A file written in place. -/
def writeFile (p : Path) (content : Bytes) : Except DiskError Unit × Disk :=
  inPlace d (.writeFile p content) p (d.writeFile p content)

/-- A file copied. -/
def copyFile (source target : Path) : Except DiskError Unit × Disk :=
  inPlace d (.copyFile source target) target (d.copyFile source target)

/-! ## Changes as a whole -/

/-- A change that happens as a whole or not at all, given what it leads to on the disk. -/
def asWhole {α : Type} (c : Change) (result : Except DiskError α) : Except DiskError α :=
  match fault? d c with
  | none => result
  | some fault => .error fault.reason

/-- One new folder on the way to `place`. -/
def createFolder (p place : Path) : Except DiskError Disk :=
  asWhole d (.createFolder p place) (d.createFolder p)

/-- A finished file put in the place of what was there. -/
def replaceFile (p : Path) (content : Bytes) : Except DiskError Disk :=
  asWhole d (.replaceFile p content) (d.replaceFile p content)

/-! ## Temporary files -/

/-- A temporary file in a folder. Its name is drawn, with six characters in the place of the last ones
here, and its path is absolute. -/
def temporaryIn (folder : Path) : Path := ((Path.mk "/").join folder).child ".tmpXXXXXX"

/-- A failure with the path of the temporary file that it is about. -/
def aboutTemporary (folder : Path) (e : DiskError) : DiskError :=
  .other (e.message ++ " at path \"" ++ (temporaryIn folder).text ++ "\"")

/-- A temporary file created in a folder for a file at `place`. It is gone when the file has been put
there, and also when that fails, so that it is no entry of a disk. -/
def createTemporary (folder place : Path) : Except DiskError Unit :=
  (asWhole d (.createTemporary folder place)
    ((d.walkToLast (temporaryIn folder)).map fun _ => ())).mapError (aboutTemporary folder)

/-- A temporary file filled with the content that the file at `place` shall have. -/
def fillTemporary (folder place : Path) (content : Bytes) : Except DiskError Unit :=
  (asWhole d (.fillTemporary folder place content) (.ok ())).mapError (aboutTemporary folder)

end Changes

end Device

namespace Disk

variable [Device]

/-- A folder with all folders on the way to it, at most `depth` of them. A folder that exists already
is fine. The outer folders stay when an inner one fails. -/
def createFoldersUpTo (place : Path) : Nat → Disk → Path → Except DiskError Unit × Disk
  | 0, d, _ => (.error .noAncestor, d)
  | depth + 1, d, p =>
    if p.components.isEmpty then (.ok (), d)
    else
      match Device.createFolder d p place with
      | .ok d => (.ok (), d)
      | .error .notFound =>
        match p.parent? with
        | none => (.error .noAncestor, d)
        | some parent =>
          match createFoldersUpTo place depth d parent with
          | (.error e, d) => (.error e, d)
          | (.ok _, d) =>
            match Device.createFolder d p place with
            | .ok d => (.ok (), d)
            | .error e => (if d.isFolder p then .ok () else .error e, d)
      | .error e => (if d.isFolder p then .ok () else .error e, d)

/-- A folder with all folders on the way to it, for something that belongs at `place`. -/
def createFolders (d : Disk) (p : Path) (place : Path := p) : Except DiskError Unit × Disk :=
  createFoldersUpTo place (p.pieces.length + 2) d p

end Disk

end CilGraft
