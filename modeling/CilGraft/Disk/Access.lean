import CilGraft.Disk.Basic

/-!
# Access to a disk

Every access is a function of the disk: what it tells about it, or the disk afterwards. A change is
refused when the disk does not admit it, and then leaves the disk as it was. A change that the disk admits
may fail on a device for other reasons.

* `isFile`, `isFolder`, `exists_` — what a path stands for.
* `readFile`, `readText`, `list` — the content of a file, its text, the names in a folder.
* `writeFile`, `replaceFile` — a file written in place, and put in place as a whole.
* `copyFile`, `createFolder`, `remove`.
-/

set_option autoImplicit false

namespace CilGraft

namespace Disk

/-! ## Looking -/

/-- What a path stands for. -/
def at? (d : Disk) (p : Path) : Except DiskError Entry := do
  let names ← d.walk p
  match d.entry? names with
  | some e => .ok e
  | none => .error .notFound

/-- The path stands for a file. -/
def isFile (d : Disk) (p : Path) : Bool :=
  match d.at? p with
  | .ok (.file _) => true
  | _ => false

/-- The path stands for a folder. -/
def isFolder (d : Disk) (p : Path) : Bool :=
  match d.at? p with
  | .ok .folder => true
  | _ => false

/-- The path stands for something. -/
def exists_ (d : Disk) (p : Path) : Bool :=
  match d.at? p with
  | .ok _ => true
  | .error _ => false

/-- The content of a file. -/
def readFile (d : Disk) (p : Path) : Except DiskError Bytes := do
  match ← d.at? p with
  | .file content => .ok content
  | .folder => .error .isAFolder

/-- The text of a file. -/
def readText (d : Disk) (p : Path) : Except DiskError (List Char) := do
  let content ← d.readFile p
  match Text.Utf8.decode? content with
  | some s => .ok s
  | none => .error .invalidUtf8

/-- The names in the folder at the names. -/
def childrenOf (d : Disk) (folder : Names) : List String :=
  d.entries.filterMap fun x =>
    match x.1.getLast? with
    | some name => if x.1.dropLast = folder then some name else none
    | none => none

/-- The names in a folder, in the order of their characters. -/
def list (d : Disk) (p : Path) : Except DiskError (List String) := do
  let names ← d.walk p
  if d.isFolderAt names then .ok ((d.childrenOf names).mergeSort (fun s t => !(t < s)))
  else .error .notAFolder

/-! ## Changing -/

/-- A file written in place: created, or its content replaced. A separator at the end of the path asks
for a folder, which is refused before the name is looked at. -/
def writeFile (d : Disk) (p : Path) (content : Bytes) : Except DiskError Disk := do
  match ← d.walkToLast p with
  | .folder _ => .error .isAFolder
  | .named _ _ true => .error .isAFolder
  | .named folder name false =>
    checkName name
    if d.isFolderAt (folder ++ [name]) then .error .isAFolder
    else .ok (d.put (folder ++ [name]) (.file content))

/-- The failure of a replacement: a path that cannot be handed over counts as a wrong argument. -/
def asReplacement : DiskError → DiskError
  | .nulInPath => .invalidArgument
  | e => e

/-- A finished file put in the place of what was there. The name is looked at first, then a separator
at the end of the path is refused, and then a folder in the place. -/
def replaceFile (d : Disk) (p : Path) (content : Bytes) : Except DiskError Disk := do
  match ← (d.walkToLast p).mapError asReplacement with
  | .folder _ => .error .busy
  | .named folder name asFolder =>
    checkName name
    if asFolder then .error .notAFolder
    else if d.isFolderAt (folder ++ [name]) then .error .isAFolder
    else .ok (d.put (folder ++ [name]) (.file content))

/-- A file copied. The target is emptied before the source is read, so that a file copied onto itself
is empty afterwards. -/
def copyFile (d : Disk) (source target : Path) : Except DiskError Disk := do
  match ← d.at? source with
  | .folder => .error .notARegularFile
  | .file content =>
    let emptied ← d.writeFile target []
    let onto := (d.walk source).toOption == (emptied.walk target).toOption
    d.writeFile target (if onto then [] else content)

/-- One new folder. -/
def createFolder (d : Disk) (p : Path) : Except DiskError Disk := do
  match ← d.walkToLast p with
  | .folder _ => .error .alreadyExists
  | .named folder name _ =>
    checkName name
    if (d.entry? (folder ++ [name])).isSome then .error .alreadyExists
    else .ok (d.put (folder ++ [name]) .folder)

/-- The disk without what the path stands for and everything below it. -/
def remove (d : Disk) (p : Path) : Except DiskError Disk := do
  let names ← d.walk p
  .ok (d.drop names)

/-- Everything below a folder, with the names from the folder. -/
def below (d : Disk) (folder : Names) : List (Names × Entry) :=
  d.entries.filterMap fun x =>
    if folder.isPrefixOf x.1 && folder.length < x.1.length then
      some (x.1.drop folder.length, x.2)
    else none

end Disk

end CilGraft
