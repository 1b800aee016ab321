import CilGraft.Bytes.Word
import CilGraft.Path
import CilGraft.Text.Utf8

/-!
# A disk

A disk is a tree of folders and files without links, kept as the list of its entries by their
names from the root. The root folder always exists and is no entry.

* `Disk.entry?`, `Disk.put`, `Disk.drop` — the entry at names from the root, and the disk with it
  replaced or removed.
* `Disk.walk` — the names from the root to which a path leads; a path is followed piece by piece,
  and every piece but the last must be a folder.
* `DiskError` — why an access fails; `DiskError.message` is the wording of the operating system.
-/

set_option autoImplicit false

namespace CilGraft

/-- Why an access to the disk fails. -/
inductive DiskError where
  | notFound
  | permissionDenied
  /-- a replacement of `.`, `..` or the root -/
  | busy
  | alreadyExists
  | notAFolder
  | isAFolder
  | invalidArgument
  | nameTooLong
  | invalidUtf8
  /-- a path with the character that ends a name -/
  | nulInPath
  /-- a copy of what is not a file -/
  | notARegularFile
  /-- a folder whose ancestors are all missing -/
  | noAncestor
  /-- any other failure, in its own words -/
  | other (message : String)
  deriving DecidableEq, Repr

/-- The wording of a failed access. -/
def DiskError.message : DiskError → String
  | .notFound => "No such file or directory (os error 2)"
  | .permissionDenied => "Permission denied (os error 13)"
  | .busy => "Device or resource busy (os error 16)"
  | .alreadyExists => "File exists (os error 17)"
  | .notAFolder => "Not a directory (os error 20)"
  | .isAFolder => "Is a directory (os error 21)"
  | .invalidArgument => "Invalid argument (os error 22)"
  | .nameTooLong => "File name too long (os error 36)"
  | .invalidUtf8 => "stream did not contain valid UTF-8"
  | .nulInPath => "file name contained an unexpected NUL byte"
  | .notARegularFile => "the source path is neither a regular file nor a symlink to a regular file"
  | .noAncestor => "failed to create whole tree"
  | .other message => message

/-- What a name on the disk stands for. -/
inductive Entry where
  | file (content : Bytes)
  | folder
  deriving DecidableEq, Repr

/-- The names of an entry, from the root. -/
abbrev Names := List String

/-- The entries of a disk. -/
structure Disk where
  entries : List (Names × Entry)
  deriving Repr

namespace Disk

/-- A disk with nothing on it. -/
def empty : Disk := ⟨[]⟩

/-- The entry at the names; the root is a folder. -/
def entry? (d : Disk) (at_ : Names) : Option Entry :=
  if at_ = [] then some .folder else (d.entries.find? (·.1 == at_)).map (·.2)

/-- The disk with the entry at the names replaced, or added. -/
def put (d : Disk) (at_ : Names) (e : Entry) : Disk :=
  if d.entries.any (·.1 == at_) then
    ⟨d.entries.map fun x => if x.1 == at_ then (at_, e) else x⟩
  else ⟨d.entries ++ [(at_, e)]⟩

/-- The disk without the entry at the names and everything below it. -/
def drop (d : Disk) (at_ : Names) : Disk := ⟨d.entries.filter fun x => !at_.isPrefixOf x.1⟩

/-- The longest name, in bytes. -/
def maxName : Nat := 255

/-- The longest path, in bytes, with the character that ends it. -/
def maxPath : Nat := 4096

/-- A folder stands at the names. -/
def isFolderAt (d : Disk) (at_ : Names) : Bool := d.entry? at_ == some .folder

/-- The names to which the pieces of a path lead from a folder. -/
def walkFrom (d : Disk) (at_ : Names) : List String → Except DiskError Names
  | [] => .ok at_
  | piece :: rest =>
    if !d.isFolderAt at_ then .error .notAFolder
    else if Path.isIdle piece then walkFrom d at_ rest
    else if piece == ".." then walkFrom d at_.dropLast rest
    else if maxName < piece.utf8ByteSize then .error .nameTooLong
    else if (d.entry? (at_ ++ [piece])).isSome then walkFrom d (at_ ++ [piece]) rest
    else .error .notFound

/-- A path that can be handed to the operating system. -/
def checkPath (p : Path) : Except DiskError Unit :=
  if p.text.toList.contains '\x00' then .error .nulInPath
  else if p.text == "" then .error .notFound
  else if maxPath ≤ p.text.utf8ByteSize then .error .nameTooLong
  else .ok ()

/-- The names to which a path leads; a relative path starts at the root. -/
def walk (d : Disk) (p : Path) : Except DiskError Names := do
  checkPath p
  d.walkFrom [] p.pieces

/-- A name that an entry of a folder may have. -/
def checkName (name : String) : Except DiskError Unit :=
  if maxName < name.utf8ByteSize then .error .nameTooLong else .ok ()

/-- The place that the last name of a path stands for. -/
inductive Last where
  /-- a name in an existing folder; `asFolder` when a separator follows it -/
  | named (folder : Names) (name : String) (asFolder : Bool)
  /-- `.`, `..` or the root, which is a folder -/
  | folder (at_ : Names)

/-- The place of the last name of a path, whose other pieces must lead to a folder. The name itself is
not looked at. -/
def walkToLast (d : Disk) (p : Path) : Except DiskError Last := do
  checkPath p
  let back := p.pieces.reverse
  let asFolder := back.head? == some ""
  match back.dropWhile (· == "") with
  | [] => .ok (.folder [])
  | last :: front =>
    let folder ← d.walkFrom [] front.reverse
    if !d.isFolderAt folder then .error .notAFolder
    else if last == "." then .ok (.folder folder)
    else if last == ".." then .ok (.folder folder.dropLast)
    else .ok (.named folder last asFolder)

end Disk

end CilGraft
