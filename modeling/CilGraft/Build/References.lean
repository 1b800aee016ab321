import CilGraft.Disk.Access

/-!
# References of a compilation

A compilation may use the libraries among its candidates that exist, each of them once and in the
order of the candidates.

* `runtimeCandidates` — the core libraries in a folder.
* `folderCandidates` — all libraries in a folder, by name.
* `select` — the candidates that are used.
-/

set_option autoImplicit false

namespace CilGraft.References

/-- The file names of the core libraries. -/
def coreLibraries : List String :=
  ["System.Private.CoreLib.dll", "System.Runtime.dll", "System.Console.dll",
    "System.Text.RegularExpressions.dll", "System.Linq.dll", "System.Linq.Expressions.dll",
    "System.IO.dll", "System.Net.Primitives.dll", "System.Net.Http.dll",
    "System.Private.Uri.dll", "System.Reflection.dll", "System.ComponentModel.Primitives.dll",
    "System.Globalization.dll", "System.Collections.dll", "System.Collections.Concurrent.dll",
    "System.Collections.Generic.dll", "System.Collections.NonGeneric.dll", "netstandard.dll",
    "Microsoft.CSharp.dll"]

/-- The core libraries in a folder. -/
def runtimeCandidates (folder : Path) : List Path := coreLibraries.map folder.child

/-- The path has an extension, whatever its case. -/
def hasExtension (p : Path) (extension : String) : Bool :=
  match p.extension? with
  | some found => Text.sameIgnoringAsciiCase found.toList extension.toList
  | none => false

/-- The libraries in a folder, in the order of their names; none when the folder cannot be listed. -/
def folderCandidates (d : Disk) (folder : Path) : List Path :=
  match d.list folder with
  | .error _ => []
  | .ok names => (names.map folder.child).filter (hasExtension · "dll")

/-- The paths that stand neither for one of `seen` nor for an earlier one of them. -/
def firstOccurrences (seen : List Path) : List Path → List Path
  | [] => []
  | p :: rest =>
    if seen.any (·.same p) then firstOccurrences seen rest
    else p :: firstOccurrences (p :: seen) rest

/-- The candidates that are used. -/
def select (d : Disk) (candidates : List Path) : List Path :=
  (firstOccurrences [] candidates).filter d.isFile

/-- The path stands for one of the references. -/
def contains (references : List Path) (p : Path) : Bool := references.any (·.same p)

end CilGraft.References
