import CilGraft.Error

/-!
# Requests to a compiler

* `Request` — one source to be compiled.
* `Output` — what a compiler that ran gives back.
* `Compiler` — the answers of a compiler. An error means that it could not run.
-/

set_option autoImplicit false

namespace CilGraft

/-- One source to be compiled. -/
structure Request where
  /-- the name of the new assembly -/
  assemblyName : String
  source : String
  /-- the libraries that the source may use -/
  references : List Path
  deriving DecidableEq, Repr

/-- What a compiler gives back. -/
inductive Output where
  | binary (content : Bytes)
  /-- the source is rejected, for these reasons -/
  | diagnostics (lines : List String)
  deriving DecidableEq, Repr

/-- The answers of a compiler. -/
abbrev Compiler := Request → Except Error Output

end CilGraft
