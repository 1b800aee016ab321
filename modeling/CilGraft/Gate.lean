import CilGraft.Metadata.Assembly
import CilGraft.Method.Image

/-!
# The write gate

An assembly passes a list of checks before it may be written.

* `Check` — a check of an assembly; `hasTypes` and `bodiesEncode` are those of the usual gate.
* `Gate.verify` — the checks in order, up to the first that fails.
-/

set_option autoImplicit false

namespace CilGraft

/-- A check of an assembly. -/
abbrev Check := Assembly → Except Error Unit

/-- The main module still defines a type. -/
def hasTypes : Check := fun a => if a.hasAnyType then .ok () else .error (.integrity a.name)

/-- The method has no body, or one that has a stored form. -/
def Method.encodes (m : Method) : Bool :=
  match m.body with
  | none => true
  | some b =>
    match b.encode with
    | .ok _ => true
    | .error _ => false

/-- Every body of every module has a stored form. -/
def bodiesEncode : Check := fun a =>
  if a.modules.all fun m => m.types.all fun t => t.methods.all Method.encodes then .ok ()
  else .error (.integrity a.name)

/-- A list of checks. -/
structure Gate where
  checks : List Check

namespace Gate

/-- The usual gate. -/
def usual : Gate := ⟨[hasTypes, bodiesEncode]⟩

/-- The checks in order, up to the first that fails. -/
def runChecks (a : Assembly) : List Check → Except Error Unit
  | [] => .ok ()
  | check :: rest =>
    match check a with
    | .error e => .error e
    | .ok () => runChecks a rest

/-- The assembly passes every check. -/
def verify (g : Gate) (a : Assembly) : Except Error Unit := runChecks a g.checks

end Gate

end CilGraft
