import CilGraft.Metadata.Assembly

/-!
# References to other assemblies

A module refers to a method of another assembly by a row for its type and a row for the method.

* `Module.findImport?` — the token of the rows that exist already.
* `freeToken` — the token behind the highest row of a table.
* `Module.import_` — the token of the method, with new rows where there are none. Rows are added one
  after the other, so that a row for the type may have been added when the table of members is
  full.
-/

set_option autoImplicit false

namespace CilGraft

/-- The token of the row behind the highest one in use. -/
def freeToken (table : Table) (used : List Token) : Except CodeError Token :=
  let row := (used.map Token.row).foldl max 0 + 1
  if Token.maxRow < row then .error (.malformed (.tableFull table))
  else .ok (Token.ofRow table row)

namespace Module

/-- The token of the first reference to a type. -/
def findTypeRef? (m : Module) (scope : String) (owner : TypeDef) : Option Token :=
  (m.typeRefs.find? fun r =>
    r.scope == scope && r.namespace_ == owner.namespace_ && r.name == owner.name).map (·.token)

/-- The token of the first reference to a member of a referenced type. -/
def findMemberRef? (m : Module) (class_ : Token) (method : Method) : Option Token :=
  (m.memberRefs.find? fun r =>
    r.class_ == class_ && r.name == method.name && r.signature == method.signature).map (·.token)

/-- The token by which the module refers to the method already. -/
def findImport? (m : Module) (e : ExternalMethod) : Option Token :=
  (m.findTypeRef? e.scope e.owner).bind fun class_ => m.findMemberRef? class_ e.method

/-- The token of the type, with a new row when the module does not refer to it yet. -/
def importType (m : Module) (scope : String) (owner : TypeDef) :
    Except CodeError Token × Module :=
  match m.findTypeRef? scope owner with
  | some token => (.ok token, m)
  | none =>
    match freeToken .typeRef (m.typeRefs.map (·.token)) with
    | .error e => (.error e, m)
    | .ok token =>
      (.ok token,
        { m with typeRefs := m.typeRefs ++ [⟨token, scope, owner.namespace_, owner.name⟩] })

/-- A new row for a member of a referenced type. -/
def addMember (m : Module) (class_ : Token) (method : Method) : Except CodeError Token × Module :=
  match freeToken .memberRef (m.memberRefs.map (·.token)) with
  | .error e => (.error e, m)
  | .ok token =>
    (.ok token,
      { m with memberRefs := m.memberRefs ++ [⟨token, class_, method.name, method.signature⟩] })

/-- The token of a method that can be called from any place, and the module with the rows for it. -/
def import_ (m : Module) (e : ExternalMethod) : Except Error Token × Module :=
  match e.ensureCallable with
  | .error err => (.error err, m)
  | .ok () =>
    match m.findImport? e with
    | some token => (.ok token, m)
    | none =>
      match m.importType e.scope e.owner with
      | (.error err, m) => (.error (.code err), m)
      | (.ok class_, m) =>
        match m.addMember class_ e.method with
        | (.error err, m) => (.error (.code err), m)
        | (.ok token, m) => (.ok token, m)

end Module

end CilGraft
