import CilGraft.Error
import CilGraft.Metadata.Attributes
import CilGraft.Method.Body

/-!
# Assemblies

An assembly holds modules, a module types, a type methods. A module also has two tables of rows by
which its code refers to types and members of other assemblies.

* `Assembly.module?`, `Assembly.setModule` — a module by its name, and the assembly with another one
  in its place; `MainModule` is the first module.
* `Module.resolve` — the place of a method by the names of its type and its own name.
* `ExternalMethod` — a method of another assembly, and `ExternalMethod.ensureCallable`: it can be
  called without arguments from any place.
-/

set_option autoImplicit false

namespace CilGraft

/-- A method of a type. -/
structure Method where
  token : Token
  name : String
  flags : UInt32
  signature : Bytes
  /-- none for a method that is implemented elsewhere or not at all -/
  body : Option Body
  deriving DecidableEq, Repr

/-- A type of a module. -/
structure TypeDef where
  token : Token
  namespace_ : String
  name : String
  flags : UInt32
  methods : List Method
  deriving DecidableEq, Repr

/-- A reference to a type of another assembly. -/
structure TypeRef where
  token : Token
  /-- the assembly that defines the type -/
  scope : String
  namespace_ : String
  name : String
  deriving DecidableEq, Repr

/-- A reference to a member of a referenced type. -/
structure MemberRef where
  token : Token
  /-- the reference to the type -/
  class_ : Token
  name : String
  signature : Bytes
  deriving DecidableEq, Repr

/-- A module of an assembly. -/
structure Module where
  name : String
  types : List TypeDef
  typeRefs : List TypeRef
  memberRefs : List MemberRef
  deriving DecidableEq, Repr

/-- An assembly. -/
structure Assembly where
  name : String
  framework : Option String
  /-- the first one is the main module -/
  modules : List Module
  deriving DecidableEq, Repr

/-- The name by which the first module of every assembly is known. -/
def mainModule : String := "MainModule"

/-! ## Types and methods -/

namespace TypeDef

/-- The name with the namespace in front of it, if there is one. -/
def fullName (t : TypeDef) : String :=
  if t.namespace_ == "" then t.name else t.namespace_ ++ "." ++ t.name

/-- Everyone may refer to the type. -/
def isPublic (t : TypeDef) : Bool := isPublicType t.flags

/-- The index of the first method with the given name. -/
def resolveMethod? (t : TypeDef) (name : String) : Option Nat :=
  t.methods.findIdx? (·.name == name)

end TypeDef

namespace Method

/-- Everyone may refer to the method. -/
def isPublic (m : Method) : Bool := isPublicMethod m.flags

/-- The method belongs to its type. -/
def isStatic (m : Method) : Bool := isStaticMethod m.flags

/-- The bits of a calling convention of a method with an instance or with type parameters. -/
def boundConvention : UInt8 := 0x30

/-- The signature of a method that takes nothing and gives nothing back: the calling convention, no
parameter, and the code of `void`. -/
def isPlain (m : Method) : Bool :=
  match m.signature with
  | [convention, parameters, result] =>
    parameters == 0 && result == 1 && convention &&& boundConvention == 0
  | _ => false

end Method

/-! ## Modules -/

/-- The place of a method in a module. -/
structure MethodPlace where
  type : Nat
  method : Nat
  deriving DecidableEq, Repr

namespace Module

/-- The module defines a type. -/
def hasAnyType (m : Module) : Bool := !m.types.isEmpty

/-- The index of the first type with the given names. -/
def resolveType? (m : Module) (namespace_ name : String) : Option Nat :=
  m.types.findIdx? fun t => t.namespace_ == namespace_ && t.name == name

/-- The type at a place. -/
def owner? (m : Module) (place : MethodPlace) : Option TypeDef := m.types[place.type]?

/-- The method at a place. -/
def method? (m : Module) (place : MethodPlace) : Option Method :=
  (m.owner? place).bind fun t => t.methods[place.method]?

/-- The names of the type and the method at a place; nothing when there is none. -/
def methodName (m : Module) (place : MethodPlace) : String :=
  match m.owner? place, m.method? place with
  | some t, some f => t.fullName ++ "::" ++ f.name
  | _, _ => ""

/-- The place of the first method with the given name in the first type with the given names. -/
def resolve (m : Module) (namespace_ class_ method : String) : Except Error MethodPlace :=
  match m.resolveType? namespace_ class_ with
  | none => .error (.typeNotFound namespace_ class_)
  | some i =>
    match m.types[i]? with
    | none => .error (.typeNotFound namespace_ class_)
    | some t =>
      match t.resolveMethod? method with
      | some j => .ok ⟨i, j⟩
      | none => .error (.methodNotFound t.fullName method)

/-- The module with another body for the method at a place. -/
def setBody (m : Module) (place : MethodPlace) (body : Option Body) : Module :=
  { m with
    types := m.types.modify place.type fun t =>
      { t with methods := t.methods.modify place.method fun f => { f with body } } }

end Module

/-! ## Assemblies -/

namespace Assembly

/-- The index of a module by its name. -/
def moduleIndex? (a : Assembly) (name : String) : Option Nat :=
  if name == mainModule then
    if a.modules.isEmpty then none else some 0
  else a.modules.findIdx? (·.name == name)

/-- A module by its name. -/
def module? (a : Assembly) (name : String) : Option Module :=
  (a.moduleIndex? name).bind (a.modules[·]?)

/-- The assembly with another module at an index. -/
def setModule (a : Assembly) (index : Nat) (m : Module) : Assembly :=
  { a with modules := a.modules.set index m }

/-- The main module defines a type. -/
def hasAnyType (a : Assembly) : Bool :=
  match a.modules with
  | [] => false
  | m :: _ => m.hasAnyType

end Assembly

/-! ## Methods of other assemblies -/

/-- A method of another assembly. -/
structure ExternalMethod where
  /-- the name of the assembly -/
  scope : String
  owner : TypeDef
  method : Method
  deriving Repr

namespace ExternalMethod

/-- The names of the type and the method. -/
def fullName (e : ExternalMethod) : String := e.owner.fullName ++ "::" ++ e.method.name

/-- The first reason for which the method cannot be called from any place. -/
def uncallable? (e : ExternalMethod) : Option Uncallable :=
  if !e.owner.isPublic then some .typeNotPublic
  else if !e.method.isPublic then some .methodNotPublic
  else if !e.method.isStatic then some .notStatic
  else if !e.method.isPlain then some .notPlain
  else none

/-- The method can be called without arguments from any place and leaves nothing behind. -/
def ensureCallable (e : ExternalMethod) : Except Error Unit :=
  match e.uncallable? with
  | some reason => .error (.notCallable e.fullName reason)
  | none => .ok ()

end ExternalMethod

end CilGraft
