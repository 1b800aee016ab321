import CilGraft.Metadata.Import

/-!
# Injection

A patch is a call of an external method, put into a body at its entry or in front of every return.
A body that has the call already is left alone.

* `Location` — at the entry, or at every exit.
* `isInjected` — the body has the call at the location. At the entry the first instruction decides.
  At the exits the last call of the method decides: it counts unless it is the first instruction,
  which is the call of the entry, and no return follows.
* `insertCalls` — the body with the calls, worked out on canonical forms and compacted again.
* `inject` — the calls inserted into a method of a module. The body of the method is replaced last,
  when all other steps have succeeded.

The insertions take the index behind another one as a parameter: `nextIndex` for indices of machine
words, and for indices without a largest one the successor, which is meant when nothing is given.
-/

set_option autoImplicit false

namespace CilGraft

/-- Where a call is inserted. -/
inductive Location where
  /-- once, in front of the first instruction -/
  | entry
  /-- in front of every return -/
  | exits
  deriving DecidableEq, Repr

namespace Location

/-- The locations, in the order in which a message lists them. -/
def all : List Location := [.entry, .exits]

/-- The value that names the location in a header. -/
def name : Location → String
  | .entry => "Prefix"
  | .exits => "Postfix"

/-- The location with the given name. -/
def ofName? (s : String) : Option Location := all.find? (·.name == s)

end Location

/-- What an injection did. -/
inductive Injected where
  | inserted (count : Nat)
  | alreadyPresent
  deriving DecidableEq, Repr

/-- The index of the last call of a method, for instructions from `index` on. -/
def lastCallFrom (t : Token) (index : Nat) : List Instruction → Option Nat
  | [] => none
  | i :: rest =>
    match lastCallFrom t (index + 1) rest with
    | some found => some found
    | none => if i.isCallTo t then some index else none

/-- The body has the call at the location. -/
def isInjected (b : Body) (t : Token) : Location → Bool
  | .entry =>
    match b.code with
    | [] => false
    | first :: _ => first.isCallTo t
  | .exits =>
    match lastCallFrom t 0 b.code with
    | none => false
    | some 0 =>
      match b.code with
      | _ :: second :: _ => second.isReturn
      | _ => false
    | some _ => true

/-- The call inserted in front of the instructions at the indices, one after the other. What went to
such an instruction now goes to the call. -/
def insertOnEntries (next : Nat → Nat) (t : Token) : List Nat → Body → Except CodeError Body
  | [], b => .ok b
  | at_ :: rest, b =>
    match b.insertOnEntryBy next at_ (Instruction.call t) with
    | .error e => .error e
    | .ok b => insertOnEntries next t rest b

/-- The number of calls and the body with them, in canonical forms. At the exits the last return
comes first, so that the other indices stay valid. -/
def placeCalls (b : Body) (t : Token) (l : Location) (next : Nat → Nat := Nat.succ) :
    Except CodeError (Nat × Body) :=
  match l with
  | .entry =>
    match b.insertBeforeBy next 0 (Instruction.call t) with
    | .error e => .error e
    | .ok b => .ok (1, b)
  | .exits =>
    match insertOnEntries next t b.returns.reverse b with
    | .error e => .error e
    | .ok placed => .ok (b.returns.length, placed)

/-- The number of calls and the body with them, in compact forms. -/
def insertCalls (b : Body) (t : Token) (l : Location) (next : Nat → Nat := Nat.succ) :
    Except CodeError (Nat × Body) :=
  match placeCalls b.expandAll t l next with
  | .error e => .error e
  | .ok (count, placed) =>
    match placed.optimize with
    | (_, .error e) => .error e
    | (compacted, .ok ()) => .ok (count, compacted)

/-- The body of a method that has instructions. -/
def patchableBody (m : Module) (target : MethodPlace) : Except Error Body :=
  match m.method? target with
  | none =>
    .error (.methodNotFound (((m.owner? target).map TypeDef.fullName).getD "")
      ("#" ++ numeral target.method))
  | some f =>
    match f.body with
    | none => .error (.notPatchable (m.methodName target))
    | some b => if b.isEmpty then .error (.notPatchable (m.methodName target)) else .ok b

/-- The call of the patch is in the body already. -/
def isPresent (m : Module) (b : Body) (patch : ExternalMethod) (l : Location) : Bool :=
  match m.findImport? patch with
  | none => false
  | some t => isInjected b t l

/-- The calls of a patch inserted into a method of a module. -/
def inject (m : Module) (target : MethodPlace) (patch : ExternalMethod) (l : Location)
    (next : Nat → Nat := Nat.succ) : Except Error Injected × Module :=
  match patchableBody m target with
  | .error e => (.error e, m)
  | .ok b =>
    match patch.ensureCallable with
    | .error e => (.error e, m)
    | .ok () =>
      if isPresent m b patch l then (.ok .alreadyPresent, m)
      else if l = .exits ∧ b.returns = [] then
        (.error (.instructionNotFound (m.methodName target) OpCode.ret.mnemonic), m)
      else
        match m.import_ patch with
        | (.error e, m) => (.error e, m)
        | (.ok t, m) =>
          match insertCalls b t l next with
          | .error e => (.error (.code e), m)
          | .ok (count, b) => (.ok (.inserted count), m.setBody target (some b))

end CilGraft
