import CilGraft.Proofs.ControlFlow

/-!
# Tail calls at the exits

A call behind the prefix `tail.` takes the place of its caller, and so a return has to follow it.
The calls of the exits are placed right in front of the returns, whatever stands there: a tail call
keeps its prefix and loses its return.

* `behindTail`, `IsTailCall` — the calls behind the prefix, with or without other prefixes in
  between; `TailCallsReturn` — a return follows each of them.
* `behindTail_landing` — what is inserted does not come between a prefix and its call.
* `isTailCall_cases` — a tail call of the new code was one, or is the call of the patch where a
  prefix stood right in front of a return.
* `TailCallsParted` — the tail calls with the call of the patch in front of their returns.
* `tail_calls_of_inject` — **an injection at the exits parts every tail call from its return**, and
  so returns follow the tail calls exactly when there were none.
-/

set_option autoImplicit false

namespace CilGraft

/-! ## Calls behind a prefix -/

namespace OpCode

/-- The opcode modifies the instruction behind it. -/
def isPrefix : OpCode → Bool
  | unaligned | volatile | tail | constrained | no | readonly => true
  | _ => false

/-- The opcodes that `tail.` can stand in front of. -/
def isCall : OpCode → Bool
  | call | calli | callvirt => true
  | _ => false

theorem form_of_isPrefix {op : OpCode} (h : op.isPrefix = true) : op.form = .plain := by
  unfold isPrefix at h
  split at h <;> first | rfl | cases h

theorem form_of_isCall {op : OpCode} (h : op.isCall = true) : op.form = .plain := by
  unfold isCall at h
  split at h <;> first | rfl | cases h

end OpCode

namespace Instruction

/-- The instruction is `tail.` itself. -/
def isTail (i : Instruction) : Bool := i.opcode == .tail

/-- The instruction modifies the one behind it. -/
def isPrefix (i : Instruction) : Bool := i.opcode.isPrefix

/-- The instruction calls a method. -/
def isCall (i : Instruction) : Bool := i.opcode.isCall

theorem isReturn_of_isPrefix {i : Instruction} (h : i.isPrefix = true) : i.isReturn = false := by
  obtain ⟨op, o⟩ := i
  by_contra hret
  obtain rfl : op = .ret := by simpa [isReturn] using hret
  cases h

theorem isReturn_of_isCall {i : Instruction} (h : i.isCall = true) : i.isReturn = false := by
  obtain ⟨op, o⟩ := i
  by_contra hret
  obtain rfl : op = .ret := by simpa [isReturn] using hret
  cases h

end Instruction

/-- There is the prefix `tail.` in front of the index, and between them nothing but prefixes. -/
def behindTail (xs : List Instruction) : Nat → Bool
  | 0 => false
  | k + 1 => xs[k]?.any fun i => i.isTail || i.isPrefix && behindTail xs k

/-- The instruction at the index is a call behind the prefix `tail.`. -/
def IsTailCall (xs : List Instruction) (k : Nat) : Prop :=
  xs[k]?.any Instruction.isCall = true ∧ behindTail xs k = true

instance (xs : List Instruction) : DecidablePred (IsTailCall xs) := fun k =>
  inferInstanceAs (Decidable (xs[k]?.any Instruction.isCall = true ∧ behindTail xs k = true))

/-- Every tail call is immediately followed by a return. -/
def TailCallsReturn (xs : List Instruction) : Prop :=
  ∀ k < xs.length, IsTailCall xs k → xs[k + 1]?.any Instruction.isReturn = true

instance : DecidablePred TailCallsReturn := fun xs =>
  inferInstanceAs (Decidable
    (∀ k < xs.length, IsTailCall xs k → xs[k + 1]?.any Instruction.isReturn = true))

theorem IsTailCall.exists_call {xs : List Instruction} {k : Nat} (h : IsTailCall xs k) :
    ∃ i, xs[k]? = some i ∧ i.isCall = true :=
  (Option.any_eq_true _ _).1 h.1

theorem TailCallsReturn.any_isReturn {xs : List Instruction} (h : TailCallsReturn xs) {k : Nat}
    (hk : IsTailCall xs k) : xs[k + 1]?.any Instruction.isReturn = true := by
  obtain ⟨i, hi, -⟩ := hk.exists_call
  exact h k (List.getElem?_eq_some_iff.1 hi).1 hk

/-! ## What an insertion keeps -/

/-- Of the opcodes whose instructions have one encoding only, an instruction keeps its own when it
still does what it did. -/
theorem opcode_of_operation {p : OpCode → Bool} (hplain : ∀ op, p op = true → op.form = .plain)
    {i j : Instruction} {f : Nat → Nat} (h : j.operation = i.operation.mapTargets f) :
    p j.opcode = p i.opcode := by
  have hoperation {i : Instruction} (hp : p i.opcode = true) :
      i.operation = .other i.opcode i.operand := by
    simp only [Instruction.operation, hplain _ hp]
  rw [Bool.eq_iff_iff]
  constructor
  · intro hp
    rw [hoperation hp] at h
    cases hi : i.operation with
    | other op o =>
      rw [hi] at h
      rw [Instruction.eq_of_operation_other hi, ← (Operation.other.inj h).1]
      exact hp
    | _ =>
      rw [hi] at h
      cases h
  · intro hp
    rw [hoperation hp] at h
    rw [Instruction.eq_of_operation_other h]
    exact hp

section Insertion

variable {b b' : Body} {t : Token} {count : Nat}

/-- An old instruction that is no return stands where control arrives that was to go to it. -/
theorem landing_eq_place {xs : List Instruction} {k : Nat} {i : Instruction} (hk : xs[k]? = some i)
    (hret : i.isReturn = false) : landing xs k = place xs k := by
  rw [place_eq_landing, hk, Option.any_some, hret]
  rfl

/-- An old return is a return at its place, and no other instruction is. -/
theorem any_isReturn_place (h : insertCalls b t .exits = .ok (count, b')) {k : Nat}
    {i : Instruction} (hk : b.code[k]? = some i) :
    b'.code[place b.code k]?.any Instruction.isReturn = i.isReturn := by
  obtain ⟨j, hj, hoperation⟩ := exists_kept_of_insertCalls h hk
  have hj' : b'.code[place b.code k]? = some j := hj
  rw [hj', Option.any_some]
  exact opcode_of_operation (p := (· == .ret)) (fun op hop => by rw [eq_of_beq hop]; rfl) hoperation

/-- What is inserted does not come between a prefix and its call: a call in front of a return stands
behind the same prefixes as the return did. -/
theorem behindTail_landing (h : insertCalls b t .exits = .ok (count, b')) {k : Nat}
    (hk : k ≤ b.code.length) : behindTail b'.code (landing b.code k) = behindTail b.code k := by
  induction k with
  | zero => rfl
  | succ k ih =>
    have hi := List.getElem?_eq_getElem hk
    obtain ⟨j, hj, hoperation⟩ := exists_kept_of_insertCalls h hi
    have htail : j.isTail = b.code[k].isTail :=
      opcode_of_operation (p := (· == .tail))
        (fun op hop => by rw [eq_of_beq hop]; rfl) hoperation
    have hprefix : j.isPrefix = b.code[k].isPrefix :=
      opcode_of_operation (fun _ => OpCode.form_of_isPrefix) hoperation
    have hj' : b'.code[place b.code k]? = some j := hj
    rw [landing_succ, behindTail, behindTail, hi, hj', Option.any_some, Option.any_some, htail,
      hprefix]
    cases hb : b.code[k].isPrefix with
    | false => rfl
    | true =>
      rw [← landing_eq_place hi (Instruction.isReturn_of_isPrefix hb), ih (Nat.le_of_succ_le hk)]

/-- The tail calls of the old code are those of the new code at their places. -/
theorem isTailCall_place_iff (h : insertCalls b t .exits = .ok (count, b')) {k : Nat}
    (hk : k < b.code.length) : IsTailCall b'.code (place b.code k) ↔ IsTailCall b.code k := by
  have hi := List.getElem?_eq_getElem hk
  obtain ⟨j, hj, hoperation⟩ := exists_kept_of_insertCalls h hi
  have hj' : b'.code[place b.code k]? = some j := hj
  have hcall : j.isCall = b.code[k].isCall :=
    opcode_of_operation (fun _ => OpCode.form_of_isCall) hoperation
  unfold IsTailCall
  rw [hi, hj', Option.any_some, Option.any_some, hcall]
  refine and_congr_right fun hc => ?_
  rw [← landing_eq_place hi (Instruction.isReturn_of_isCall hc), behindTail_landing h hk.le]

/-- A tail call of the new code was one, or is the call of the patch where a prefix stood right in
front of a return. -/
theorem isTailCall_cases (h : insertCalls b t .exits = .ok (count, b')) {q : Nat}
    (hq : IsTailCall b'.code q) :
    (∃ k, IsTailCall b.code k ∧ q = place b.code k) ∨
      b'.code[q]? = some (Instruction.call t) ∧
        b'.code[q + 1]?.any Instruction.isReturn = true := by
  obtain ⟨j, hj, -⟩ := hq.exists_call
  have hgrafted := grafted_of_insertCalls h
  by_cases hadded : IsAdded b.code (place b.code) q
  · obtain ⟨k, i, hi, hret, hplace⟩ :=
      hgrafted.nowhereElse rfl q (List.getElem?_eq_some_iff.1 hj).1 hadded
    have hback := any_isReturn_place h hi
    rw [show place b.code k = q + 1 from hplace, hret] at hback
    exact Or.inr ⟨by rw [hj, hgrafted.added q j hj hadded], hback⟩
  · simp only [IsAdded, not_forall, not_not] at hadded
    obtain ⟨k, hk, rfl⟩ := hadded
    exact Or.inl ⟨k, (isTailCall_place_iff h hk).1 hq, rfl⟩

end Insertion

/-! ## Tail calls after an injection -/

/-- Every tail call of the old code is one of the new code, with a call in front of the return that
followed it; what tail calls there are besides are calls in front of a return. -/
structure TailCallsParted (t : Token) (old new : List Instruction) : Prop where
  kept : ∀ k, IsTailCall old k → IsTailCall new (place old k)
  parted : ∀ k, IsTailCall old k → old[k + 1]?.any Instruction.isReturn = true →
    new[place old k + 1]? = some (Instruction.call t) ∧
      new[place old k + 2]?.any Instruction.isReturn = true
  unreturned : ∀ k, IsTailCall old k → new[place old k + 1]?.any Instruction.isReturn = false
  others : ∀ q, IsTailCall new q → (∀ k, IsTailCall old k → place old k ≠ q) →
    new[q]? = some (Instruction.call t) ∧ new[q + 1]?.any Instruction.isReturn = true

/-- Calls that are inserted at the exits part the tail calls from their returns. -/
theorem tailCallsParted_of_insertCalls {b b' : Body} {t : Token} {count : Nat}
    (h : insertCalls b t .exits = .ok (count, b')) : TailCallsParted t b.code b'.code where
  kept k hk := by
    obtain ⟨i, hi, -⟩ := hk.exists_call
    exact (isTailCall_place_iff h (List.getElem?_eq_some_iff.1 hi).1).2 hk
  parted k _ hreturn := by
    obtain ⟨r, hr, hret⟩ := (Option.any_eq_true _ _).1 hreturn
    obtain ⟨q, hplace, -, hcall⟩ := exits_of_insertCalls h hr hret
    have hnext := place_of_isReturn hr hret
    rw [landing_succ] at hnext
    obtain rfl : place b.code k + 1 = q := by omega
    have hback := any_isReturn_place h hr
    rw [hplace, hret] at hback
    exact ⟨hcall, hback⟩
  unreturned k hk := by
    obtain ⟨i, hi, -⟩ := hk.exists_call
    rw [Bool.eq_false_iff]
    intro hreturn
    obtain ⟨r, hr, hret⟩ := (Option.any_eq_true _ _).1 hreturn
    -- a return stands behind an inserted call, and the tail call is not one
    obtain ⟨-, p, hp, hadded, -⟩ := (grafted_of_insertCalls h).returns rfl _ r hr hret
    cases hp
    exact hadded k (List.getElem?_eq_some_iff.1 hi).1 rfl
  others q hq hother := by
    obtain ⟨k, hk, rfl⟩ | hadded := isTailCall_cases h hq
    · exact absurd rfl (hother k hk)
    · exact hadded

/-- Returns follow the tail calls only if there were none. -/
theorem TailCallsParted.return_iff {t : Token} {old new : List Instruction}
    (h : TailCallsParted t old new) : TailCallsReturn new ↔ ∀ k, ¬ IsTailCall old k := by
  constructor
  · intro hnew k hk
    have hreturn := hnew.any_isReturn (h.kept k hk)
    rw [h.unreturned k hk] at hreturn
    cases hreturn
  · intro hnone q _ hq
    exact (h.others q hq fun k hk => absurd hk (hnone k)).2

/-- **An injection at the exits parts every tail call from its return.**  When the injection inserts
calls, every tail call of the body is still one, but where a return followed it there is now the call
of the patch, and the return behind that.  No other tail call comes about, but for calls of the patch
that a return follows.  So returns follow all tail calls of the new body exactly when the old body had
none, even if returns followed all of them.  When the call is in place already, the body is not
changed. -/
theorem tail_calls_of_inject {m m' : Module} {target : MethodPlace} {patch : ExternalMethod}
    {old : Body} {result : Injected} (hbody : m.body? target = some old)
    (h : inject m target patch .exits = (.ok result, m')) :
    ∃ new, m'.body? target = some new ∧
      match result with
      | .alreadyPresent => new = old
      | .inserted _ => ∃ t, (m.import_ patch).1 = .ok t ∧ TailCallsParted t old.code new.code ∧
          (TailCallsReturn new.code ↔ ∀ k, ¬ IsTailCall old.code k) := by
  cases result with
  | alreadyPresent =>
    obtain ⟨rfl, -, -⟩ := inject_alreadyPresent_iff.1 h
    exact ⟨old, hbody, rfl⟩
  | inserted count =>
    obtain ⟨b, t, m₁, new, hb, -, -, himport, hinsert, rfl⟩ := inject_cases h
    obtain rfl := Option.some.inj (hb.symm.trans hbody)
    have htypes := m.types_import_ patch
    rw [himport] at htypes
    have hparted := tailCallsParted_of_insertCalls hinsert
    refine ⟨new, ?_, t, by rw [himport], hparted, hparted.return_iff⟩
    exact Module.body?_setBody new ((Module.body?_congr htypes target).trans hb)

/-- A module with one method. -/
def lastCaller (code : List Instruction) : Module :=
  ⟨"Game", [⟨⟨0x02000001⟩, "", "Player", 1,
    [⟨⟨0x06000001⟩, "Update", 6, [0x20, 0, 1], some ⟨8, ⟨0⟩, false, code, []⟩⟩]⟩], [], []⟩

/-- A method that can be called at any exit. -/
def afterHook : ExternalMethod :=
  ⟨"Patch", ⟨⟨0x02000001⟩, "", "Hooks", 1, []⟩, ⟨⟨0x06000001⟩, "After", 0x16, [0, 0, 1], none⟩⟩

/-- A tail call behind two prefixes, and another exit to which a branch leads. -/
theorem tail_calls_of_inject_constrained :
    let code : List Instruction :=
      [.plain .ldarg0, ⟨.brfalseS, .target 6⟩, .plain .tail, ⟨.constrained, .token ⟨0x1B000001⟩⟩,
        ⟨.callvirt, .token ⟨0x0A000001⟩⟩, .plain .ret, .plain .ret]
    let m := lastCaller code
    TailCallsReturn code ∧ (inject m ⟨0, 0⟩ afterHook .exits).1 = .ok (.inserted 2) ∧
      ∃ new, (inject m ⟨0, 0⟩ afterHook .exits).2.body? ⟨0, 0⟩ = some new ∧
        ∃ t, (m.import_ afterHook).1 = .ok t ∧ TailCallsParted t code new.code ∧
          (TailCallsReturn new.code ↔ ∀ k, ¬ IsTailCall code k) := by
  intro code m
  have htail : TailCallsReturn code := by decide
  have h : (inject m ⟨0, 0⟩ afterHook .exits).1 = .ok (.inserted 2) :=
    eq_ok_of_toOption (by decide +kernel)
  have hbody : m.body? ⟨0, 0⟩ = some ⟨8, ⟨0⟩, false, code, []⟩ := rfl
  have hinject : inject m ⟨0, 0⟩ afterHook .exits =
      (.ok (.inserted 2), (inject m ⟨0, 0⟩ afterHook .exits).2) := by rw [← h]
  exact ⟨htail, h, tail_calls_of_inject hbody hinject⟩

/-- The call of the patch stands between a tail call and its return. -/
theorem tail_call_without_return :
    let code : List Instruction := [.plain .tail, ⟨.call, .token ⟨0x06000001⟩⟩, .plain .ret]
    let m := lastCaller code
    TailCallsReturn code ∧ (inject m ⟨0, 0⟩ afterHook .exits).1 = .ok (.inserted 1) ∧
      ∃ new, (inject m ⟨0, 0⟩ afterHook .exits).2.body? ⟨0, 0⟩ = some new ∧
        ¬ TailCallsReturn new.code := by
  intro code m
  have hnew : (inject m ⟨0, 0⟩ afterHook .exits).2.body? ⟨0, 0⟩ =
      some ⟨8, ⟨0⟩, false, [.plain .tail, ⟨.call, .token ⟨0x06000001⟩⟩, .call ⟨0x0A000001⟩,
        .plain .ret], []⟩ := by rfl
  exact ⟨by decide, by rfl, _, hnew, by decide⟩

end CilGraft
