import CilGraft.Proofs.ParsedBodies
import CilGraft.Proofs.TruncatedBodies

/-!
# Reading sections stays inside of the data

The sizes of sections come from the data and are believed only after a look at how many bytes there
are. The loop over the sections is followed here access by access: each slice, each word of a clause
and each difference of sizes is checked, and one that goes wrong is a fault of its own.

* `Stray` — an access that goes wrong.
* `SectionLoop.turn`, `SectionLoop.run` — one turn of the loop, and a number of turns.
* `SectionLoop.Agree` — a clause read in the data at a cursor is the one read from the bytes there.
* `SectionLoop.turn_spec` — no turn strays, and what a turn comes to.
* `SectionLoop.inside_data` — **no access strays, the loop ends, and it returns at most one clause for
  every twelve bytes.**
-/

set_option autoImplicit false

namespace CilGraft

/-- An access of the loop over the sections that goes wrong. -/
inductive Stray where
  /-- a slice that starts behind the end of the data -/
  | slice (start : Nat)
  /-- a slice that is shorter than the word that is read from it -/
  | front (start width : Nat)
  /-- a word of a clause that reaches beyond the end of its section or of the data -/
  | word (offset width : Nat)
  /-- a difference of sizes that is negative -/
  | difference (a b : Nat)
  deriving DecidableEq, Repr

namespace SectionLoop

/-! ## The loop, access by access -/

/-- The data from an offset on. -/
def sliceFrom (data : Bytes) (start : Nat) : Except Stray Bytes :=
  if start ≤ data.length then .ok (data.drop start) else .error (.slice start)

/-- The word at the front of the data from an offset on. -/
def frontWord (α : Type) [Word α] (data : Bytes) (start : Nat) : Except Stray α := do
  let slice ← sliceFrom data start
  match readFirst? α slice with
  | some (v, _) => .ok v
  | none => .error (.front start (Word.width α))

/-- The difference of two sizes. -/
def minus (a b : Nat) : Except Stray Nat := if b ≤ a then .ok (a - b) else .error (.difference a b)

/-- The word at the cursor, in a section that ends at `stop`. -/
def next (α : Type) [Word α] (stop : Nat) (c : Cursor) : Except Stray (α × Cursor) :=
  if c.offset + Word.width α ≤ stop then
    match c.read α with
    | (some v, c') => .ok (v, c')
    | (none, _) => .error (.word c.offset (Word.width α))
  else .error (.word c.offset (Word.width α))

/-- The small clause at the cursor. -/
def smallClause (stop : Nat) (c : Cursor) : Except Stray (Clause × Cursor) := do
  let (flags, c) ← next UInt16 stop c
  let (tryOffset, c) ← next UInt16 stop c
  let (tryLength, c) ← next UInt8 stop c
  let (handlerOffset, c) ← next UInt16 stop c
  let (handlerLength, c) ← next UInt8 stop c
  let (extra, c) ← next UInt32 stop c
  .ok (⟨HandlerFlags.ofNat flags.toNat, tryOffset.toUInt32, tryLength.toUInt32,
    handlerOffset.toUInt32, handlerLength.toUInt32, extra⟩, c)

/-- The fat clause at the cursor. -/
def fatClause (stop : Nat) (c : Cursor) : Except Stray (Clause × Cursor) := do
  let (flags, c) ← next UInt32 stop c
  let (tryOffset, c) ← next UInt32 stop c
  let (tryLength, c) ← next UInt32 stop c
  let (handlerOffset, c) ← next UInt32 stop c
  let (handlerLength, c) ← next UInt32 stop c
  let (extra, c) ← next UInt32 stop c
  .ok (⟨HandlerFlags.ofNat flags.toNat, tryOffset, tryLength, handlerOffset, handlerLength, extra⟩,
    c)

/-- A number of clauses at the cursor. -/
def clauses (read : Cursor → Except Stray (Clause × Cursor)) :
    Nat → Cursor → Except Stray (List Clause)
  | 0, _ => .ok []
  | count + 1, c => do
    let (clause, c) ← read c
    let others ← clauses read count c
    .ok (clause :: others)

/-- The size in the header of the section at an offset. -/
def sizeAt (data : Bytes) (cursor : Nat) (fat : Bool) : Except Stray Nat :=
  if fat then do
    let word ← frontWord UInt32 data cursor
    .ok (word.toNat / 256)
  else do
    let byte ← frontWord UInt8 data (cursor + 1)
    .ok byte.toNat

/-- The clauses of the section at an offset, which has the given size. -/
def clausesAt (data : Bytes) (cursor size : Nat) (fat : Bool) : Except Stray (List Clause) := do
  let room ← minus size sectionHeaderSize
  let start : Cursor := ⟨data, cursor + sectionHeaderSize⟩
  if fat then clauses (fatClause (cursor + size)) (room / fatClauseSize) start
  else clauses (smallClause (cursor + size)) (room / smallClauseSize) start

/-- What a turn of the loop comes to. -/
inductive Turn where
  /-- there is no section any more -/
  | ended
  /-- the size of the section is out of bounds -/
  | refused
  /-- the clauses of the last section -/
  | last (clauses : List Clause)
  /-- the clauses of a section, and where the next turn starts -/
  | more (clauses : List Clause) (next : Nat)
  deriving DecidableEq, Repr

/-- One turn of the loop. -/
def turn (data : Bytes) (cursor : Nat) : Except Stray Turn :=
  if data.length < cursor + sectionHeaderSize then .ok .ended
  else do
    let flags ← frontWord UInt8 data cursor
    if flags.toNat.testBit sectionHasClauses then
      let size ← sizeAt data cursor (flags.toNat.testBit sectionIsFat)
      if size < sectionHeaderSize ∨ data.length < cursor + size then .ok .refused
      else
        let found ← clausesAt data cursor size (flags.toNat.testBit sectionIsFat)
        if flags.toNat.testBit sectionGoesOn then .ok (.more found (align4 (cursor + size)))
        else .ok (.last found)
    else .ok .ended

/-- The loop from a cursor on; none when it is still under way after the given number of turns. -/
def run (data : Bytes) : Nat → Nat → Except Stray (Option (Except CodeError (List Clause)))
  | 0, _ => .ok none
  | turns + 1, cursor => do
    match ← turn data cursor with
    | .ended => .ok (some (.ok []))
    | .refused => .ok (some (.error .outOfBounds))
    | .last found => .ok (some (.ok found))
    | .more found next =>
      let rest ← run data turns next
      .ok (rest.map fun outcome => do
        let others ← outcome
        .ok (found ++ others))

/-! ## Clauses -/

/-- What is read at a cursor, in a section that ends at `stop`, is what is read from the bytes there,
and takes the given number of bytes. -/
def Agree {α : Type} (size stop : Nat) (read : Cursor → Except Stray (α × Cursor))
    (stream : Bytes → Except CodeError (α × Bytes)) : Prop :=
  ∀ c : Cursor, c.offset + size ≤ stop → stop ≤ c.data.length →
    c.data.length < 0x10000000000000000 →
    ∃ v, read c = .ok (v, ⟨c.data, c.offset + size⟩) ∧
      stream (c.data.drop c.offset) = .ok (v, c.data.drop (c.offset + size))

section Clauses

variable {α β : Type} {size size' stop : Nat}

theorem Agree.pure (v : α) :
    Agree 0 stop (fun c => .ok (v, c)) (fun bytes => .ok (v, bytes)) := fun _ _ _ _ => ⟨v, rfl, rfl⟩

theorem Agree.bind {read : Cursor → Except Stray (α × Cursor)}
    {stream : Bytes → Except CodeError (α × Bytes)} {read' : α → Cursor → Except Stray (β × Cursor)}
    {stream' : α → Bytes → Except CodeError (β × Bytes)} (h : Agree size stop read stream)
    (h' : ∀ v, Agree size' stop (read' v) (stream' v)) :
    Agree (size + size') stop (fun c => read c >>= fun r => read' r.1 r.2)
      (fun bytes => stream bytes >>= fun r => stream' r.1 r.2) := by
  intro c hroom hstop hdata
  obtain ⟨v, hread, hstream⟩ := h c (by omega) hstop hdata
  obtain ⟨w, hread', hstream'⟩ := h' v ⟨c.data, c.offset + size⟩
    (show c.offset + size + size' ≤ stop by omega) hstop hdata
  refine ⟨w, ?_, ?_⟩
  · show (read c >>= fun r => read' r.1 r.2) = _
    rw [hread, ← Nat.add_assoc]
    exact hread'
  · show (stream (c.data.drop c.offset) >>= fun r => stream' r.1 r.2) = _
    rw [hstream, ← Nat.add_assoc]
    exact hstream'

/-- A word that lies in its section is read, and does not stray. -/
theorem agree_next (α : Type) [Word α] :
    Agree (Word.width α) stop (next α stop) (readWord α) := by
  intro c hroom hstop hdata
  have hfits : c.Fits (Word.width α) := ⟨by omega, by omega⟩
  obtain ⟨front, old, back, hparts, hoffset, hold⟩ := Cursor.exists_parts hfits
  have hword : Word.toBytes (Word.ofBytes α old) = old := Word.toBytes_ofBytes hold
  have hread : c.read α = (some (Word.ofBytes α old), ⟨c.data, c.offset + Word.width α⟩) :=
    Cursor.read_of_parts (by rw [hword, hparts]) hoffset hfits.1
  refine ⟨Word.ofBytes α old, ?_, ?_⟩
  · rw [next, if_pos hroom, hread]
  · have hhere : c.data.drop c.offset = Word.toBytes (Word.ofBytes α old) ++ back := by
      rw [hparts, hoffset, List.drop_left, hword]
    rw [← List.drop_drop, hhere, readWord_append, hword, ← hold, List.drop_left]

theorem agree_smallClause : Agree smallClauseSize stop (smallClause stop) readSmall :=
  (agree_next UInt16).bind fun flags => (agree_next UInt16).bind fun tryOffset =>
    (agree_next UInt8).bind fun tryLength => (agree_next UInt16).bind fun handlerOffset =>
    (agree_next UInt8).bind fun handlerLength => (agree_next UInt32).bind fun extra =>
    Agree.pure (Clause.mk (HandlerFlags.ofNat flags.toNat) tryOffset.toUInt32 tryLength.toUInt32
      handlerOffset.toUInt32 handlerLength.toUInt32 extra)

theorem agree_fatClause : Agree fatClauseSize stop (fatClause stop) readFat :=
  (agree_next UInt32).bind fun flags => (agree_next UInt32).bind fun tryOffset =>
    (agree_next UInt32).bind fun tryLength => (agree_next UInt32).bind fun handlerOffset =>
    (agree_next UInt32).bind fun handlerLength => (agree_next UInt32).bind fun extra =>
    Agree.pure (Clause.mk (HandlerFlags.ofNat flags.toNat) tryOffset tryLength handlerOffset
      handlerLength extra)

/-- Clauses that lie in their section one behind the other are read, and do not stray. -/
theorem exists_clauses {read : Cursor → Except Stray (Clause × Cursor)}
    {stream : Bytes → Except CodeError (Clause × Bytes)} (h : Agree size stop read stream)
    {count : Nat} {c : Cursor} (hroom : c.offset + count * size ≤ stop)
    (hstop : stop ≤ c.data.length) (hdata : c.data.length < 0x10000000000000000) :
    ∃ cs, clauses read count c = .ok cs ∧
      readClauses stream count (c.data.drop c.offset) = .ok cs ∧ cs.length = count := by
  induction count generalizing c with
  | zero => exact ⟨[], rfl, rfl, rfl⟩
  | succ count ih =>
    rw [Nat.succ_mul] at hroom
    obtain ⟨clause, hread, hstream⟩ := h c (by omega) hstop hdata
    obtain ⟨cs, hreads, hstreams, hcount⟩ := ih (c := ⟨c.data, c.offset + size⟩)
      (show c.offset + size + count * size ≤ stop by omega) hstop hdata
    exact ⟨clause :: cs, bind_eq_ok_iff.2 ⟨_, hread, bind_eq_ok_iff.2 ⟨_, hreads, rfl⟩⟩,
      bind_eq_ok_iff.2 ⟨_, hstream, bind_eq_ok_iff.2 ⟨_, hstreams, rfl⟩⟩, congrArg Nat.succ hcount⟩

end Clauses

/-! ## Sections -/

section Sections

variable {data : Bytes} {cursor : Nat}

/-- A byte is its own encoding. -/
theorem toBytes_byte (b : UInt8) : Word.toBytes b = [b] := by
  show leBytes 1 b.toNat = [b]
  simp [leBytes]

/-- The bits of a word that is read are those of its bytes. -/
theorem toNat_ofBytes {α : Type} [Word α] {bytes : Bytes} (h : bytes.length = Word.width α) :
    Word.toNat (Word.ofBytes α bytes) = leValue bytes := by
  have hlt := leValue_lt bytes
  rw [h] at hlt
  rw [Word.ofBytes, Word.toNat_ofNat, Nat.mod_eq_of_lt hlt]

/-- The front of a slice is read when there are enough bytes. -/
theorem frontWord_eq {α : Type} [Word α] {v : α} {rest : Bytes} (hstart : cursor ≤ data.length)
    (hfront : readFirst? α (data.drop cursor) = some (v, rest)) :
    frontWord α data cursor = .ok v := by
  refine bind_eq_ok_iff.2 ⟨data.drop cursor, if_pos hstart, ?_⟩
  rw [hfront]

/-- The four bytes of the header of a section are there. -/
theorem exists_header (hroom : cursor + sectionHeaderSize ≤ data.length) :
    ∃ flags a b c rest, data.drop cursor = flags :: a :: b :: c :: rest := by
  have hlen : (data.drop cursor).length = data.length - cursor := List.length_drop
  simp only [sectionHeaderSize] at hroom
  generalize data.drop cursor = piece at hlen
  rcases piece with _ | ⟨flags, _ | ⟨a, _ | ⟨b, _ | ⟨c, rest⟩⟩⟩⟩
  case cons.cons.cons.cons => exact ⟨flags, a, b, c, rest, rfl⟩
  all_goals
    simp only [List.length_cons, List.length_nil] at hlen
    omega

/-- The flags of a section are read. -/
theorem flagsAt_eq (hroom : cursor + sectionHeaderSize ≤ data.length) :
    frontWord UInt8 data cursor = .ok ((data.drop cursor).headD 0) := by
  obtain ⟨flags, a, b, c, rest, hheader⟩ := exists_header hroom
  have hword := readFirst?_toBytes_append flags (a :: b :: c :: rest)
  rw [toBytes_byte] at hword
  rw [hheader]
  exact frontWord_eq (by omega) (by rw [hheader]; exact hword)

/-- The size of a section is read, in either format. -/
theorem sizeAt_eq (hroom : cursor + sectionHeaderSize ≤ data.length) :
    sizeAt data cursor (((data.drop cursor).headD 0).toNat.testBit sectionIsFat) =
      .ok (sectionSize (data.drop cursor)) := by
  obtain ⟨flags, a, b, c, rest, hheader⟩ := exists_header hroom
  simp only [sectionHeaderSize] at hroom
  rw [sizeAt, hheader, sectionSize, List.headD_cons]
  split
  · have hword : frontWord UInt32 data cursor = .ok (Word.ofBytes UInt32 [flags, a, b, c]) :=
      frontWord_eq (by omega)
        (show readFirst? UInt32 (data.drop cursor) = some (_, rest) by rw [hheader]; rfl)
    have hbits : (Word.ofBytes UInt32 [flags, a, b, c]).toNat = leValue [flags, a, b, c] :=
      toNat_ofBytes (α := UInt32) rfl
    have hflags : flags.toNat < 256 := flags.toNat_lt
    refine bind_eq_ok_iff.2 ⟨_, hword, congrArg Except.ok ?_⟩
    rw [hbits, leValue]
    show (flags.toNat + 256 * leValue [a, b, c]) / 256 = leValue [a, b, c]
    omega
  · have hbyte : frontWord UInt8 data (cursor + 1) = .ok (Word.ofBytes UInt8 [a]) :=
      frontWord_eq (by omega)
        (show readFirst? UInt8 (data.drop (cursor + 1)) = some (_, b :: c :: rest) by
          rw [← List.drop_drop, hheader]
          rfl)
    refine bind_eq_ok_iff.2 ⟨_, hbyte, congrArg Except.ok ?_⟩
    exact toNat_ofBytes (α := UInt8) rfl

/-- The clauses of a section that lies in the data are read and do not stray, and take twelve bytes
each at least. -/
theorem exists_clausesAt {size : Nat} (hsize : sectionHeaderSize ≤ size)
    (hroom : cursor + size ≤ data.length) (hdata : data.length < 0x10000000000000000) :
    ∃ found, clausesAt data cursor size
        (((data.drop cursor).headD 0).toNat.testBit sectionIsFat) = .ok found ∧
      sectionClauses (data.drop cursor) size = .ok found ∧
      sectionHeaderSize + found.length * smallClauseSize ≤ size := by
  have hminus : minus size sectionHeaderSize = .ok (size - sectionHeaderSize) := if_pos hsize
  have hbody : (data.drop cursor).drop sectionHeaderSize = data.drop (cursor + sectionHeaderSize) :=
    List.drop_drop
  have hfit : ∀ n, (size - sectionHeaderSize) / n * n ≤ size - sectionHeaderSize := fun n =>
    Nat.div_mul_le_self _ n
  simp only [clausesAt, sectionClauses, hminus, hbody]
  cases ((data.drop cursor).headD 0).toNat.testBit sectionIsFat with
  | true =>
    have hlen := hfit fatClauseSize
    obtain ⟨found, hread, hstream, hcount⟩ := exists_clauses (c := ⟨data, cursor + sectionHeaderSize⟩)
      agree_fatClause
      (show cursor + sectionHeaderSize + (size - sectionHeaderSize) / fatClauseSize * fatClauseSize ≤
        cursor + size by omega) hroom hdata
    refine ⟨found, hread, hstream, ?_⟩
    rw [hcount]
    simp only [fatClauseSize, smallClauseSize] at hlen ⊢
    omega
  | false =>
    have hlen := hfit smallClauseSize
    obtain ⟨found, hread, hstream, hcount⟩ := exists_clauses (c := ⟨data, cursor + sectionHeaderSize⟩)
      agree_smallClause
      (show cursor + sectionHeaderSize +
        (size - sectionHeaderSize) / smallClauseSize * smallClauseSize ≤ cursor + size by omega)
      hroom hdata
    refine ⟨found, hread, hstream, ?_⟩
    rw [hcount]
    omega

/-! ## Turns -/

/-- What a turn says about the sections from its cursor on. A turn that reads clauses has passed the
header of their section and the clauses themselves, and the next section starts close to the data. -/
def Turn.Sound (data : Bytes) (cursor : Nat) : Turn → Prop
  | .ended => readSections data cursor = .ok []
  | .refused => readSections data cursor = .error .outOfBounds
  | .last found => readSections data cursor = .ok found ∧
    cursor + sectionHeaderSize + found.length * smallClauseSize ≤ data.length
  | .more found next =>
    (readSections data cursor = do
      let others ← readSections data next
      .ok (found ++ others)) ∧
    cursor + sectionHeaderSize + found.length * smallClauseSize ≤ min next data.length ∧
    next < data.length + sectionHeaderSize

theorem le_align4 (n : Nat) : n ≤ align4 n ∧ align4 n < n + 4 := by
  unfold align4
  omega

/-- A section whose clauses are read is the last one, or the next one is read behind it. -/
theorem readSections_of_clauses {found : List Clause}
    (hlong : sectionHeaderSize ≤ (data.drop cursor).length)
    (hclauses : ((data.drop cursor).headD 0).toNat.testBit sectionHasClauses = true)
    (hin : ¬ (sectionSize (data.drop cursor) < sectionHeaderSize ∨
      (data.drop cursor).length < sectionSize (data.drop cursor)))
    (hstream : sectionClauses (data.drop cursor) (sectionSize (data.drop cursor)) = .ok found) :
    readSections data cursor =
      if ((data.drop cursor).headD 0).toNat.testBit sectionGoesOn then do
        let others ← readSections data (align4 (cursor + sectionSize (data.drop cursor)))
        .ok (found ++ others)
      else .ok found := by
  rw [readSections, dif_neg (Nat.not_lt.2 hlong), if_pos hclauses, dif_neg hin, hstream]
  rfl

/-- **No turn strays**, and what it comes to is sound. -/
theorem turn_spec (hdata : data.length < 0x10000000000000000) (cursor : Nat) :
    ∃ t, turn data cursor = .ok t ∧ t.Sound data cursor := by
  have hlen : (data.drop cursor).length = data.length - cursor := List.length_drop
  by_cases hshort : data.length < cursor + sectionHeaderSize
  · exact ⟨.ended, if_pos hshort, readSections_of_short hshort⟩
  have hroom : cursor + sectionHeaderSize ≤ data.length := Nat.not_lt.1 hshort
  have hlong : ¬ (data.drop cursor).length < sectionHeaderSize := by
    rw [hlen]
    omega
  have hsize := sizeAt_eq hroom
  rw [turn, if_neg hshort, flagsAt_eq hroom]
  simp only [bind, Except.bind]
  split
  case isFalse hnone =>
    refine ⟨.ended, rfl, ?_⟩
    show readSections data cursor = .ok []
    rw [readSections, dif_neg hlong, if_neg hnone]
  case isTrue hclauses =>
  rw [hsize]
  dsimp only
  split
  case isTrue hout =>
    refine ⟨.refused, rfl, ?_⟩
    show readSections data cursor = .error .outOfBounds
    rw [readSections, dif_neg hlong, if_pos hclauses, dif_pos (by omega)]
  case isFalse hin =>
  obtain ⟨found, hread, hstream, hcount⟩ := exists_clausesAt
    (show sectionHeaderSize ≤ sectionSize (data.drop cursor) by omega)
    (show cursor + sectionSize (data.drop cursor) ≤ data.length by omega) hdata
  have hsections := readSections_of_clauses (Nat.not_lt.1 hlong) hclauses (by omega) hstream
  rw [hread]
  dsimp only
  have halign := le_align4 (cursor + sectionSize (data.drop cursor))
  split
  case isTrue hmore =>
    rw [if_pos hmore] at hsections
    exact ⟨_, rfl, hsections, by omega, by simp only [sectionHeaderSize]; omega⟩
  case isFalse hlast =>
    rw [if_neg hlast] at hsections
    exact ⟨_, rfl, hsections, by omega⟩

end Sections

/-! ## Runs -/

section Runs

variable {data : Bytes} (hdata : data.length < 0x10000000000000000)

include hdata

/-- A cursor moves past a header in every turn that goes on. -/
theorem next_of_turn {cursor next : Nat} {found : List Clause}
    (h : turn data cursor = .ok (.more found next)) :
    cursor + sectionHeaderSize ≤ next ∧ next < data.length + sectionHeaderSize := by
  obtain ⟨t, hturn, hsound⟩ := turn_spec hdata cursor
  cases h.symm.trans hturn
  obtain ⟨-, hnext, hclose⟩ := hsound
  exact ⟨by omega, hclose⟩

/-- **The loop ends without straying**, as what `readSections` says, when it has a turn for every four
bytes that are left, and one more. -/
theorem run_eq {turns cursor : Nat} (h : (data.length - cursor) / sectionHeaderSize < turns) :
    run data turns cursor = .ok (some (readSections data cursor)) := by
  -- A turn that goes on uses up four bytes at least.
  induction turns generalizing cursor with
  | zero => exact absurd h (Nat.not_lt_zero _)
  | succ turns ih =>
    obtain ⟨t, hturn, hsound⟩ := turn_spec hdata cursor
    rw [run, hturn]
    cases t with
    | ended => exact congrArg (Except.ok ∘ some) hsound.symm
    | refused => exact congrArg (Except.ok ∘ some) hsound.symm
    | last found => exact congrArg (Except.ok ∘ some) hsound.1.symm
    | more found next =>
      obtain ⟨hsections, hnext, hclose⟩ := hsound
      have hrest : run data turns next = .ok (some (readSections data next)) :=
        ih (by simp only [sectionHeaderSize] at *; omega)
      simp only [bind, Except.bind, hrest, Option.map_some]
      exact congrArg (Except.ok ∘ some) hsections.symm

/-- The only error is that of a size, and every clause takes twelve bytes. -/
theorem readSections_bound (cursor : Nat) :
    (∀ e, readSections data cursor = .error e → e = .outOfBounds) ∧
      ∀ clauses, readSections data cursor = .ok clauses →
        clauses.length * smallClauseSize ≤ data.length - cursor := by
  -- The recursion is that of the loop: a turn that goes on has a later cursor.
  induction hleft : data.length - cursor using Nat.strongRecOn generalizing cursor with
  | _ left ih =>
    obtain ⟨t, -, hsound⟩ := turn_spec hdata cursor
    cases t with
    | ended =>
      have hnone : readSections data cursor = .ok [] := hsound
      rw [hnone]
      refine ⟨fun _ h => (by cases h), fun clauses h => ?_⟩
      cases h
      exact Nat.zero_mul smallClauseSize ▸ Nat.zero_le left
    | refused =>
      have hout : readSections data cursor = .error .outOfBounds := hsound
      rw [hout]
      refine ⟨fun e h => ?_, fun _ h => (by cases h)⟩
      cases h
      rfl
    | last found =>
      obtain ⟨hsections, hcount⟩ := hsound
      rw [hsections]
      refine ⟨fun _ h => (by cases h), fun clauses h => ?_⟩
      cases h
      omega
    | more found next =>
      obtain ⟨hsections, hnext, hclose⟩ := hsound
      simp only [sectionHeaderSize] at hnext
      obtain ⟨herror, hbound⟩ := ih (data.length - next) (by omega) next rfl
      rw [hsections]
      constructor
      · intro e h
        obtain h | ⟨others, -, h⟩ := bind_eq_error_iff.1 h
        · exact herror e h
        · cases h
      · intro clauses h
        obtain ⟨others, hothers, h⟩ := bind_eq_ok_iff.1 h
        cases h
        have hothers := hbound others hothers
        rw [List.length_append, Nat.add_mul]
        omega

end Runs

theorem length_of_bindClauses {offsets : List Nat} {cs : List Clause} {hs : List Handler}
    (hbind : bindClauses offsets cs = .ok hs) : hs.length = cs.length := by
  induction cs generalizing hs with
  | nil =>
    cases hbind
    rfl
  | cons c cs ih =>
    obtain ⟨h, -, hbind⟩ := bind_eq_ok_iff.1 hbind
    obtain ⟨others, hothers, hbind⟩ := bind_eq_ok_iff.1 hbind
    cases hbind
    exact congrArg Nat.succ (ih hothers)

/-- **Reading sections stays inside of the data.** From every cursor no slice, no word of a clause and
no difference of sizes strays, and the loop ends as `readSections` says after a turn for every four
bytes at most; a turn that goes on moves the cursor by four bytes at least, to a place near the data.
The only error is that of a size which is out of bounds, and there is at most one clause for every
twelve bytes, so that a parsed body has no more handlers than that. -/
theorem inside_data (data : Bytes) (hdata : data.length < 0x10000000000000000) :
    (∀ cursor turns, data.length / 4 < turns →
      run data turns cursor = .ok (some (readSections data cursor))) ∧
    (∀ cursor found next, turn data cursor = .ok (.more found next) →
      cursor + 4 ≤ next ∧ next < data.length + 4) ∧
    (∀ cursor e, readSections data cursor = .error e → e = .outOfBounds) ∧
    (∀ cursor clauses, readSections data cursor = .ok clauses →
      clauses.length ≤ data.length / 12) ∧
    ∀ b, Body.parse data = .ok b → b.handlers.length ≤ data.length / 12 := by
  have hbound : ∀ cursor clauses, readSections data cursor = .ok clauses →
      clauses.length ≤ data.length / 12 := by
    intro cursor clauses h
    have hclauses := (readSections_bound hdata cursor).2 clauses h
    simp only [smallClauseSize] at hclauses
    omega
  refine ⟨fun cursor turns h => run_eq hdata (by simp only [sectionHeaderSize]; omega),
    fun cursor found next h => next_of_turn hdata h,
    fun cursor => (readSections_bound hdata cursor).1, hbound, ?_⟩
  intro b h
  obtain ⟨_, offsets, clauses, -, hclauses, hbind⟩ := Body.parse_cases h
  rw [length_of_bindClauses hbind]
  obtain rfl | ⟨cursor, hread⟩ := hclauses
  · exact Nat.zero_le _
  · exact hbound cursor clauses hread

/-- A small section that ends inside of its second clause, a fat section behind it that ends inside of
its second clause too, and a third one that says it is longer than the data. -/
theorem inside_data_chained :
    let sections : Bytes :=
      [0x81, 21, 0, 0, 1, 0, 0, 0, 3, 3, 0, 2, 1, 0, 0, 0, 9, 9, 9, 9, 9, 0, 0, 0] ++
        [0xC1, 31, 0, 0, 0, 0, 0, 0, 0, 0, 0, 0, 1, 0, 0, 0, 1, 0, 0, 0, 4, 0, 0, 0, 2, 0, 0, 1,
          9, 9, 9]
    let data : Bytes := sections ++ [0, 0x01, 0xFF, 0, 0]
    sections.length < 0x10000000000000000 ∧ data.length < 0x10000000000000000 ∧
      readSections sections 0 =
        .ok [⟨⟨1⟩, 0, 3, 3, 2, 1⟩, ⟨⟨0⟩, 0, 1, 1, 4, 0x01000002⟩] ∧
      readSections data 0 = .error .outOfBounds := by
  intro sections data
  have hsections : sections.length < 0x10000000000000000 := by decide
  have hdata : data.length < 0x10000000000000000 := by decide
  refine ⟨hsections, hdata, ?_, ?_⟩
  · obtain ⟨hrun, -⟩ := inside_data sections hsections
    have hvalue : ((run sections 14 0).toOption.bind id).bind Except.toOption =
        some [⟨⟨1⟩, 0, 3, 3, 2, 1⟩,
          ⟨⟨0⟩, 0, 1, 1, 4, 0x01000002⟩] := by
      decide +kernel
    rw [hrun 0 14 (by decide)] at hvalue
    exact eq_ok_of_toOption hvalue
  · obtain ⟨hrun, -, herror, -⟩ := inside_data data hdata
    have hvalue : ((run data 16 0).toOption.bind id).bind Except.toOption = none := by
      decide +kernel
    rw [hrun 0 16 (by decide)] at hvalue
    cases hread : readSections data 0 with
    | error e => rw [herror 0 e hread]
    | ok clauses =>
      rw [hread] at hvalue
      cases hvalue

end SectionLoop

end CilGraft
