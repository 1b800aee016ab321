import CilGraft.Method.Image
import CilGraft.Proofs.BufferCursors
import CilGraft.Proofs.Clauses

/-!
# Stored bodies read back

`Body.encode` chooses between two headers and, for a body with handlers, between two kinds of
clauses; `Body.parse` recognises each choice and undoes it.

* `startsTiny` — the format in the first byte is the tiny header.
* `encode_cases` — the three things that are ever written: a tiny header and code; a fat header and
  code; a fat header, code, padding and a section.
* `parse_of_tiny`, `parse_of_noHandlers`, `parse_of_section` — each of them reads back, in front of
  any bytes.
* `Body.known` — without the bits of the flags of its handlers that mean nothing.
* `parse_encode` — **parsing undoes encoding**, except that a tiny header does not keep the depth of
  the stack, and that nothing keeps those bits.
-/

set_option autoImplicit false

namespace CilGraft

namespace Body

/-! ## Reading at an offset -/

section Reading

variable {data rest : Bytes}

theorem wordAt_of_eq {α : Type} [Word α] {v : α} {offset : Nat} (front : Bytes)
    (hdata : data = front ++ (Word.toBytes v ++ rest)) (hoffset : offset = front.length)
    (hroom : offset + Word.width α < 0x10000000000000000) : wordAt α data offset = .ok v := by
  rw [wordAt, readAt_of_eq hdata hoffset hroom]

theorem slice_of_eq {front middle : Bytes} {start stop : Nat}
    (hdata : data = front ++ (middle ++ rest)) (hstart : start = front.length)
    (hstop : stop = start + middle.length) : slice data start stop = .ok middle := by
  subst hdata hstart hstop
  have hroom : front.length ≤ front.length + middle.length ∧
      front.length + middle.length ≤ (front ++ (middle ++ rest)).length := by
    simp only [List.length_append]
    omega
  rw [slice, if_pos hroom, List.drop_left, Nat.add_sub_cancel_left, List.take_left]

end Reading

/-! ## The fat header -/

theorem toNat_fatFlags (b : Body) :
    b.fatFlags.toNat =
      0x3003 + (if b.handlers.isEmpty then 0 else 8) + (if b.initLocals then 16 else 0) := by
  unfold fatFlags
  cases b.handlers.isEmpty <;> cases b.initLocals <;> rfl

theorem testBit_fatFlags (b : Body) :
    b.fatFlags.toNat.testBit 3 = !b.handlers.isEmpty ∧
      b.fatFlags.toNat.testBit 4 = b.initLocals := by
  rw [toNat_fatFlags]
  cases b.handlers.isEmpty <;> cases b.initLocals <;> decide

theorem length_fatHeader (b : Body) (size : Nat) : (b.fatHeader size).length = fatHeaderSize := by
  simp only [fatHeader, List.length_append, Word.length_toBytes]
  rfl

/-- The first byte of a fat header says so. -/
theorem headD_fatHeader (b : Body) (size : Nat) (rest : Bytes) :
    ∃ first others, b.fatHeader size ++ rest = first :: others ∧ first.toNat % 4 = 3 := by
  refine ⟨UInt8.ofNat b.fatFlags.toNat, _, rfl, ?_⟩
  have hflags := toNat_fatFlags b
  rw [UInt8.toNat_ofNat', hflags]
  split <;> split <;> rfl

/-- What parsing does behind the twelve bytes of a fat header that was written. -/
theorem parseFat_fatHeader (b : Body) {size : Nat} (hsize : size < 0x100000000) (rest : Bytes) :
    parseFat (b.fatHeader size ++ rest) = (do
      let code ← slice (b.fatHeader size ++ rest) fatHeaderSize (fatHeaderSize + size)
      let (instructions, offsets) ← decode code
      let clauses ← if b.handlers.isEmpty then .ok []
        else readSections (b.fatHeader size ++ rest) (align4 (fatHeaderSize + size))
      let handlers ← bindClauses offsets clauses
      .ok { b with code := instructions, handlers }) := by
  have hlen := length_fatHeader b size
  have hback : (UInt32.ofNat size).toNat = size := UInt32.toNat_ofNat_of_lt' hsize
  have hstart : b.fatFlags.toNat / 0x1000 * 4 = fatHeaderSize := by
    rw [toNat_fatFlags]
    split <;> split <;> rfl
  obtain ⟨data, hdata⟩ : ∃ data, data = b.fatHeader size ++ rest := ⟨_, rfl⟩
  have hfields : data = Word.toBytes b.fatFlags ++ (Word.toBytes b.maxStack ++
      (Word.toBytes (UInt32.ofNat size) ++ (Word.toBytes b.locals.value ++ rest))) := by
    rw [hdata]
    simp only [fatHeader, List.append_assoc]
  have hflags : wordAt UInt16 data 0 = .ok b.fatFlags := wordAt_of_eq [] hfields rfl (by decide)
  have hmaxStack : wordAt UInt16 data 2 = .ok b.maxStack :=
    wordAt_of_eq (Word.toBytes b.fatFlags) hfields rfl (by decide)
  have hcodeSize : wordAt UInt32 data 4 = .ok (UInt32.ofNat size) :=
    wordAt_of_eq (Word.toBytes b.fatFlags ++ Word.toBytes b.maxStack)
      (by rw [hfields, List.append_assoc]) rfl (by decide)
  have hlocals : wordAt UInt32 data 8 = .ok b.locals.value :=
    wordAt_of_eq (Word.toBytes b.fatFlags ++ Word.toBytes b.maxStack ++
      Word.toBytes (UInt32.ofNat size))
      (by rw [hfields, List.append_assoc, List.append_assoc]) rfl (by decide)
  have hroom : ¬ data.length < fatHeaderSize := by
    rw [hdata, List.length_append, hlen]
    omega
  obtain ⟨hhandlers, hinit⟩ := testBit_fatFlags b
  rw [← hdata]
  simp only [parseFat, if_neg hroom, hflags, hmaxStack, hcodeSize, hlocals, hstart, hback,
    hhandlers, hinit, bind, Except.bind]
  cases b.handlers.isEmpty with
  | true => simp only [Bool.not_true, Bool.false_eq_true, if_false, if_true]
  | false => simp only [Bool.not_false, Bool.false_eq_true, if_false, if_true]

/-- A body with a fat header reads back as soon as its handlers do. -/
theorem parseFat_of_eq {b : Body} {code data rest : Bytes} {clauses : List Clause}
    (hcode : CilGraft.encode b.code = .ok code)
    (hdata : data = b.fatHeader code.length ++ (code ++ rest))
    (hclauses : (if b.handlers.isEmpty then .ok []
      else readSections data (align4 (fatHeaderSize + code.length))) = .ok clauses)
    (hbind : bindClauses (offsetsFrom 0 b.code) clauses = .ok b.handlers) :
    parseFat data = .ok b := by
  have hslice : slice data fatHeaderSize (fatHeaderSize + code.length) = .ok code :=
    slice_of_eq hdata (length_fatHeader b code.length).symm rfl
  rw [hdata, parseFat_fatHeader b (length_lt_of_encode hcode), ← hdata]
  simp only [hslice, decode_of_encode hcode, bind, Except.bind]
  cases hempty : b.handlers.isEmpty with
  | true =>
    rw [hempty, if_pos rfl] at hclauses
    cases hclauses
    simp only [hbind, if_true]
  | false =>
    rw [hempty, if_neg Bool.false_ne_true] at hclauses
    simp only [hclauses, hbind, Bool.false_eq_true, if_false]

/-! ## Both directions together -/

/-- The body has a tiny header: its first byte says so. -/
def startsTiny (data : Bytes) : Bool := (data.headD 0).toNat % 4 == 2

/-- The bytes in front of the section of a body with handlers: header, code and padding. -/
def front (b : Body) (code : Bytes) : Bytes :=
  b.fatHeader code.length ++ code ++
    List.replicate (align4 (fatHeaderSize + code.length) - (fatHeaderSize + code.length)) 0

theorem length_front (b : Body) (code : Bytes) :
    (b.front code).length = align4 (fatHeaderSize + code.length) := by
  simp only [front, List.length_append, length_fatHeader, List.length_replicate, align4]
  omega

/-- The three forms of a body that are written. -/
theorem encode_cases {b : Body} {data : Bytes} (h : b.encode = .ok data) :
    ∃ code, CilGraft.encode b.code = .ok code ∧
      ((b.isTiny code.length = true ∧ data = UInt8.ofNat (4 * code.length + 2) :: code) ∨
        (b.handlers = [] ∧ data = b.fatHeader code.length ++ code) ∨
        (b.handlers ≠ [] ∧ ∃ clauses section_,
          clausesOf (offsetsFrom 0 b.code) b.handlers = .ok clauses ∧
            sectionBytes clauses = .ok section_ ∧ data = b.front code ++ section_)) := by
  obtain ⟨code, hcode, h⟩ := bind_eq_ok_iff.1 h
  refine ⟨code, hcode, ?_⟩
  split at h
  · rename_i htiny
    cases h
    exact Or.inl ⟨htiny, rfl⟩
  · split at h
    · rename_i hempty
      cases h
      exact Or.inr (Or.inl ⟨List.isEmpty_iff.1 hempty, rfl⟩)
    · rename_i hempty
      obtain ⟨offsets, hoffsets, h⟩ := bind_eq_ok_iff.1 h
      obtain ⟨-, rfl⟩ := layout_eq_ok_iff.1 hoffsets
      obtain ⟨clauses, hclauses, h⟩ := bind_eq_ok_iff.1 h
      obtain ⟨section_, hsection, h⟩ := bind_eq_ok_iff.1 h
      refine Or.inr (Or.inr ⟨fun hnil => hempty (List.isEmpty_iff.2 hnil), clauses, section_,
        hclauses, hsection, ?_⟩)
      cases h
      simp only [front, List.length_append, length_fatHeader]

theorem toNat_tinyHeader {n : Nat} (hn : n ≤ tinyMaxCode) :
    (UInt8.ofNat (4 * n + 2)).toNat = 4 * n + 2 := by
  have hlen : n ≤ 63 := hn
  exact UInt8.toNat_ofNat_of_lt' (show _ < 2 ^ 8 by omega)

/-- A body that a tiny header describes reads back, except for the depth of the stack. -/
theorem parse_of_tiny {b : Body} {code : Bytes} (hcode : CilGraft.encode b.code = .ok code)
    (htiny : b.isTiny code.length = true) (tail : Bytes) :
    parse (UInt8.ofNat (4 * code.length + 2) :: code ++ tail) =
      .ok { b with maxStack := tinyMaxStack } := by
  simp only [isTiny, Bool.and_eq_true, decide_eq_true_eq, Bool.not_eq_true',
    List.isEmpty_iff] at htiny
  obtain ⟨⟨⟨⟨hlen, -⟩, hlocals⟩, hinit⟩, hhandlers⟩ := htiny
  have hslice : slice (UInt8.ofNat (4 * code.length + 2) :: (code ++ tail)) 1 (code.length + 1) =
      .ok code :=
    slice_of_eq (show _ = [_] ++ (code ++ tail) from rfl) rfl (Nat.add_comm ..)
  have hkind : (4 * code.length + 2) % 4 = 2 := by omega
  have hsize : (4 * code.length + 2) / 4 + 1 = code.length + 1 := by omega
  have hnull : b.locals = ⟨0⟩ := congrArg Token.mk (eq_of_beq hlocals)
  rw [hnull, hinit, hhandlers]
  simp only [parse, parseTiny, List.cons_append, toNat_tinyHeader hlen, hkind, hsize, hslice,
    decode_of_encode hcode, bind, Except.bind, ofCode]

/-- A body with a fat header reads back once its fields do. -/
theorem parse_of_fat {b : Body} {size : Nat} {rest : Bytes}
    (h : parseFat (b.fatHeader size ++ rest) = .ok b) :
    parse (b.fatHeader size ++ rest) = .ok b := by
  obtain ⟨first, others, hcons, hkind⟩ := headD_fatHeader b size rest
  rw [hcons] at h ⊢
  simp only [parse, hkind, h]

theorem startsTiny_of_fat (b : Body) (size : Nat) (rest : Bytes) :
    startsTiny (b.fatHeader size ++ rest) = false := by
  obtain ⟨first, others, hcons, hkind⟩ := headD_fatHeader b size rest
  rw [hcons, startsTiny, List.headD_cons, hkind]
  rfl

theorem startsTiny_of_front (b : Body) (code section_ : Bytes) :
    startsTiny (b.front code ++ section_) = false := by
  simp only [front, List.append_assoc, startsTiny_of_fat]

theorem length_le_of_isTiny {b : Body} {n : Nat} (h : b.isTiny n = true) : n ≤ tinyMaxCode := by
  simp only [isTiny, Bool.and_eq_true, decide_eq_true_eq] at h
  exact h.1.1.1.1

theorem handlers_of_isTiny {b : Body} {n : Nat} (h : b.isTiny n = true) : b.handlers = [] := by
  simp only [isTiny, Bool.and_eq_true, List.isEmpty_iff] at h
  exact h.2

theorem startsTiny_of_tiny {n : Nat} (hn : n ≤ tinyMaxCode) (rest : Bytes) :
    startsTiny (UInt8.ofNat (4 * n + 2) :: rest) = true := by
  rw [startsTiny, List.headD_cons, toNat_tinyHeader hn, beq_iff_eq]
  omega

/-- A body without handlers reads back behind a fat header. -/
theorem parse_of_noHandlers {b : Body} {code : Bytes} (hcode : CilGraft.encode b.code = .ok code)
    (hnil : b.handlers = []) (tail : Bytes) :
    parse (b.fatHeader code.length ++ code ++ tail) = .ok b := by
  rw [List.append_assoc]
  have hnone : (if b.handlers.isEmpty then .ok [] else readSections
      (b.fatHeader code.length ++ (code ++ tail)) (align4 (fatHeaderSize + code.length))) =
      Except.ok [] := by rw [hnil, List.isEmpty_nil, if_pos rfl]
  have hbind : bindClauses (offsetsFrom 0 b.code) [] = .ok b.handlers := by rw [hnil]; rfl
  exact parse_of_fat (parseFat_of_eq hcode rfl hnone hbind)

/-- The body without the bits of the flags of its handlers that mean nothing. -/
def known (b : Body) : Body := { b with handlers := b.handlers.map Handler.known }

theorem known_of_forall {b : Body} (h : ∀ x ∈ b.handlers, x.flags.known = x.flags) : b.known = b := by
  have hsame : b.handlers.map Handler.known = b.handlers := by
    refine (List.map_congr_left fun x hx => ?_).trans (List.map_id _)
    rw [Handler.known, h x hx]
    rfl
  rw [known, hsame]

theorem known_of_nil {b : Body} (h : b.handlers = []) : b.known = b :=
  known_of_forall fun x hx => by rw [h] at hx; cases hx

theorem front_known (b : Body) (code : Bytes) : b.known.front code = b.front code := by
  have hempty : b.known.handlers.isEmpty = b.handlers.isEmpty := List.isEmpty_map
  simp only [front, fatHeader, fatFlags, hempty]
  rfl

/-- A body with handlers reads back with its section, but for bits that mean nothing. -/
theorem parse_of_section {b : Body} {code section_ : Bytes} {clauses : List Clause}
    (hcode : CilGraft.encode b.code = .ok code) (hne : b.handlers ≠ [])
    (hcons : ∀ h ∈ b.handlers, h.Consistent)
    (hclauses : clausesOf (offsetsFrom 0 b.code) b.handlers = .ok clauses)
    (hsection : sectionBytes clauses = .ok section_) (tail : Bytes) :
    parse (b.front code ++ section_ ++ tail) = .ok b.known := by
  have hend := (encode_eq_ok_iff.1 hcode).1
  have hread := readSections_append (b.front code) tail hsection
  rw [← front_known, length_front] at hread
  rw [← front_known]
  have hempty : ¬ b.known.handlers.isEmpty = true := fun hnil =>
    hne (List.map_eq_nil_iff.1 (List.isEmpty_iff.1 hnil))
  have hknown : ∀ h ∈ b.known.handlers, h.Consistent := by
    rintro _ hmem
    obtain ⟨x, hx, rfl⟩ := List.mem_map.1 hmem
    exact (hcons x hx).known
  have hbind : bindClauses (offsetsFrom 0 b.known.code) (clauses.map Clause.known) =
      .ok b.known.handlers := bindClauses_of_clausesOf hend hknown (clausesOf_known hclauses)
  simp only [front, List.append_assoc] at hread ⊢
  refine parse_of_fat (parseFat_of_eq (b := b.known) hcode rfl ?_ hbind)
  rw [if_neg hempty, hread]

/-- **Parsing undoes encoding.**  A body whose handlers have the filter and the class that their
flags ask for reads back from its bytes, whatever follows them; only the depth of the stack becomes
that of a tiny header when the header is tiny, and the bits of the flags of a handler that mean nothing
are gone. -/
theorem parse_encode {b : Body} {data : Bytes} (hcons : ∀ h ∈ b.handlers, h.Consistent)
    (h : b.encode = .ok data) (tail : Bytes) :
    parse (data ++ tail) =
      .ok (if startsTiny data then { b.known with maxStack := tinyMaxStack } else b.known) := by
  obtain ⟨code, hcode, hcases⟩ := encode_cases h
  obtain ⟨htiny, rfl⟩ | ⟨hnil, rfl⟩ | ⟨hne, clauses, section_, hclauses, hsection, rfl⟩ := hcases
  · rw [startsTiny_of_tiny (length_le_of_isTiny htiny), if_pos rfl,
      known_of_nil (handlers_of_isTiny htiny)]
    exact parse_of_tiny hcode htiny tail
  · rw [startsTiny_of_fat, if_neg Bool.false_ne_true, known_of_nil hnil]
    exact parse_of_noHandlers hcode hnil tail
  · rw [startsTiny_of_front, if_neg Bool.false_ne_true]
    exact parse_of_section hcode hne hcons hclauses hsection tail

/-- A filter and a typed handler, whose ranges reach the end of five bytes of code, behind three
bytes of padding and in front of a byte of another body. -/
theorem parse_encode_filter :
    let b : Body :=
      ⟨2, ⟨0x11000001⟩, true, [⟨.nop, .none⟩, ⟨.leaveS, .target 2⟩, ⟨.endfilter, .none⟩],
        [⟨⟨1⟩, 0, 2, 2, 3, some 1, none⟩,
          ⟨⟨0⟩, 0, 1, 1, 3, none, some ⟨0x01000002⟩⟩]⟩
    let data : Bytes :=
      [0x1B, 0x30, 2, 0, 5, 0, 0, 0, 1, 0, 0, 0x11, 0x00, 0xDE, 0x00, 0xFE, 0x11, 0, 0, 0] ++
        [0x01, 28, 0, 0, 1, 0, 0, 0, 3, 3, 0, 2, 1, 0, 0, 0, 0, 0, 0, 0, 1, 1, 0, 4, 2, 0, 0, 1]
    (∀ h ∈ b.handlers, h.Consistent) ∧ b.encode = .ok data ∧
      parse (data ++ [0x2A]) =
        .ok (if startsTiny data then { b.known with maxStack := tinyMaxStack } else b.known) := by
  intro b data
  have hcons : ∀ h ∈ b.handlers, h.Consistent := by
    intro h hmem
    simp only [b, List.mem_cons, List.not_mem_nil, or_false] at hmem
    obtain rfl | rfl := hmem
    · exact ⟨rfl, rfl⟩
    · exact ⟨rfl, rfl⟩
  have h : b.encode = .ok data := by
    simp only [b, data]
    rfl
  exact ⟨hcons, h, parse_encode hcons h [0x2A]⟩

/-- A typed handler whose flags have a fourth bit, which is written and not read. -/
theorem parse_encode_unknown_flag :
    let b : Body :=
      ⟨8, ⟨0⟩, false, [⟨.nop, .none⟩, ⟨.ret, .none⟩],
        [⟨⟨8⟩, 0, 1, 1, 2, none, some ⟨0x01000002⟩⟩]⟩
    ∃ data, (∀ h ∈ b.handlers, h.Consistent) ∧ b.encode = .ok data ∧ startsTiny data = false ∧
      parse data ≠ .ok b := by
  intro b
  have hcons : ∀ h ∈ b.handlers, h.Consistent := by
    intro h hmem
    obtain rfl := List.mem_singleton.1 hmem
    exact ⟨rfl, rfl⟩
  have h : b.encode = .ok ([0x0B, 0x30, 8, 0, 2, 0, 0, 0, 0, 0, 0, 0, 0x00, 0x2A, 0, 0] ++
      [0x01, 16, 0, 0, 8, 0, 0, 0, 1, 1, 0, 1, 2, 0, 0, 1]) := by
    simp only [b]
    rfl
  refine ⟨_, hcons, h, rfl, fun hparse => ?_⟩
  have hread := parse_encode hcons h []
  rw [List.append_nil, hparse] at hread
  exact absurd (Except.ok.inj hread) (by simp only [b]; decide)

end Body

end CilGraft
