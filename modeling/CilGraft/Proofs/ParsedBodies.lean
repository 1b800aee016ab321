import CilGraft.Proofs.AcceptedCode
import CilGraft.Proofs.Writable

/-!
# Parsed bodies can be written back

`Body.parse` takes more than `Body.encode` gives: longer headers, chains of sections, clauses that
are fat without need, bytes behind the last whole clause.  None of this is in the body that it
returns, and that body can be written.

* `consistent_of_bind`, `fits_of_bind` — a clause that is bound describes a handler whose fields
  agree with its flags and whose ranges are in order and inside the body.
* `isKnown_of_readSections` — clauses that are read have no bits in their flags that mean nothing.
* `parse_cases` — what a parsed body is made of, whatever its header and its sections were.
* `encode_of_parse` — **a parsed body is written back and parses to itself**, except for the depth
  of the stack behind a tiny header.
-/

set_option autoImplicit false

namespace CilGraft

/-! ## Bound clauses -/

section Bind

variable {offsets : List Nat} {c : Clause} {h : Handler}

theorem eq_add_of_rangeEnd {start length : UInt32} {stop : Nat}
    (hend : rangeEnd start length = .ok stop) : stop = start.toNat + length.toNat := by
  unfold rangeEnd at hend
  split at hend
  · cases hend
    rfl
  · cases hend

/-- What a handler that a clause describes is made of. -/
theorem bind_cases (hbind : c.bind offsets = .ok h) :
    h.flags = c.flags ∧ offsets[h.tryStart]? = some c.tryOffset.toNat ∧
      offsets[h.tryEnd]? = some (c.tryOffset.toNat + c.tryLength.toNat) ∧
      offsets[h.handlerStart]? = some c.handlerOffset.toNat ∧
      offsets[h.handlerEnd]? = some (c.handlerOffset.toNat + c.handlerLength.toNat) ∧
      (if c.flags.filter then ∃ f, h.filterStart = some f ∧ offsets[f]? = some c.extra.toNat
        else h.filterStart = none) ∧
      h.classToken = if c.flags.isTyped then some ⟨c.extra⟩ else none := by
  obtain ⟨tryStart, htryStart, hbind⟩ := bind_eq_ok_iff.1 hbind
  obtain ⟨tryStop, htryStop, hbind⟩ := bind_eq_ok_iff.1 hbind
  obtain ⟨tryEnd, htryEnd, hbind⟩ := bind_eq_ok_iff.1 hbind
  obtain ⟨handlerStart, hhandlerStart, hbind⟩ := bind_eq_ok_iff.1 hbind
  obtain ⟨handlerStop, hhandlerStop, hbind⟩ := bind_eq_ok_iff.1 hbind
  obtain ⟨handlerEnd, hhandlerEnd, hbind⟩ := bind_eq_ok_iff.1 hbind
  rw [eq_add_of_rangeEnd htryStop] at htryEnd
  rw [eq_add_of_rangeEnd hhandlerStop] at hhandlerEnd
  have htry := getElem?_of_indexOfOffset htryStart
  have htry' := getElem?_of_indexOfOffset htryEnd
  have hhandler := getElem?_of_indexOfOffset hhandlerStart
  have hhandler' := getElem?_of_indexOfOffset hhandlerEnd
  dsimp only at hbind
  split at hbind
  · rename_i hflag
    obtain ⟨f, hf, hbind⟩ := bind_eq_ok_iff.1 hbind
    cases hbind
    refine ⟨rfl, htry, htry', hhandler, hhandler', ?_, rfl⟩
    rw [if_pos hflag]
    exact ⟨f, rfl, getElem?_of_indexOfOffset hf⟩
  · rename_i hflag
    cases hbind
    refine ⟨rfl, htry, htry', hhandler, hhandler', ?_, rfl⟩
    rw [if_neg hflag]

/-- The fields of a handler that is bound agree with its flags. -/
theorem consistent_of_bind (hbind : c.bind offsets = .ok h) : h.Consistent := by
  obtain ⟨hflags, -, -, -, -, hfilter, hclass⟩ := bind_cases hbind
  constructor
  · rw [hflags]
    split at hfilter
    · rename_i hflag
      obtain ⟨f, hf, -⟩ := hfilter
      rw [hf, hflag]
      rfl
    · rename_i hflag
      rw [hfilter, Bool.eq_false_iff.2 hflag]
      rfl
  · rw [hflags, hclass]
    cases c.flags.isTyped <;> rfl

/-- The ranges of a handler that is bound are in order and inside the body. -/
theorem fits_of_bind {xs : List Instruction} (hbind : c.bind (offsetsFrom 0 xs) = .ok h) :
    h.Fits xs.length := by
  obtain ⟨hflags, htryStart, htryEnd, hhandlerStart, hhandlerEnd, hfilter, -⟩ := bind_cases hbind
  refine ⟨(le_iff_of_getElem?_offsetsFrom htryStart htryEnd).1 (Nat.le_add_right _ _),
    le_of_getElem?_offsetsFrom htryEnd,
    (le_iff_of_getElem?_offsetsFrom hhandlerStart hhandlerEnd).1 (Nat.le_add_right _ _),
    le_of_getElem?_offsetsFrom hhandlerEnd, ?_⟩
  intro hflag f hf
  rw [hflags] at hflag
  rw [if_pos hflag] at hfilter
  obtain ⟨f', hf', hentry⟩ := hfilter
  obtain rfl : f' = f := Option.some.inj (hf'.symm.trans hf)
  exact le_of_getElem?_offsetsFrom hentry

theorem forall_of_bindClauses {P : Handler → Prop} {cs : List Clause} {hs : List Handler}
    (hP : ∀ c ∈ cs, ∀ h : Handler, c.bind offsets = .ok h → P h)
    (hbind : bindClauses offsets cs = .ok hs) : ∀ h ∈ hs, P h := by
  induction cs generalizing hs with
  | nil =>
    cases hbind
    simp
  | cons c cs ih =>
    obtain ⟨h, hh, hbind⟩ := bind_eq_ok_iff.1 hbind
    obtain ⟨others, hothers, hbind⟩ := bind_eq_ok_iff.1 hbind
    cases hbind
    obtain ⟨hc, hcs⟩ := List.forall_mem_cons.1 hP
    exact List.forall_mem_cons.2 ⟨hc h hh, ih hcs hothers⟩

end Bind

/-! ## Clauses that are read -/

/-- The flags of the clause have no bits that mean nothing. -/
def Clause.IsKnown (c : Clause) : Prop := c.flags.known = c.flags

section Reading

variable {c : Clause} {cs : List Clause}

theorem isKnown_of_readSmall {bytes rest : Bytes} (h : readSmall bytes = .ok (c, rest)) :
    c.IsKnown := by
  obtain ⟨⟨flags, _⟩, -, h⟩ := bind_eq_ok_iff.1 h
  obtain ⟨⟨tryOffset, _⟩, -, h⟩ := bind_eq_ok_iff.1 h
  obtain ⟨⟨tryLength, _⟩, -, h⟩ := bind_eq_ok_iff.1 h
  obtain ⟨⟨handlerOffset, _⟩, -, h⟩ := bind_eq_ok_iff.1 h
  obtain ⟨⟨handlerLength, _⟩, -, h⟩ := bind_eq_ok_iff.1 h
  obtain ⟨⟨extra, _⟩, -, h⟩ := bind_eq_ok_iff.1 h
  cases h
  exact HandlerFlags.known_ofNat flags.toNat

theorem isKnown_of_readFat {bytes rest : Bytes} (h : readFat bytes = .ok (c, rest)) :
    c.IsKnown := by
  obtain ⟨⟨flags, _⟩, -, h⟩ := bind_eq_ok_iff.1 h
  obtain ⟨⟨tryOffset, _⟩, -, h⟩ := bind_eq_ok_iff.1 h
  obtain ⟨⟨tryLength, _⟩, -, h⟩ := bind_eq_ok_iff.1 h
  obtain ⟨⟨handlerOffset, _⟩, -, h⟩ := bind_eq_ok_iff.1 h
  obtain ⟨⟨handlerLength, _⟩, -, h⟩ := bind_eq_ok_iff.1 h
  obtain ⟨⟨extra, _⟩, -, h⟩ := bind_eq_ok_iff.1 h
  cases h
  exact HandlerFlags.known_ofNat flags.toNat

theorem isKnown_of_readClauses {read : Bytes → Except CodeError (Clause × Bytes)}
    (hread : ∀ c bytes rest, read bytes = .ok (c, rest) → c.IsKnown) {count : Nat} {bytes : Bytes}
    (h : readClauses read count bytes = .ok cs) : ∀ c ∈ cs, c.IsKnown := by
  induction count generalizing bytes cs with
  | zero =>
    cases h
    simp
  | succ count ih =>
    obtain ⟨⟨c, rest⟩, hc, h⟩ := bind_eq_ok_iff.1 h
    obtain ⟨others, hothers, h⟩ := bind_eq_ok_iff.1 h
    cases h
    exact List.forall_mem_cons.2 ⟨hread c bytes rest hc, ih hothers⟩

theorem isKnown_of_sectionClauses {header : Bytes} {size : Nat}
    (h : sectionClauses header size = .ok cs) : ∀ c ∈ cs, c.IsKnown := by
  unfold sectionClauses at h
  dsimp only at h
  split at h
  · exact isKnown_of_readClauses (fun _ _ _ => isKnown_of_readFat) h
  · exact isKnown_of_readClauses (fun _ _ _ => isKnown_of_readSmall) h

/-- Clauses that are read from sections have no bits in their flags that mean nothing. -/
theorem isKnown_of_readSections {data : Bytes} {cursor : Nat}
    (h : readSections data cursor = .ok cs) : ∀ c ∈ cs, c.IsKnown := by
  fun_induction readSections data cursor generalizing cs with
  | case1 =>
    cases h
    simp
  | case2 => cases h
  | case3 cursor header hroom hclauses size hsize =>
    rename_i ih
    obtain ⟨found, hfound, h⟩ := bind_eq_ok_iff.1 h
    split at h
    · obtain ⟨others, hothers, h⟩ := bind_eq_ok_iff.1 h
      cases h
      exact List.forall_mem_append.2 ⟨isKnown_of_sectionClauses hfound, ih hothers⟩
    · cases h
      exact isKnown_of_sectionClauses hfound
  | case4 =>
    cases h
    simp

end Reading

/-! ## Parsed bodies -/

namespace Body

/-- What a parsed body is made of: code that decodes, and handlers bound in its layout, the clauses of
which were read from sections if there are any. -/
theorem parse_cases {data : Bytes} {b : Body} (h : parse data = .ok b) :
    ∃ code offsets clauses, decode code = .ok (b.code, offsets) ∧
      (clauses = [] ∨ ∃ cursor, readSections data cursor = .ok clauses) ∧
      bindClauses offsets clauses = .ok b.handlers := by
  unfold parse at h
  split at h
  · cases h
  · rename_i first rest
    split at h
    · obtain ⟨code, -, h⟩ := bind_eq_ok_iff.1 h
      obtain ⟨⟨instructions, offsets⟩, hcode, h⟩ := bind_eq_ok_iff.1 h
      cases h
      exact ⟨code, offsets, [], hcode, .inl rfl, rfl⟩
    · unfold parseFat at h
      split at h
      · cases h
      · obtain ⟨flags, -, h⟩ := bind_eq_ok_iff.1 h
        obtain ⟨maxStack, -, h⟩ := bind_eq_ok_iff.1 h
        obtain ⟨codeSize, -, h⟩ := bind_eq_ok_iff.1 h
        obtain ⟨locals, -, h⟩ := bind_eq_ok_iff.1 h
        obtain ⟨code, -, h⟩ := bind_eq_ok_iff.1 h
        obtain ⟨⟨instructions, offsets⟩, hcode, h⟩ := bind_eq_ok_iff.1 h
        -- Whether clauses were read or there are none, they are bound in the same way.
        obtain ⟨clauses, hclauses, h⟩ : ∃ clauses,
            (clauses = [] ∨ ∃ cursor, readSections (first :: rest) cursor = .ok clauses) ∧ (do
              let handlers ← bindClauses offsets clauses
              .ok (⟨maxStack, ⟨locals⟩, flags.toNat.testBit 4, instructions, handlers⟩ : Body)) =
                Except.ok b := by
          dsimp only at h
          split at h
          · obtain ⟨clauses, hclauses, h⟩ := bind_eq_ok_iff.1 h
            exact ⟨clauses, .inr ⟨_, hclauses⟩, h⟩
          · exact ⟨[], .inl rfl, h⟩
        obtain ⟨handlers, hhandlers, h⟩ := bind_eq_ok_iff.1 h
        cases h
        exact ⟨code, offsets, clauses, hcode, hclauses, hhandlers⟩
    · cases h

/-- **A parsed body is written back and parses to itself**, as long as its handlers fit one section;
only the depth of the stack becomes that of a tiny header when the new header is tiny. -/
theorem encode_of_parse {data : Bytes} {b : Body} (h : parse data = .ok b)
    (hcount : b.handlers.length ≤ 699050) :
    ∃ data', b.encode = .ok data' ∧
      parse data' = .ok (if startsTiny data' then { b with maxStack := tinyMaxStack } else b) := by
  obtain ⟨code, offsets, clauses, hcode, hclauses, hbind⟩ := parse_cases h
  obtain ⟨hback, rfl⟩ := encode_of_decode hcode
  have hfits : ∀ h ∈ b.handlers, h.Fits b.code.length :=
    forall_of_bindClauses (fun _ _ _ => fits_of_bind) hbind
  have hcons : ∀ h ∈ b.handlers, h.Consistent :=
    forall_of_bindClauses (fun _ _ _ => consistent_of_bind) hbind
  have hread : ∀ c ∈ clauses, c.IsKnown := by
    rcases hclauses with rfl | ⟨cursor, hsections⟩
    · simp
    · exact isKnown_of_readSections hsections
  have hknown : b.known = b := known_of_forall <| forall_of_bindClauses
    (fun c hc h hh => by rw [(bind_cases hh).1, hread c hc]) hbind
  obtain ⟨data', hdata'⟩ := exists_encode_iff.2 ⟨⟨code, hback⟩, hfits, hcount⟩
  have hparse := parse_encode hcons hdata' []
  rw [List.append_nil, hknown] at hparse
  exact ⟨data', hdata', hparse⟩

/-- A header of sixteen bytes, a small section with part of a clause at its end, and a fat section,
also with a rest, that holds a clause which fits the small form. -/
theorem encode_of_parse_chained :
    let data : Bytes :=
      [0x1B, 0x40, 2, 0, 5, 0, 0, 0, 1, 0, 0, 0x11, 0xAA, 0xBB, 0xCC, 0xDD] ++
        [0x00, 0xDE, 0x00, 0xFE, 0x11, 0, 0, 0] ++
        [0x81, 21, 0, 0, 1, 0, 0, 0, 3, 3, 0, 2, 1, 0, 0, 0, 9, 9, 9, 9, 9, 0, 0, 0] ++
        [0x41, 31, 0, 0, 0, 0, 0, 0, 0, 0, 0, 0, 1, 0, 0, 0, 1, 0, 0, 0, 4, 0, 0, 0, 2, 0, 0, 1,
          9, 9, 9]
    let b : Body :=
      ⟨2, ⟨0x11000001⟩, true, [⟨.nop, .none⟩, ⟨.leaveS, .target 2⟩, ⟨.endfilter, .none⟩],
        [⟨⟨1⟩, 0, 2, 2, 3, some 1, none⟩,
          ⟨⟨0⟩, 0, 1, 1, 3, none, some ⟨0x01000002⟩⟩]⟩
    parse data = .ok b ∧ b.handlers.length ≤ 699050 ∧
      ∃ data', b.encode = .ok data' ∧
        parse data' =
          .ok (if startsTiny data' then { b with maxStack := tinyMaxStack } else b) := by
  intro data b
  have h : parse data = .ok b := by
    simp only [data, b]
    exact eq_ok_of_toOption (by decide +kernel)
  have hcount : b.handlers.length ≤ 699050 := by
    simp only [b]
    decide
  exact ⟨h, hcount, encode_of_parse h hcount⟩

end Body

end CilGraft
