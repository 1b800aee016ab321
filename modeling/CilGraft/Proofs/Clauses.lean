import CilGraft.Method.Clause
import CilGraft.Proofs.CodeRoundTrip

/-!
# Handlers and their clauses

A clause holds offsets where a handler holds indices, and its one extra field serves the filter or
the class, as the flags say.

* `Handler.Consistent` — the handler has a filter and a class where its flags ask for them and
  nowhere else, so that nothing is lost in the extra field.
* `bind_of_toClause` — the clause of a consistent handler describes the very handler.
* `Handler.known`, `Clause.known` — without the bits of the flags that mean nothing, which are written
  and not read.
* `readSections_append` — the section that is written reads back as its known clauses, small or fat,
  behind any bytes and in front of any.
-/

set_option autoImplicit false

namespace CilGraft

/-- The fields that depend on the flags are there exactly when the flags ask for them. -/
structure Handler.Consistent (h : Handler) : Prop where
  filter : h.filterStart.isSome = h.flags.filter
  class_ : h.classToken.isSome = h.flags.isTyped

/-! ## Offsets and indices -/

theorem offsetOf_eq_ok_iff {offsets : List Nat} {index o : Nat} :
    offsetOf offsets index = .ok o ↔ offsets[index]? = some o := by
  unfold offsetOf
  split
  · rename_i o' ho'
    rw [ho']
    simp
  · rename_i hnone
    rw [hnone]
    exact ⟨nofun, nofun⟩

theorem lengthBetween_eq_ok_iff {offsets : List Nat} {start stop n : Nat} :
    lengthBetween offsets start stop = .ok n ↔
      ∃ s e, offsets[start]? = some s ∧ offsets[stop]? = some e ∧ s ≤ e ∧ n = e - s := by
  unfold lengthBetween
  simp only [bind_eq_ok_iff, offsetOf_eq_ok_iff]
  constructor
  · rintro ⟨s, hs, e, he, h⟩
    split at h
    · rename_i hle
      cases h
      exact ⟨s, e, hs, he, hle, rfl⟩
    · cases h
  · rintro ⟨s, e, hs, he, hle, rfl⟩
    exact ⟨s, hs, e, he, by rw [if_pos hle]⟩

/-- A range of the layout is stored as an offset and a length, both of 32 bits, from which its end
is found again. -/
theorem rangeEnd_stored {s e : Nat} (hle : s ≤ e) (he : e < 0x100000000) :
    rangeEnd (UInt32.ofNat s) (UInt32.ofNat (e - s)) = .ok e := by
  unfold rangeEnd
  rw [UInt32.toNat_ofNat_of_lt' (show s < 2 ^ 32 by omega),
    UInt32.toNat_ofNat_of_lt' (show e - s < 2 ^ 32 by omega), Nat.add_sub_cancel' hle, if_pos he]

section Binding

variable {xs : List Instruction}

/-- Every entry of a layout is a value of 32 bits that leads back to its index. -/
theorem indexOfOffset_stored (hend : codeSize xs < 0x100000000) {k o : Nat}
    (h : (offsetsFrom 0 xs)[k]? = some o) :
    o < 0x100000000 ∧ indexOfOffset (offsetsFrom 0 xs) o = .ok k ∧
      indexOfOffset (offsetsFrom 0 xs) (UInt32.ofNat o).toNat = .ok k := by
  have hle := le_end_of_getElem?_offsetsFrom h
  have hlt : o < 2 ^ 32 := by omega
  have hindex := indexOfOffset_of_getElem? (pairwise_offsetsFrom 0 xs) h
  rw [UInt32.toNat_ofNat_of_lt' hlt]
  exact ⟨hlt, hindex, hindex⟩

/-- What the clause of a handler is made of. -/
theorem toClause_eq_ok_iff {offsets : List Nat} {h : Handler} {c : Clause} :
    h.toClause offsets = .ok c ↔
      ∃ extra, h.extra offsets = .ok extra ∧
        ∃ tryOffset, offsets[h.tryStart]? = some tryOffset ∧
        ∃ tryLength, lengthBetween offsets h.tryStart h.tryEnd = .ok tryLength ∧
        ∃ handlerOffset, offsets[h.handlerStart]? = some handlerOffset ∧
        ∃ handlerLength, lengthBetween offsets h.handlerStart h.handlerEnd = .ok handlerLength ∧
          c = ⟨h.flags, UInt32.ofNat tryOffset, UInt32.ofNat tryLength, UInt32.ofNat handlerOffset,
            UInt32.ofNat handlerLength, extra⟩ := by
  simp only [Handler.toClause, bind_eq_ok_iff, offsetOf_eq_ok_iff, Except.ok.injEq,
    eq_comm (a := c)]

/-- The extra field leads back to the filter and the class of a consistent handler. -/
theorem bind_extra (hend : codeSize xs < 0x100000000) {h : Handler} {extra : UInt32}
    (hcons : h.Consistent) (hextra : h.extra (offsetsFrom 0 xs) = .ok extra) :
    (h.flags.filter = false → h.filterStart = none) ∧
      (h.flags.filter = true →
        ∃ f, h.filterStart = some f ∧ indexOfOffset (offsetsFrom 0 xs) extra.toNat = .ok f) ∧
      (if h.flags.isTyped then some ⟨extra⟩ else none) = h.classToken := by
  obtain ⟨hfilter, hclass⟩ := hcons
  unfold Handler.extra at hextra
  cases hf : h.flags.filter with
  | true =>
    have hnot : h.flags.isTyped = false := by simp [HandlerFlags.isTyped, hf]
    rw [hf] at hfilter
    rw [hnot] at hclass
    obtain ⟨f, hsome⟩ := Option.isSome_iff_exists.1 hfilter
    simp only [hf, hsome] at hextra
    obtain ⟨o, ho, hextra⟩ := bind_eq_ok_iff.1 hextra
    cases hextra
    have hindex := (indexOfOffset_stored hend (offsetOf_eq_ok_iff.1 ho)).2.2
    refine ⟨Bool.noConfusion, fun _ => ⟨f, hsome, hindex⟩, ?_⟩
    obtain hnone : h.classToken = none := by simpa using hclass
    rw [hnot, hnone]
    rfl
  | false =>
    rw [hf] at hfilter
    refine ⟨fun _ => by simpa using hfilter, Bool.noConfusion, ?_⟩
    cases ht : h.flags.isTyped with
    | true =>
      rw [ht] at hclass
      obtain ⟨t, hsome⟩ := Option.isSome_iff_exists.1 hclass
      simp only [hf, ht, hsome] at hextra
      cases hextra
      rw [hsome]
      rfl
    | false =>
      rw [ht] at hclass
      obtain hnone : h.classToken = none := by simpa using hclass
      rw [hnone]
      rfl

/-- **The clause of a consistent handler describes the very handler.** -/
theorem bind_of_toClause (hend : codeSize xs < 0x100000000) {h : Handler} {c : Clause}
    (hcons : h.Consistent) (hc : h.toClause (offsetsFrom 0 xs) = .ok c) :
    c.bind (offsetsFrom 0 xs) = .ok h := by
  obtain ⟨extra, hextra, o, ho, n, hn, o', ho', n', hn', rfl⟩ := toClause_eq_ok_iff.1 hc
  obtain ⟨s, e, hs, he, hle, rfl⟩ := lengthBetween_eq_ok_iff.1 hn
  obtain ⟨s', e', hs', he', hle', rfl⟩ := lengthBetween_eq_ok_iff.1 hn'
  obtain rfl : s = o := Option.some.inj (hs.symm.trans ho)
  obtain rfl : s' = o' := Option.some.inj (hs'.symm.trans ho')
  obtain ⟨helt, htryEnd, -⟩ := indexOfOffset_stored hend he
  obtain ⟨helt', hhandlerEnd, -⟩ := indexOfOffset_stored hend he'
  obtain ⟨hnone, hsome, hclass⟩ := bind_extra hend hcons hextra
  simp only [Clause.bind, (indexOfOffset_stored hend hs).2.2, (indexOfOffset_stored hend hs').2.2,
    rangeEnd_stored hle helt, rangeEnd_stored hle' helt', htryEnd, hhandlerEnd, hclass, bind,
    Except.bind]
  cases hf : h.flags.filter with
  | true =>
    obtain ⟨f, hfilter, hindex⟩ := hsome hf
    simp only [if_true, hindex, ← hfilter]
  | false => simp only [Bool.false_eq_true, if_false, ← hnone hf]

theorem bindClauses_of_clausesOf (hend : codeSize xs < 0x100000000) {hs : List Handler}
    {cs : List Clause} (hcons : ∀ h ∈ hs, h.Consistent)
    (h : clausesOf (offsetsFrom 0 xs) hs = .ok cs) :
    bindClauses (offsetsFrom 0 xs) cs = .ok hs := by
  induction hs generalizing cs with
  | nil => cases h; rfl
  | cons a hs ih =>
    obtain ⟨c, hc, h⟩ := bind_eq_ok_iff.1 h
    obtain ⟨others, hothers, h⟩ := bind_eq_ok_iff.1 h
    cases h
    obtain ⟨ha, hcons⟩ := List.forall_mem_cons.1 hcons
    simp only [bindClauses, bind_of_toClause hend ha hc, ih hcons hothers, bind, Except.bind]

end Binding

/-! ## Flags that mean nothing -/

/-- The handler without the bits of its flags that mean nothing. -/
def Handler.known (h : Handler) : Handler := { h with flags := h.flags.known }

/-- The clause without the bits of its flags that mean nothing. -/
def Clause.known (c : Clause) : Clause := { c with flags := c.flags.known }

theorem Handler.Consistent.known {h : Handler} (hcons : h.Consistent) : h.known.Consistent where
  filter := hcons.filter.trans h.flags.filter_known.symm
  class_ := hcons.class_.trans h.flags.isTyped_known.symm

theorem Handler.extra_known (offsets : List Nat) (h : Handler) :
    h.known.extra offsets = h.extra offsets := by
  simp only [Handler.extra, Handler.known, HandlerFlags.filter_known, HandlerFlags.isTyped_known]

/-- The bits that mean nothing make no difference to the rest of a clause. -/
theorem Handler.toClause_known {offsets : List Nat} {h : Handler} {c : Clause}
    (hc : h.toClause offsets = .ok c) : h.known.toClause offsets = .ok c.known := by
  obtain ⟨extra, hextra, o, ho, n, hn, o', ho', n', hn', rfl⟩ := toClause_eq_ok_iff.1 hc
  exact toClause_eq_ok_iff.2 ⟨extra, (h.extra_known offsets).trans hextra, o, ho, n, hn, o', ho', n',
    hn', rfl⟩

theorem clausesOf_known {offsets : List Nat} {hs : List Handler} {cs : List Clause}
    (h : clausesOf offsets hs = .ok cs) :
    clausesOf offsets (hs.map Handler.known) = .ok (cs.map Clause.known) := by
  induction hs generalizing cs with
  | nil => cases h; rfl
  | cons a hs ih =>
    obtain ⟨c, hc, h⟩ := bind_eq_ok_iff.1 h
    obtain ⟨others, hothers, h⟩ := bind_eq_ok_iff.1 h
    cases h
    simp only [List.map_cons, clausesOf, Handler.toClause_known hc, ih hothers, bind, Except.bind]

/-! ## Stored clauses -/

theorem toUInt32_toUInt16_of_le {v : UInt32} (h : v.toNat ≤ 0xFFFF) : v.toUInt16.toUInt32 = v := by
  apply UInt32.toNat_inj.1
  rw [UInt16.toNat_toUInt32, UInt32.toNat_toUInt16]
  omega

theorem toUInt32_toUInt8_of_le {v : UInt32} (h : v.toNat ≤ 0xFF) : v.toUInt8.toUInt32 = v := by
  apply UInt32.toNat_inj.1
  rw [UInt8.toNat_toUInt32, UInt32.toNat_toUInt8]
  omega

theorem readSmall_append {c : Clause} (hsmall : c.isSmall = true) (rest : Bytes) :
    readSmall (smallClauseBytes c ++ rest) = .ok (c.known, rest) := by
  simp only [Clause.isSmall, Bool.and_eq_true, decide_eq_true_eq] at hsmall
  obtain ⟨⟨⟨h1, h2⟩, h3⟩, h4⟩ := hsmall
  simp only [readSmall, smallClauseBytes, List.append_assoc, readWord_append, bind, Except.bind,
    toUInt32_toUInt16_of_le h1, toUInt32_toUInt8_of_le h2, toUInt32_toUInt16_of_le h3,
    toUInt32_toUInt8_of_le h4]
  rfl

theorem readFat_append (c : Clause) (rest : Bytes) :
    readFat (fatClauseBytes c ++ rest) = .ok (c.known, rest) := by
  simp only [readFat, fatClauseBytes, List.append_assoc, readWord_append, bind, Except.bind,
    UInt16.toNat_toUInt32]
  rfl

theorem length_smallClauseBytes (c : Clause) : (smallClauseBytes c).length = smallClauseSize := by
  simp only [smallClauseBytes, List.length_append, Word.length_toBytes]
  rfl

theorem length_fatClauseBytes (c : Clause) : (fatClauseBytes c).length = fatClauseSize := by
  simp only [fatClauseBytes, List.length_append, Word.length_toBytes]
  rfl

section Repeated

variable {write : Clause → Bytes}

theorem length_flatMap_of_forall {size : Nat} (cs : List Clause)
    (h : ∀ c, (write c).length = size) : (cs.flatMap write).length = cs.length * size := by
  induction cs with
  | nil => simp
  | cons c cs ih =>
    rw [List.flatMap_cons, List.length_append, h, ih, List.length_cons, Nat.succ_mul, Nat.add_comm]

/-- Clauses that read back one by one read back together. -/
theorem readClauses_append {read : Bytes → Except CodeError (Clause × Bytes)} {cs : List Clause}
    (rest : Bytes) (h : ∀ c ∈ cs, ∀ rest, read (write c ++ rest) = .ok (c.known, rest)) :
    readClauses read cs.length (cs.flatMap write ++ rest) = .ok (cs.map Clause.known) := by
  induction cs with
  | nil => rfl
  | cons c cs ih =>
    obtain ⟨hc, hcs⟩ := List.forall_mem_cons.1 h
    simp only [List.length_cons, readClauses, List.flatMap_cons, List.append_assoc, hc, ih hcs,
      bind, Except.bind, List.map_cons]

end Repeated

/-! ## Sections -/

/-- A section that announces no other one holds all clauses. -/
theorem readSections_of_last {data header : Bytes} {cursor : Nat}
    (hheader : data.drop cursor = header)
    (hclauses : (header.headD 0).toNat.testBit sectionHasClauses = true)
    (hlast : (header.headD 0).toNat.testBit sectionGoesOn = false)
    (hsize : sectionHeaderSize ≤ sectionSize header) (hroom : sectionSize header ≤ header.length) :
    readSections data cursor = sectionClauses header (sectionSize header) := by
  subst hheader
  rw [readSections, dif_neg (by omega), if_pos hclauses, dif_neg (by omega)]
  cases hc : sectionClauses (data.drop cursor) (sectionSize (data.drop cursor)) with
  | error e => rfl
  | ok cs => simp only [bind, Except.bind, hlast, Bool.false_eq_true, if_false]

section Formats

variable {flags : UInt8} {header : Bytes}

theorem sectionSize_small (hfat : flags.toNat.testBit sectionIsFat = false) (b : UInt8)
    (rest : Bytes) : sectionSize (flags :: b :: rest) = b.toNat := by
  simp [sectionSize, hfat, leValue]

theorem sectionSize_fat (hfat : flags.toNat.testBit sectionIsFat = true) {n : Nat}
    (hn : n ≤ 0xFFFFFF) (rest : Bytes) : sectionSize (flags :: (leBytes 3 n ++ rest)) = n := by
  simp only [sectionSize, List.headD_cons, hfat, if_true, List.drop_succ_cons, List.drop_zero]
  rw [List.take_left' (length_leBytes 3 n), leValue_leBytes]
  exact Nat.mod_eq_of_lt (show n < 16777216 by omega)

theorem sectionClauses_small (hfat : flags.toNat.testBit sectionIsFat = false) (a b c : UInt8)
    (body : Bytes) (count : Nat) :
    sectionClauses (flags :: a :: b :: c :: body) (sectionHeaderSize + count * smallClauseSize) =
      readClauses readSmall count body := by
  simp only [sectionClauses, List.headD_cons, hfat, Bool.false_eq_true, if_false]
  rw [Nat.add_sub_cancel_left, Nat.mul_div_cancel _ (by decide)]
  rfl

theorem sectionClauses_fat (hfat : flags.toNat.testBit sectionIsFat = true) (n : Nat)
    (body : Bytes) (count : Nat) :
    sectionClauses (flags :: (leBytes 3 n ++ body)) (sectionHeaderSize + count * fatClauseSize) =
      readClauses readFat count body := by
  simp only [sectionClauses, List.headD_cons, hfat, if_true]
  rw [Nat.add_sub_cancel_left, Nat.mul_div_cancel _ (by decide)]
  show readClauses readFat count ((leBytes 3 n ++ body).drop 3) = _
  rw [List.drop_left' (length_leBytes 3 n)]

end Formats

theorem readSections_small (front rest : Bytes) {cs : List Clause}
    (hsize : sectionHeaderSize + cs.length * smallClauseSize ≤ 0xFF)
    (hsmall : ∀ c ∈ cs, c.isSmall = true) :
    readSections
      (front ++ (0x01 :: UInt8.ofNat (sectionHeaderSize + cs.length * smallClauseSize) :: 0 :: 0 ::
        (cs.flatMap smallClauseBytes ++ rest))) front.length = .ok (cs.map Clause.known) := by
  have hlen := length_flatMap_of_forall cs length_smallClauseBytes
  have hfat : (0x01 : UInt8).toNat.testBit sectionIsFat = false := by decide
  have hbyte : (UInt8.ofNat (sectionHeaderSize + cs.length * smallClauseSize)).toNat =
      sectionHeaderSize + cs.length * smallClauseSize :=
    UInt8.toNat_ofNat_of_lt' (show _ < 2 ^ 8 by omega)
  have hread := readClauses_append rest fun c hc => readSmall_append (hsmall c hc)
  rw [readSections_of_last List.drop_left (by rw [List.headD_cons]; decide)
    (by rw [List.headD_cons]; decide), sectionSize_small hfat, hbyte, sectionClauses_small hfat,
    hread]
  · rw [sectionSize_small hfat, hbyte]
    exact Nat.le_add_right _ _
  · rw [sectionSize_small hfat, hbyte]
    simp only [List.length_cons, List.length_append, hlen, sectionHeaderSize]
    omega

theorem readSections_fat (front rest : Bytes) {cs : List Clause}
    (hsize : sectionHeaderSize + cs.length * fatClauseSize ≤ 0xFFFFFF) :
    readSections
      (front ++ (0x41 :: (leBytes 3 (sectionHeaderSize + cs.length * fatClauseSize) ++
        (cs.flatMap fatClauseBytes ++ rest)))) front.length = .ok (cs.map Clause.known) := by
  have hlen := length_flatMap_of_forall cs length_fatClauseBytes
  have hfat : (0x41 : UInt8).toNat.testBit sectionIsFat = true := by decide
  have hread := readClauses_append rest fun c (_ : c ∈ cs) => readFat_append c
  rw [readSections_of_last List.drop_left (by rw [List.headD_cons]; decide)
    (by rw [List.headD_cons]; decide), sectionSize_fat hfat hsize, sectionClauses_fat hfat, hread]
  · rw [sectionSize_fat hfat hsize]
    exact Nat.le_add_right _ _
  · rw [sectionSize_fat hfat hsize]
    simp only [List.length_cons, List.length_append, length_leBytes, hlen, sectionHeaderSize]
    omega

/-- **The section that is written reads back as its clauses**, small or fat, wherever it stands and
whatever follows it; only the bits of their flags that mean nothing are gone. -/
theorem readSections_append (front rest : Bytes) {cs : List Clause} {section_ : Bytes}
    (h : sectionBytes cs = .ok section_) :
    readSections (front ++ (section_ ++ rest)) front.length = .ok (cs.map Clause.known) := by
  simp only [sectionBytes] at h
  split at h
  · rename_i hsmall
    cases h
    simp only [List.cons_append]
    exact readSections_small front rest hsmall.1 (List.all_eq_true.1 hsmall.2)
  · split at h
    · rename_i hfat
      cases h
      simp only [List.cons_append, List.append_assoc]
      exact readSections_fat front rest hfat
    · cases h

end CilGraft
