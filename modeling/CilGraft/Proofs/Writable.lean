import CilGraft.Proofs.BodyRoundTrip

/-!
# What can be written

A list, a handler or a body has a stored form exactly when a few inequalities between indices and
offsets hold.  Whether a change keeps a body writable can then be asked of these alone.

* `Instruction.FitsAt`, `CodeFits`, `exists_encode_iff` — a list has an encoding exactly when its
  end fits 32 bits and every instruction reaches its targets.
* `Handler.Fits`, `exists_toClause_iff` — a handler has a clause exactly when its ranges are in
  order and inside the body.
* `exists_sectionBytes_iff` — clauses have a section exactly when there are not too many of them.
* `Body.exists_encode_iff` — **the bodies that can be written**.
-/

set_option autoImplicit false

namespace CilGraft

/-! ## Instructions -/

/-- The distance fits an operand of this kind. -/
def OperandKind.fits (kind : OperandKind) (d : Int) : Bool :=
  if kind = .shortBranch then fitsShort d else fitsLong d

theorem exists_shortDistance_iff {index : Nat} {d : Int} :
    (∃ bytes, shortDistance index d = .ok bytes) ↔ fitsShort d = true := by
  simp only [shortDistance_eq_ok_iff, exists_and_left, exists_eq, and_true]

theorem exists_longDistance_iff {index : Nat} {d : Int} :
    (∃ bytes, longDistance index d = .ok bytes) ↔ fitsLong d = true := by
  simp only [longDistance_eq_ok_iff, exists_and_left, exists_eq, and_true]

section Code

variable {offsets : List Nat} {count index : Nat}

theorem exists_tableBytes_iff {next : Nat} {ts : List Nat} :
    (∃ bytes, tableBytes offsets count index next ts = .ok bytes) ↔
      ∀ t ∈ ts, t < count ∧ fitsLong ((offsets.getD t 0 : Nat) - next) = true := by
  induction ts with
  | nil => simp [tableBytes]
  | cons t ts ih =>
    rw [List.forall_mem_cons, ← ih]
    constructor
    · rintro ⟨bytes, h⟩
      obtain ⟨d, hd, h⟩ := bind_eq_ok_iff.1 h
      obtain ⟨entry, hentry, h⟩ := bind_eq_ok_iff.1 h
      obtain ⟨entries, hentries, -⟩ := bind_eq_ok_iff.1 h
      obtain ⟨hlt, rfl⟩ := distance_eq_ok_iff.1 hd
      exact ⟨⟨hlt, (longDistance_eq_ok_iff.1 hentry).1⟩, entries, hentries⟩
    · rintro ⟨⟨hlt, hfits⟩, entries, hentries⟩
      obtain ⟨entry, hentry⟩ : ∃ entry, longDistance index _ = .ok entry :=
        exists_longDistance_iff.2 hfits
      have hd : distance offsets count index t next = .ok _ := distance_eq_ok_iff.2 ⟨hlt, rfl⟩
      exact ⟨entry ++ entries, by simp only [tableBytes, hd, hentry, hentries, bind, Except.bind]⟩

theorem exists_operandBytes_iff {next : Nat} {i : Instruction} (hwf : i.isWellFormed = true) :
    (∃ bytes, operandBytes offsets count index next i = .ok bytes) ↔
      ∀ t ∈ i.targets,
        t < count ∧ i.opcode.operand.fits ((offsets.getD t 0 : Nat) - next) = true := by
  obtain ⟨op, o⟩ := i
  unfold Instruction.isWellFormed at hwf
  cases o
  case target t =>
    simp only [operandBytes, Instruction.targets, Operand.targets, List.mem_singleton, forall_eq]
    constructor
    · rintro ⟨bytes, h⟩
      obtain ⟨d, hd, h⟩ := bind_eq_ok_iff.1 h
      obtain ⟨hlt, rfl⟩ := distance_eq_ok_iff.1 hd
      refine ⟨hlt, ?_⟩
      unfold OperandKind.fits
      split at h
      · rename_i hshort
        rw [if_pos hshort]
        exact (shortDistance_eq_ok_iff.1 h).1
      · rename_i hlong
        rw [if_neg hlong]
        exact (longDistance_eq_ok_iff.1 h).1
    · rintro ⟨hlt, hfits⟩
      have hd : distance offsets count index t next = .ok _ := distance_eq_ok_iff.2 ⟨hlt, rfl⟩
      simp only [hd, bind, Except.bind]
      unfold OperandKind.fits at hfits
      split at hfits
      · rename_i hshort
        rw [if_pos hshort]
        exact exists_shortDistance_iff.2 hfits
      · rename_i hlong
        rw [if_neg hlong]
        exact exists_longDistance_iff.2 hfits
  case switch ts =>
    have hkind : op.operand ≠ .shortBranch := by
      intro hk
      simp [hk, Operand.isOf] at hwf
    simp only [Instruction.targets, Operand.targets, OperandKind.fits, if_neg hkind]
    constructor
    · rintro ⟨bytes, h⟩
      obtain ⟨entries, hentries, -⟩ := bind_eq_ok_iff.1 h
      exact exists_tableBytes_iff.1 ⟨entries, hentries⟩
    · intro h
      obtain ⟨entries, hentries⟩ :
          ∃ entries, tableBytes offsets count index next ts = .ok entries :=
        exists_tableBytes_iff.2 h
      simp only [operandBytes, hentries, bind, Except.bind]
      exact ⟨_, rfl⟩
  all_goals simp [operandBytes, Instruction.targets, Operand.targets]

theorem exists_encodeFrom_iff {start : Nat} {xs : List Instruction} :
    (∃ bytes, encodeFrom offsets count index start xs = .ok bytes) ↔
      ∀ (k : Nat) (i : Instruction), xs[k]? = some i → i.isWellFormed = true ∧
        ∀ t ∈ i.targets, t < count ∧ i.opcode.operand.fits
          ((offsets.getD t 0 : Nat) - (start + codeSize (xs.take (k + 1)) : Nat)) = true := by
  induction xs generalizing index start with
  | nil => simp [encodeFrom]
  | cons x rest ih =>
    constructor
    · rintro ⟨bytes, h⟩ k i hi
      obtain ⟨front, hfront, h⟩ := bind_eq_ok_iff.1 h
      obtain ⟨others, hothers, -⟩ := bind_eq_ok_iff.1 h
      cases k with
      | zero =>
        obtain rfl : x = i := by simpa using hi
        obtain ⟨hwf, operand, ho, -⟩ := instructionBytes_eq_ok_iff.1 hfront
        exact ⟨hwf, (exists_operandBytes_iff hwf).1 ⟨operand, ho⟩⟩
      | succ k =>
        have h := ih.1 ⟨others, hothers⟩ k i hi
        rwa [Nat.add_assoc] at h
    · intro h
      obtain ⟨hwf, hfits⟩ := h 0 x rfl
      obtain ⟨operand, ho⟩ : ∃ operand, operandBytes offsets count index _ x = .ok operand :=
        (exists_operandBytes_iff hwf).2 hfits
      have hfront := instructionBytes_eq_ok_iff.2 ⟨hwf, operand, ho, rfl⟩
      obtain ⟨others, hothers⟩ :
          ∃ others, encodeFrom offsets count (index + 1) (start + x.size) rest = .ok others := by
        refine ih.2 fun k i hi => ?_
        have hk := h (k + 1) i hi
        rwa [List.take_succ_cons, codeSize, ← Nat.add_assoc] at hk
      refine ⟨x.opcode.bytes ++ operand ++ others, ?_⟩
      simp only [encodeFrom, hothers, bind, Except.bind]
      rw [show start + x.size = start + codeSize ((x :: rest).take (0 + 1)) from rfl, hfront]

end Code

/-- The instruction can be written at an index of the list: its operand is of the right kind, and
its targets are instructions of the list that the operand reaches. -/
structure Instruction.FitsAt (xs : List Instruction) (k : Nat) (i : Instruction) : Prop where
  wellFormed : i.isWellFormed = true
  target_lt : ∀ t ∈ i.targets, t < xs.length
  reaches : ∀ t ∈ i.targets,
    i.opcode.operand.fits (codeSize (xs.take t) - codeSize (xs.take (k + 1)) : Int) = true

/-- Every instruction of the list can be written where it stands. -/
def CodeFits (xs : List Instruction) : Prop :=
  ∀ (k : Nat) (i : Instruction), xs[k]? = some i → i.FitsAt xs k

theorem getD_offsetsFrom {xs : List Instruction} {t : Nat} (ht : t < xs.length) :
    (offsetsFrom 0 xs).getD t 0 = codeSize (xs.take t) := by
  rw [List.getD_eq_getElem?_getD, getElem?_offsetsFrom 0 (Nat.le_of_lt ht), Option.getD_some,
    Nat.zero_add]

/-- **The lists that can be written.** -/
theorem exists_encode_iff {xs : List Instruction} :
    (∃ code, encode xs = .ok code) ↔ codeSize xs < 0x100000000 ∧ CodeFits xs := by
  unfold CodeFits
  simp only [encode_eq_ok_iff, exists_and_left, exists_encodeFrom_iff, Nat.zero_add]
  refine and_congr_right fun _ => forall_congr' fun k => forall_congr' fun i =>
    imp_congr_right fun _ => ⟨?_, ?_⟩
  · rintro ⟨hwf, hfits⟩
    refine ⟨hwf, fun t ht => (hfits t ht).1, fun t ht => ?_⟩
    obtain ⟨hlt, hreach⟩ := hfits t ht
    rwa [getD_offsetsFrom hlt] at hreach
  · rintro ⟨hwf, hlt, hreach⟩
    refine ⟨hwf, fun t ht => ⟨hlt t ht, ?_⟩⟩
    rw [getD_offsetsFrom (hlt t ht)]
    exact hreach t ht

/-! ## Handlers -/

/-- The ranges of the handler are in order and end inside the body, and so does the offset of its
filter, if it has one. -/
structure Handler.Fits (n : Nat) (h : Handler) : Prop where
  try_le : h.tryStart ≤ h.tryEnd
  tryEnd_le : h.tryEnd ≤ n
  handler_le : h.handlerStart ≤ h.handlerEnd
  handlerEnd_le : h.handlerEnd ≤ n
  filter_le : h.flags.filter = true → ∀ f, h.filterStart = some f → f ≤ n

section Layout

variable {xs : List Instruction}

theorem exists_getElem?_offsetsFrom_iff {k : Nat} :
    (∃ o, (offsetsFrom 0 xs)[k]? = some o) ↔ k ≤ xs.length :=
  ⟨fun ⟨_, h⟩ => le_of_getElem?_offsetsFrom h, fun h => ⟨_, getElem?_offsetsFrom 0 h⟩⟩

/-- Of two indices, the one with the smaller offset is the smaller one. -/
theorem le_iff_of_getElem?_offsetsFrom {a b s e : Nat} (hs : (offsetsFrom 0 xs)[a]? = some s)
    (he : (offsetsFrom 0 xs)[b]? = some e) : s ≤ e ↔ a ≤ b := by
  obtain ⟨ha, rfl⟩ := List.getElem?_eq_some_iff.1 hs
  obtain ⟨hb, rfl⟩ := List.getElem?_eq_some_iff.1 he
  have hasc := List.pairwise_iff_getElem.1 (pairwise_offsetsFrom 0 xs)
  constructor
  · intro hle
    refine Nat.le_of_not_lt fun hlt => ?_
    have := hasc b a hb ha hlt
    omega
  · intro hle
    obtain rfl | hlt := Nat.eq_or_lt_of_le hle
    · exact Nat.le_refl _
    · exact Nat.le_of_lt (hasc a b ha hb hlt)

theorem exists_lengthBetween_iff {start stop : Nat} :
    (∃ n, lengthBetween (offsetsFrom 0 xs) start stop = .ok n) ↔
      start ≤ stop ∧ stop ≤ xs.length := by
  simp only [lengthBetween_eq_ok_iff]
  constructor
  · rintro ⟨n, s, e, hs, he, hle, -⟩
    exact ⟨(le_iff_of_getElem?_offsetsFrom hs he).1 hle, le_of_getElem?_offsetsFrom he⟩
  · rintro ⟨hle, hstop⟩
    obtain ⟨s, hs⟩ := exists_getElem?_offsetsFrom_iff.2 (Nat.le_trans hle hstop)
    obtain ⟨e, he⟩ := exists_getElem?_offsetsFrom_iff.2 hstop
    exact ⟨_, s, e, hs, he, (le_iff_of_getElem?_offsetsFrom hs he).2 hle, rfl⟩

theorem exists_extra_iff {h : Handler} :
    (∃ extra, h.extra (offsetsFrom 0 xs) = .ok extra) ↔
      (h.flags.filter = true → ∀ f, h.filterStart = some f → f ≤ xs.length) := by
  unfold Handler.extra
  cases hflag : h.flags.filter with
  | false =>
    refine ⟨fun _ => nofun, fun _ => ?_⟩
    cases h.flags.isTyped <;> cases h.classToken <;> exact ⟨_, rfl⟩
  | true =>
    cases hf : h.filterStart with
    | none =>
      refine ⟨fun _ _ => nofun, fun _ => ?_⟩
      cases h.flags.isTyped <;> cases h.classToken <;> exact ⟨_, rfl⟩
    | some f =>
      constructor
      · rintro ⟨extra, h⟩ - f' hf'
        cases hf'
        obtain ⟨o, ho, -⟩ := bind_eq_ok_iff.1 h
        exact le_of_getElem?_offsetsFrom (offsetOf_eq_ok_iff.1 ho)
      · intro hle
        obtain ⟨o, ho⟩ := exists_getElem?_offsetsFrom_iff.2 (hle rfl f rfl)
        exact ⟨UInt32.ofNat o, bind_eq_ok_iff.2 ⟨o, offsetOf_eq_ok_iff.2 ho, rfl⟩⟩

/-- **The handlers that can be written.** -/
theorem exists_toClause_iff {h : Handler} :
    (∃ c, h.toClause (offsetsFrom 0 xs) = .ok c) ↔ h.Fits xs.length := by
  simp only [toClause_eq_ok_iff]
  constructor
  · rintro ⟨c, extra, hextra, o, -, n, hn, o', -, n', hn', -⟩
    obtain ⟨htry, htryEnd⟩ := exists_lengthBetween_iff.1 ⟨n, hn⟩
    obtain ⟨hhandler, hhandlerEnd⟩ := exists_lengthBetween_iff.1 ⟨n', hn'⟩
    exact ⟨htry, htryEnd, hhandler, hhandlerEnd, exists_extra_iff.1 ⟨extra, hextra⟩⟩
  · rintro ⟨htry, htryEnd, hhandler, hhandlerEnd, hfilter⟩
    obtain ⟨extra, hextra⟩ := exists_extra_iff.2 hfilter
    obtain ⟨n, hn⟩ := exists_lengthBetween_iff.2 ⟨htry, htryEnd⟩
    obtain ⟨n', hn'⟩ := exists_lengthBetween_iff.2 ⟨hhandler, hhandlerEnd⟩
    obtain ⟨o, ho⟩ := exists_getElem?_offsetsFrom_iff.2 (Nat.le_trans htry htryEnd)
    obtain ⟨o', ho'⟩ := exists_getElem?_offsetsFrom_iff.2 (Nat.le_trans hhandler hhandlerEnd)
    exact ⟨_, extra, hextra, o, ho, n, hn, o', ho', n', hn', rfl⟩

theorem exists_clausesOf_iff {hs : List Handler} :
    (∃ cs, clausesOf (offsetsFrom 0 xs) hs = .ok cs) ↔ ∀ h ∈ hs, h.Fits xs.length := by
  induction hs with
  | nil => simp [clausesOf]
  | cons h hs ih =>
    rw [List.forall_mem_cons, ← exists_toClause_iff, ← ih]
    constructor
    · rintro ⟨cs, hcs⟩
      obtain ⟨c, hc, hcs⟩ := bind_eq_ok_iff.1 hcs
      obtain ⟨others, hothers, -⟩ := bind_eq_ok_iff.1 hcs
      exact ⟨⟨c, hc⟩, others, hothers⟩
    · rintro ⟨⟨c, hc⟩, others, hothers⟩
      exact ⟨c :: others, by simp only [clausesOf, hc, hothers, bind, Except.bind]⟩

end Layout

theorem length_of_clausesOf {offsets : List Nat} {hs : List Handler} {cs : List Clause}
    (h : clausesOf offsets hs = .ok cs) : cs.length = hs.length := by
  induction hs generalizing cs with
  | nil =>
    cases h
    rfl
  | cons a hs ih =>
    obtain ⟨c, -, h⟩ := bind_eq_ok_iff.1 h
    obtain ⟨others, hothers, h⟩ := bind_eq_ok_iff.1 h
    cases h
    rw [List.length_cons, ih hothers, List.length_cons]

/-- The largest number of clauses for which the size of a fat section fits 24 bits. -/
def maxClauses : Nat := 699050

theorem exists_sectionBytes_iff {cs : List Clause} :
    (∃ section_, sectionBytes cs = .ok section_) ↔ cs.length ≤ maxClauses := by
  simp only [sectionBytes]
  by_cases hsmall :
    sectionHeaderSize + cs.length * smallClauseSize ≤ 0xFF ∧ cs.all Clause.isSmall = true
  · rw [if_pos hsmall]
    refine ⟨fun _ => ?_, fun _ => ⟨_, rfl⟩⟩
    simp only [sectionHeaderSize, smallClauseSize, maxClauses] at hsmall ⊢
    omega
  · rw [if_neg hsmall]
    by_cases hfat : sectionHeaderSize + cs.length * fatClauseSize ≤ 0xFFFFFF
    · rw [if_pos hfat]
      refine ⟨fun _ => ?_, fun _ => ⟨_, rfl⟩⟩
      simp only [sectionHeaderSize, fatClauseSize, maxClauses] at hfat ⊢
      omega
    · rw [if_neg hfat]
      constructor
      · rintro ⟨section_, hsection⟩
        cases hsection
      · intro hle
        simp only [sectionHeaderSize, fatClauseSize, maxClauses] at hfat hle
        omega

/-! ## Bodies -/

/-- **The bodies that can be written**: those whose code can be written and whose handlers fit the
code and one section. -/
theorem Body.exists_encode_iff {b : Body} :
    (∃ data, b.encode = .ok data) ↔
      (∃ code, CilGraft.encode b.code = .ok code) ∧ (∀ h ∈ b.handlers, h.Fits b.code.length) ∧
        b.handlers.length ≤ maxClauses := by
  constructor
  · rintro ⟨data, h⟩
    obtain ⟨code, hcode, hcases⟩ := encode_cases h
    refine ⟨⟨code, hcode⟩, ?_⟩
    have hnone : b.handlers = [] →
        (∀ h ∈ b.handlers, h.Fits b.code.length) ∧ b.handlers.length ≤ maxClauses := by
      intro hnil
      simp [hnil]
    obtain ⟨htiny, -⟩ | ⟨hnil, -⟩ | ⟨-, clauses, section_, hclauses, hsection, -⟩ := hcases
    · simp only [isTiny, Bool.and_eq_true, List.isEmpty_iff] at htiny
      exact hnone htiny.2
    · exact hnone hnil
    · refine ⟨exists_clausesOf_iff.1 ⟨clauses, hclauses⟩, ?_⟩
      rw [← length_of_clausesOf hclauses]
      exact exists_sectionBytes_iff.1 ⟨section_, hsection⟩
  · rintro ⟨⟨code, hcode⟩, hfits, hcount⟩
    obtain ⟨clauses, hclauses⟩ := exists_clausesOf_iff.2 hfits
    rw [← length_of_clausesOf hclauses] at hcount
    obtain ⟨section_, hsection⟩ := exists_sectionBytes_iff.2 hcount
    have hlayout : layout b.code = .ok (offsetsFrom 0 b.code) :=
      layout_eq_ok_iff.2 ⟨(encode_eq_ok_iff.1 hcode).1, rfl⟩
    simp only [encode, hcode, hlayout, hclauses, hsection, bind, Except.bind]
    split
    · exact ⟨_, rfl⟩
    · split
      · exact ⟨_, rfl⟩
      · exact ⟨_, rfl⟩

end CilGraft
