import CilGraft.Proofs.BodyRoundTrip

/-!
# Bodies that are cut short

A body ends where the size in its header, or that in its section, says.  Parsing what is left of it
after a cut finds one of these sizes to be out of bounds, with one exception: where a section should
start, data that ends before the four bytes of its header are through is taken for the end of the
chain of sections.

* `sectionSize_of_sectionBytes` — the header of a section gives the length of the section, and
  `readSections_truncated` — so no cut behind the header goes unnoticed.
* `parse_of_tiny_truncated`, `parse_of_fat_truncated`, `parse_of_section_truncated` — what parsing
  does after a cut in front of the end of the code, and after a cut behind it.
* `Body.LosesSection` — the cuts from the end of the code to the last byte of the header of the
  section.
* `truncated_error_iff` — **these are the only cuts that parsing accepts**; the body then comes back
  with no handlers.  All others are errors.
-/

set_option autoImplicit false

namespace CilGraft

/-- What goes on past a part of the whole starts with that part. -/
theorem exists_append_of_prefix {α : Type} {front rest p : List α} (hpre : p <+: front ++ rest)
    (hlen : front.length ≤ p.length) : ∃ q, p = front ++ q ∧ q <+: rest := by
  obtain ⟨q, rfl⟩ := List.prefix_of_prefix_length_le (List.prefix_append front rest) hpre hlen
  exact ⟨q, rfl, (List.prefix_append_right_inj front).1 hpre⟩

/-! ## Sections -/

/-- A section starts with a header that gives its length and says that it holds clauses. -/
theorem sectionSize_of_sectionBytes {cs : List Clause} {section_ : Bytes}
    (h : sectionBytes cs = .ok section_) :
    ∃ flags size body, section_ = flags :: (size ++ body) ∧ size.length = 3 ∧
      flags.toNat.testBit sectionHasClauses = true ∧
      ∀ s, sectionSize (flags :: (size ++ s)) = section_.length := by
  simp only [sectionBytes] at h
  split at h
  · rename_i hsmall
    cases h
    refine ⟨0x01, [UInt8.ofNat (sectionHeaderSize + cs.length * smallClauseSize), 0, 0],
      cs.flatMap smallClauseBytes, rfl, rfl, by decide, fun s => ?_⟩
    have hbyte : (UInt8.ofNat (sectionHeaderSize + cs.length * smallClauseSize)).toNat =
        sectionHeaderSize + cs.length * smallClauseSize :=
      UInt8.toNat_ofNat_of_lt' (show _ < 2 ^ 8 by omega)
    rw [List.cons_append, sectionSize_small (by decide), hbyte]
    simp only [List.length_cons, length_flatMap_of_forall cs length_smallClauseBytes,
      sectionHeaderSize]
    exact Nat.add_comm _ _
  · split at h
    · rename_i hfat
      cases h
      refine ⟨0x41, leBytes 3 (sectionHeaderSize + cs.length * fatClauseSize),
        cs.flatMap fatClauseBytes, rfl, length_leBytes .., by decide, fun s => ?_⟩
      rw [sectionSize_fat (by decide) hfat]
      simp only [List.length_cons, List.length_append, length_leBytes,
        length_flatMap_of_forall cs length_fatClauseBytes, sectionHeaderSize]
    · cases h

/-- Where no header fits any more the chain of sections ends. -/
theorem readSections_of_short {data : Bytes} {cursor : Nat}
    (h : data.length < cursor + sectionHeaderSize) : readSections data cursor = .ok [] := by
  have hdrop : (data.drop cursor).length < sectionHeaderSize := by
    rw [List.length_drop]
    simp only [sectionHeaderSize] at h ⊢
    omega
  rw [readSections, dif_pos hdrop]

/-- A section that is cut behind its header is out of bounds. -/
theorem readSections_truncated (front : Bytes) {cs : List Clause} {section_ s : Bytes}
    (h : sectionBytes cs = .ok section_) (hpre : s <+: section_) (hne : s ≠ section_)
    (hroom : sectionHeaderSize ≤ s.length) :
    readSections (front ++ s) front.length = .error .outOfBounds := by
  have hshort : s.length < section_.length :=
    Nat.lt_of_not_le fun hle => hne (hpre.eq_of_length_le hle)
  obtain ⟨flags, size, body, rfl, hlen, hbit, hsize⟩ := sectionSize_of_sectionBytes h
  obtain ⟨s', rfl, -⟩ := exists_append_of_prefix
    (show s <+: (flags :: size) ++ body from hpre)
    (by rw [List.length_cons, hlen]; exact hroom)
  have hcut : sectionSize ((flags :: size) ++ s') < sectionHeaderSize ∨
      ((flags :: size) ++ s').length < sectionSize ((flags :: size) ++ s') := by
    rw [List.cons_append, hsize]
    exact Or.inr hshort
  have hclauses :
      (((flags :: size) ++ s').headD 0).toNat.testBit sectionHasClauses = true := hbit
  rw [readSections, List.drop_left, dif_neg (Nat.not_lt.2 hroom), if_pos hclauses, dif_pos hcut]

namespace Body

/-! ## The three forms of a body -/

theorem slice_of_short {data : Bytes} {start stop : Nat} (h : data.length < stop) :
    slice data start stop = .error .outOfBounds :=
  if_neg fun hroom => Nat.not_lt.2 hroom.2 h

/-- A tiny header with a part of the code only. -/
theorem parse_of_tiny_truncated {n : Nat} {p : Bytes} (hn : n ≤ tinyMaxCode) (hp : p.length < n) :
    parse (UInt8.ofNat (4 * n + 2) :: p) = .error .outOfBounds := by
  have hkind : (4 * n + 2) % 4 = 2 := by omega
  have hsize : (4 * n + 2) / 4 + 1 = n + 1 := by omega
  have hslice : slice (UInt8.ofNat (4 * n + 2) :: p) 1 (n + 1) = .error .outOfBounds :=
    slice_of_short (by rw [List.length_cons]; omega)
  simp only [parse, parseTiny, toNat_tinyHeader hn, hkind, hsize, hslice, bind, Except.bind]

/-- Whatever there is of a body with a fat header is parsed as one. -/
theorem parse_eq_parseFat {b : Body} {size : Nat} {rest p : Bytes}
    (hpre : p <+: b.fatHeader size ++ rest) (hne : p ≠ []) : parse p = parseFat p := by
  obtain ⟨first, others, hcons, hkind⟩ := headD_fatHeader b size rest
  rw [hcons] at hpre
  obtain rfl | ⟨p', rfl, -⟩ := List.prefix_cons_iff.1 hpre
  · exact absurd rfl hne
  · simp only [parse, hkind]

/-- A fat header, or a part of it, with a part of the code only. -/
theorem parse_of_fat_truncated {b : Body} {size : Nat} {rest p : Bytes} (hsize : size < 0x100000000)
    (hpre : p <+: b.fatHeader size ++ rest) (hne : p ≠ [])
    (hp : p.length < fatHeaderSize + size) : parse p = .error .outOfBounds := by
  rw [parse_eq_parseFat hpre hne]
  by_cases hheader : p.length < fatHeaderSize
  · rw [parseFat, if_pos hheader]
  · rw [← length_fatHeader b size] at hheader
    obtain ⟨q, rfl, -⟩ := exists_append_of_prefix hpre (Nat.not_lt.1 hheader)
    rw [parseFat_fatHeader b hsize, slice_of_short hp]
    rfl

/-- A fat header that announces handlers, with all the code and whatever there is behind it: the
sections decide. -/
theorem parse_of_code {b : Body} {code : Bytes} (hcode : CilGraft.encode b.code = .ok code)
    (hne : b.handlers ≠ []) (rest : Bytes) :
    parse (b.fatHeader code.length ++ (code ++ rest)) = (do
      let clauses ← readSections (b.fatHeader code.length ++ (code ++ rest))
        (align4 (fatHeaderSize + code.length))
      let handlers ← bindClauses (offsetsFrom 0 b.code) clauses
      .ok { b with handlers }) := by
  have hslice : slice (b.fatHeader code.length ++ (code ++ rest)) fatHeaderSize
      (fatHeaderSize + code.length) = .ok code :=
    slice_of_eq rfl (length_fatHeader b code.length).symm rfl
  have hempty : b.handlers.isEmpty = false := by simpa using hne
  obtain ⟨first, others, hcons, hkind⟩ := headD_fatHeader b code.length (code ++ rest)
  have hfat : parse (b.fatHeader code.length ++ (code ++ rest)) =
      parseFat (b.fatHeader code.length ++ (code ++ rest)) :=
    parse_eq_parseFat List.prefix_rfl (by rw [hcons]; exact List.cons_ne_nil _ _)
  rw [hfat, parseFat_fatHeader b (length_lt_of_encode hcode)]
  simp only [hslice, decode_of_encode hcode, hempty, bind, Except.bind, Bool.false_eq_true,
    if_false]

/-- A body with handlers that is cut behind its code: what is left of the section is noticed from
the end of its header on. -/
theorem parse_of_section_truncated {b : Body} {code section_ p : Bytes} {clauses : List Clause}
    (hcode : CilGraft.encode b.code = .ok code) (hne : b.handlers ≠ [])
    (hsection : sectionBytes clauses = .ok section_) (hpre : p <+: b.front code ++ section_)
    (hcut : p ≠ b.front code ++ section_) (hroom : fatHeaderSize + code.length ≤ p.length) :
    parse p =
      if p.length < align4 (fatHeaderSize + code.length) + sectionHeaderSize then
        .ok { b with handlers := [] }
      else .error .outOfBounds := by
  obtain ⟨rest, rfl⟩ : ∃ rest, p = b.fatHeader code.length ++ (code ++ rest) := by
    simp only [front, List.append_assoc] at hpre
    rw [← List.append_assoc] at hpre
    obtain ⟨rest, rfl, -⟩ := exists_append_of_prefix hpre
      (by rw [List.length_append, length_fatHeader]; exact hroom)
    exact ⟨rest, List.append_assoc ..⟩
  rw [parse_of_code hcode hne]
  split
  · rename_i hshort
    rw [readSections_of_short hshort]
    rfl
  · rename_i hlong
    have hfront := length_front b code
    obtain ⟨s, hs, hsec⟩ := exists_append_of_prefix hpre (by rw [hfront]; omega)
    have hheader : sectionHeaderSize ≤ s.length := by
      rw [hs, List.length_append, hfront] at hlong
      omega
    have hread : readSections (b.front code ++ s) (b.front code).length = .error .outOfBounds :=
      readSections_truncated _ hsection hsec (fun heq => hcut (by rw [hs, heq])) hheader
    rw [hs, ← hfront, hread]
    rfl

/-! ## All cuts -/

/-- The cuts from the end of the code of a body with handlers to the last byte of the header of its
section; `n` is the number of bytes that are left. -/
def LosesSection (b : Body) (n : Nat) : Prop :=
  b.handlers ≠ [] ∧ fatHeaderSize + codeSize b.code ≤ n ∧
    n < align4 (fatHeaderSize + codeSize b.code) + sectionHeaderSize

instance (b : Body) (n : Nat) : Decidable (b.LosesSection n) :=
  inferInstanceAs (Decidable (_ ∧ _ ∧ _))

section Cuts

variable {b : Body} {data p : Bytes}

/-- What parsing does with a part of a body that is not empty. -/
theorem parse_of_cut (h : b.encode = .ok data) (hpre : p <+: data) (hcut : p ≠ data)
    (hne : p ≠ []) :
    parse p =
      if b.LosesSection p.length then .ok { b with handlers := [] } else .error .outOfBounds := by
  have hshort : p.length < data.length :=
    Nat.lt_of_not_le fun hle => hcut (hpre.eq_of_length_le hle)
  obtain ⟨code, hcode, hcases⟩ := encode_cases h
  have hlen := length_of_encode hcode
  have hsize := length_lt_of_encode hcode
  obtain ⟨htiny, rfl⟩ | ⟨hnil, rfl⟩ | ⟨hhandlers, clauses, section_, -, hsection, rfl⟩ := hcases
  · have hnot : ¬ b.LosesSection p.length := by
      simp only [isTiny, Bool.and_eq_true, List.isEmpty_iff] at htiny
      exact fun hloses => hloses.1 htiny.2
    obtain rfl | ⟨q, rfl, -⟩ := List.prefix_cons_iff.1 hpre
    · exact absurd rfl hne
    · rw [if_neg hnot]
      exact parse_of_tiny_truncated (length_le_of_isTiny htiny) (by simpa using hshort)
  · have hnot : ¬ b.LosesSection p.length := fun hloses => hloses.1 hnil
    rw [if_neg hnot]
    rw [List.length_append, length_fatHeader] at hshort
    exact parse_of_fat_truncated hsize hpre hne hshort
  · by_cases hcodeCut : p.length < fatHeaderSize + code.length
    · have hnot : ¬ b.LosesSection p.length := by
        rintro ⟨-, hle, -⟩
        rw [← hlen] at hle
        omega
      rw [if_neg hnot]
      simp only [front, List.append_assoc] at hpre
      exact parse_of_fat_truncated hsize hpre hne hcodeCut
    · have hroom := Nat.not_lt.1 hcodeCut
      have hiff : b.LosesSection p.length ↔
          p.length < align4 (fatHeaderSize + code.length) + sectionHeaderSize := by
        rw [LosesSection, ← hlen]
        exact ⟨fun hloses => hloses.2.2, fun hlt => ⟨hhandlers, hroom, hlt⟩⟩
      rw [parse_of_section_truncated hcode hhandlers hsection hpre hcut hroom]
      simp only [hiff]

/-- **A body that is cut short is an error, unless the cut loses the section.**  Of the proper
prefixes of an encoded body the ones that parse are those of a body with handlers that end behind
its code and in front of the end of the header of its section; such a prefix gives the body with no
handlers at all.  The empty prefix is reported as such, and any other one is out of bounds. -/
theorem truncated_error_iff (h : b.encode = .ok data) (hpre : p <+: data) (hcut : p ≠ data) :
    ((∃ e, parse p = .error e) ↔ ¬ b.LosesSection p.length) ∧
      parse p =
        if p = [] then .error (.malformed .noData)
        else if b.LosesSection p.length then .ok { b with handlers := [] }
        else .error .outOfBounds := by
  by_cases hne : p = []
  · have hnot : ¬ b.LosesSection p.length := by
      rintro ⟨-, hle, -⟩
      rw [hne, List.length_nil, fatHeaderSize] at hle
      omega
    rw [if_pos hne, hne]
    rw [hne] at hnot
    exact ⟨⟨fun _ => hnot, fun _ => ⟨_, rfl⟩⟩, rfl⟩
  · rw [if_neg hne, parse_of_cut h hpre hcut hne]
    refine ⟨?_, rfl⟩
    split
    · rename_i hloses
      refine ⟨?_, fun hnot => absurd hloses hnot⟩
      rintro ⟨e, he⟩
      cases he
    · rename_i hnot
      exact ⟨fun _ => hnot, fun _ => ⟨_, rfl⟩⟩

end Cuts

/-- A body of three bytes of code with a finally handler, cut in its clause. -/
theorem truncated_error_in_clause :
    let b : Body :=
      ⟨8, ⟨0⟩, false, [⟨.nop, .none⟩, ⟨.endfinally, .none⟩, ⟨.ret, .none⟩],
        [⟨⟨2⟩, 0, 1, 1, 2, none, none⟩]⟩
    let p : Bytes :=
      [0x0B, 0x30, 8, 0, 3, 0, 0, 0, 0, 0, 0, 0, 0x00, 0xDC, 0x2A] ++
        [0, 0x01, 16, 0, 0, 2, 0, 0, 0, 1]
    let data : Bytes := p ++ [1, 0, 1, 0, 0, 0, 0]
    b.encode = .ok data ∧ p <+: data ∧ p ≠ data ∧
      ((∃ e, parse p = .error e) ↔ ¬ b.LosesSection p.length) ∧
      parse p =
        if p = [] then .error (.malformed .noData)
        else if b.LosesSection p.length then .ok { b with handlers := [] }
        else .error .outOfBounds := by
  intro b p data
  have h : b.encode = .ok data := by
    simp only [b, data, p]
    exact eq_ok_of_toOption (by decide +kernel)
  have hpre : p <+: data := List.prefix_append _ _
  have hcut : p ≠ data := by
    simp only [data, p]
    decide
  exact ⟨h, hpre, hcut, truncated_error_iff h hpre hcut⟩

/-- The same body, cut at the end of its code: it parses, and the handler is gone. -/
theorem truncated_accepted :
    let b : Body :=
      ⟨8, ⟨0⟩, false, [⟨.nop, .none⟩, ⟨.endfinally, .none⟩, ⟨.ret, .none⟩],
        [⟨⟨2⟩, 0, 1, 1, 2, none, none⟩]⟩
    ∃ data p, b.encode = .ok data ∧ p <+: data ∧ p ≠ data ∧
      parse p = .ok { b with handlers := [] } ∧ ¬ ∃ e, parse p = .error e := by
  intro b
  have h : b.encode = .ok ([0x0B, 0x30, 8, 0, 3, 0, 0, 0, 0, 0, 0, 0, 0x00, 0xDC, 0x2A] ++
      [0, 0x01, 16, 0, 0, 2, 0, 0, 0, 1, 1, 0, 1, 0, 0, 0, 0]) := by
    simp only [b]
    exact eq_ok_of_toOption (by decide +kernel)
  have hparse : parse [0x0B, 0x30, 8, 0, 3, 0, 0, 0, 0, 0, 0, 0, 0x00, 0xDC, 0x2A] =
      .ok { b with handlers := [] } := eq_ok_of_toOption (by decide +kernel)
  refine ⟨_, _, h, List.prefix_append _ _, by decide, hparse, ?_⟩
  rw [hparse]
  rintro ⟨e, he⟩
  cases he

end Body

end CilGraft
