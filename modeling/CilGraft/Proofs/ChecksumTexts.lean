import CilGraft.Proofs.HeaderGrammar
import CilGraft.Proofs.StoredChecksums
import CilGraft.Text.Casing

/-!
# The texts of a checksum

A stored text is read in two ways: `parse` reads pairs of characters, and `agreesWith` compares the
text with the digits of a checksum. They read the same texts, except that `parse` takes a plus sign
and a digit for a pair, which is in the text of no checksum.

* `Text.IsHexDigit`, `hexValue?_eq_some_iff` — the digits, and their values whatever their case.
* `Text.lower_of_ascii` — lower case of an ASCII text.
* `Checksum.IsDigits`, `Checksum.IsPairs` — the texts of digits, and those that are accepted.
* `Checksum.agreesWith_iff` — a text names the checksum that is read from it, unless it has a plus
  sign.
* `Checksum.readers_agree_iff` — the two readers on every text.
* `Sample.plus_sign_accepted` — a text that is accepted, and that names no checksum.
-/

set_option autoImplicit false

namespace CilGraft

namespace Text

/-! ## Digits of either case -/

/-- A digit in base sixteen. -/
def IsHexDigit (c : Char) : Prop :=
  ('0' ≤ c ∧ c ≤ '9') ∨ ('a' ≤ c ∧ c ≤ 'f') ∨ ('A' ≤ c ∧ c ≤ 'F')

instance (c : Char) : Decidable (IsHexDigit c) :=
  inferInstanceAs (Decidable (_ ∨ _ ∨ _))

section Digits

variable {c : Char} {v : Nat}

/-- A property of all ASCII characters, from their numbers. -/
theorem forall_ascii {P : Char → Prop} (h : ∀ n < 128, P (Char.ofNat n)) :
    ∀ c : Char, c.toNat < 128 → P c := by
  intro c hc
  have hp := h c.toNat hc
  rwa [Char.ofNat_toNat] at hp

theorem toLower_of_not_ascii (h : ¬ c.toNat < 128) : c.toLower = c := by
  apply dif_neg
  rintro ⟨-, hle⟩
  have hnat : c.toNat ≤ 90 := UInt32.le_iff_toNat_le.1 hle
  omega

theorem toNat_lt_of_hexValue? (h : hexValue? c = some v) : c.toNat < 128 ∧ v < 16 := by
  simp only [hexValue?, Bool.and_eq_true, decide_eq_true_eq] at h
  split at h
  · cases h
    omega
  · split at h
    · cases h
      omega
    · split at h
      · cases h
        omega
      · cases h

/-- The value of a digit is told by its lower-case form. -/
theorem hexValue?_eq_some_iff : hexValue? c = some v ↔ v < 16 ∧ c.toLower = hexDigit v := by
  have hall : ∀ c : Char, c.toNat < 128 → ∀ v < 16,
      hexValue? c = some v ↔ c.toLower = hexDigit v :=
    forall_ascii (by decide +kernel)
  constructor
  · intro h
    obtain ⟨hc, hv⟩ := toNat_lt_of_hexValue? h
    exact ⟨hv, (hall c hc v hv).1 h⟩
  · rintro ⟨hv, h⟩
    by_cases hc : c.toNat < 128
    · exact (hall c hc v hv).2 h
    · rw [toLower_of_not_ascii hc] at h
      exact absurd (h ▸ toNat_hexDigit_lt v hv) hc

theorem IsHexDigit.toNat_lt (h : IsHexDigit c) : c.toNat < 128 := by
  rcases h with ⟨-, h⟩ | ⟨-, h⟩ | ⟨-, h⟩
  all_goals exact Nat.lt_of_le_of_lt (UInt32.le_iff_toNat_le.1 (Char.le_def.1 h)) (by decide)

theorem isHexDigit_iff : IsHexDigit c ↔ ∃ v, hexValue? c = some v := by
  have hall : ∀ c : Char, c.toNat < 128 → (IsHexDigit c ↔ (hexValue? c).isSome = true) :=
    forall_ascii (by decide +kernel)
  constructor
  · intro h
    exact Option.isSome_iff_exists.1 ((hall c h.toNat_lt).1 h)
  · rintro ⟨v, h⟩
    exact (hall c (toNat_lt_of_hexValue? h).1).2 (by rw [h]; rfl)

end Digits

/-! ## Lower case of ASCII texts -/

theorem lowerChar_of_ascii : ∀ c : Char, c.toNat < 128 → lowerChar c = c.toLower :=
  forall_ascii (by decide +kernel)

theorem lowerAfter_of_ascii {s : List Char} (h : ∀ c ∈ s, c.toNat < 128) (passed : List Char) :
    lowerAfter passed s = s.map Char.toLower := by
  induction s generalizing passed with
  | nil => rfl
  | cons c s ih =>
    obtain ⟨hc, hs⟩ := List.forall_mem_cons.1 h
    have hsigma : c ≠ 'Σ' := by
      rintro rfl
      exact absurd hc (by decide)
    have hdotted : c ≠ 'İ' := by
      rintro rfl
      exact absurd hc (by decide)
    rw [lowerAfter, if_neg hsigma, if_neg hdotted, ih hs, lowerChar_of_ascii c hc]
    rfl

/-- The lower-case form of an ASCII text is that of its letters. -/
theorem lower_of_ascii {s : List Char} (h : ∀ c ∈ s, c.toNat < 128) :
    lower s = s.map Char.toLower :=
  lowerAfter_of_ascii h []

end Text

namespace Checksum

/-! ## The texts that are read -/

/-- The text of thirty-two digits. -/
def IsDigits (s : List Char) : Prop := s.length = 2 * checksumSize ∧ ∀ c ∈ s, Text.IsHexDigit c

instance (s : List Char) : Decidable (IsDigits s) := inferInstanceAs (Decidable (_ ∧ _))

/-- The text of pairs of characters. -/
def unpaired (pairs : List (Char × Char)) : List Char := pairs.flatMap fun p => [p.1, p.2]

theorem length_unpaired (pairs : List (Char × Char)) : (unpaired pairs).length = 2 * pairs.length := by
  induction pairs with
  | nil => rfl
  | cons p pairs ih =>
    rw [unpaired, List.flatMap_cons, List.length_append, ← unpaired, ih, List.length_cons]
    simp only [List.length_cons, List.length_nil]
    omega

/-- The text of sixteen pairs, each of them two digits, or a plus sign and a digit. -/
def IsPairs (s : List Char) : Prop :=
  ∃ pairs, pairs.length = checksumSize ∧ s = unpaired pairs ∧
    ∀ p ∈ pairs, (Text.IsHexDigit p.1 ∨ p.1 = '+') ∧ Text.IsHexDigit p.2

variable {s : List Char} {c : Checksum} {bytes : Bytes} {high low : Char} {b : UInt8}

theorem exists_pairByte?_iff :
    (∃ b, pairByte? high low = some b) ↔ (Text.IsHexDigit high ∨ high = '+') ∧ Text.IsHexDigit low := by
  rw [Text.isHexDigit_iff, Text.isHexDigit_iff, pairByte?]
  cases hl : Text.hexValue? low with
  | none => simp
  | some l =>
    by_cases hplus : high = '+'
    · simp [hplus]
    · cases hh : Text.hexValue? high with
      | none => simp [hplus]
      | some h => simp [hplus]

/-- A pair without a plus sign is the byte whose digits it has, whatever their case. -/
theorem pairByte?_eq_some_iff :
    pairByte? high low = some b ∧ high ≠ '+' ↔ [high.toLower, low.toLower] = Text.hexByte b := by
  have hb := b.toNat_lt
  have hbyte : ∀ h l, h < 16 → l < 16 →
      (UInt8.ofNat (16 * h + l) = b ↔ h = b.toNat / 16 ∧ l = b.toNat % 16) := by
    intro h l hh hl
    rw [← UInt8.toNat_inj, UInt8.toNat_ofNat']
    omega
  constructor
  · rintro ⟨hpair, hplus⟩
    simp only [pairByte?, if_neg hplus] at hpair
    split at hpair
    · cases hpair
    · rename_i l hl
      obtain ⟨h, hh, hvalue⟩ := Option.map_eq_some_iff.1 hpair
      obtain ⟨hl16, hlow⟩ := Text.hexValue?_eq_some_iff.1 hl
      obtain ⟨hh16, hhigh⟩ := Text.hexValue?_eq_some_iff.1 hh
      obtain ⟨rfl, rfl⟩ := (hbyte h l hh16 hl16).1 hvalue
      rw [hhigh, hlow, Text.hexByte]
  · intro h
    simp only [Text.hexByte, List.cons.injEq, and_true] at h
    obtain ⟨hhigh, hlow⟩ := h
    have hplus : high ≠ '+' := by
      rintro rfl
      exact absurd hhigh ((by decide : ∀ n < 16, '+'.toLower ≠ Text.hexDigit n) _ (by omega))
    have hh := Text.hexValue?_eq_some_iff.2 ⟨(by omega : b.toNat / 16 < 16), hhigh⟩
    have hl := Text.hexValue?_eq_some_iff.2 ⟨(by omega : b.toNat % 16 < 16), hlow⟩
    refine ⟨?_, hplus⟩
    simp only [pairByte?, hl, if_neg hplus, hh, Option.map_some, Option.some.injEq]
    exact (hbyte _ _ (by omega) (by omega)).2 ⟨rfl, rfl⟩

theorem pairBytes?_cons_iff {rest : List Char} :
    pairBytes? (high :: low :: rest) = some bytes ↔
      ∃ b others, pairByte? high low = some b ∧ pairBytes? rest = some others ∧
        bytes = b :: others := by
  rw [pairBytes?]
  cases hb : pairByte? high low with
  | none => simp
  | some b =>
    cases hrest : pairBytes? rest with
    | none => simp
    | some others => simp [eq_comm]

/-- The bytes of a text without a plus sign are those whose digits it has. -/
theorem pairBytes?_eq_some_iff : ∀ {s : List Char} {bytes : Bytes},
    pairBytes? s = some bytes ∧ '+' ∉ s ↔ s.map Char.toLower = bytes.flatMap Text.hexByte
  | [], [] => by simp [pairBytes?]
  | [], b :: bytes => by simp [pairBytes?, Text.hexByte]
  | [x], [] => by simp [pairBytes?]
  | [x], b :: bytes => by simp [pairBytes?, Text.hexByte]
  | high :: low :: rest, [] => by simp [pairBytes?_cons_iff]
  | high :: low :: rest, b :: bytes => by
    have ih : pairBytes? rest = some bytes ∧ '+' ∉ rest ↔
        rest.map Char.toLower = bytes.flatMap Text.hexByte := pairBytes?_eq_some_iff
    have hpair : pairByte? high low = some b ∧ high ≠ '+' ↔
        [high.toLower, low.toLower] = Text.hexByte b := pairByte?_eq_some_iff
    have happend : (high :: low :: rest).map Char.toLower = (b :: bytes).flatMap Text.hexByte ↔
        [high.toLower, low.toLower] = Text.hexByte b ∧
          rest.map Char.toLower = bytes.flatMap Text.hexByte := by
      simp [Text.hexByte, and_assoc]
    rw [happend, ← ih, ← hpair, pairBytes?_cons_iff]
    constructor
    · rintro ⟨⟨b', others, hb, hrest, heq⟩, hplus⟩
      obtain ⟨rfl, rfl⟩ := List.cons.inj heq
      simp only [List.mem_cons, not_or] at hplus
      exact ⟨⟨hb, Ne.symm hplus.1⟩, hrest, hplus.2.2⟩
    · rintro ⟨⟨hb, hhigh⟩, hrest, hplus⟩
      refine ⟨⟨b, bytes, hb, hrest, rfl⟩, ?_⟩
      have hlow : low ≠ '+' := by
        rintro rfl
        obtain ⟨-, hdigit⟩ := exists_pairByte?_iff.1 ⟨b, hb⟩
        exact absurd hdigit (by decide)
      simp [Ne.symm hhigh, Ne.symm hlow, hplus]

/-- What has bytes is a text of pairs. -/
theorem exists_pairs_of_pairBytes? : ∀ {s : List Char} {bytes : Bytes},
    pairBytes? s = some bytes → ∃ pairs, pairs.length = bytes.length ∧ s = unpaired pairs ∧
      ∀ p ∈ pairs, (Text.IsHexDigit p.1 ∨ p.1 = '+') ∧ Text.IsHexDigit p.2
  | [], bytes, h => by
    cases h
    exact ⟨[], rfl, rfl, List.forall_mem_nil _⟩
  | [x], bytes, h => by cases h
  | high :: low :: rest, bytes, h => by
    obtain ⟨b, others, hb, hothers, rfl⟩ := pairBytes?_cons_iff.1 h
    obtain ⟨pairs, hlength, rfl, hpairs⟩ := exists_pairs_of_pairBytes? hothers
    refine ⟨(high, low) :: pairs, by simp [hlength], rfl, ?_⟩
    exact List.forall_mem_cons.2 ⟨exists_pairByte?_iff.1 ⟨b, hb⟩, hpairs⟩

theorem exists_pairBytes?_unpaired {pairs : List (Char × Char)}
    (h : ∀ p ∈ pairs, (Text.IsHexDigit p.1 ∨ p.1 = '+') ∧ Text.IsHexDigit p.2) :
    ∃ bytes, pairBytes? (unpaired pairs) = some bytes ∧ bytes.length = pairs.length := by
  induction pairs with
  | nil => exact ⟨[], rfl, rfl⟩
  | cons p pairs ih =>
    obtain ⟨hp, hpairs⟩ := List.forall_mem_cons.1 h
    obtain ⟨bytes, hbytes, hlength⟩ := ih hpairs
    obtain ⟨b, hb⟩ := exists_pairByte?_iff.2 hp
    exact ⟨b :: bytes, pairBytes?_cons_iff.2 ⟨b, bytes, hb, hbytes, rfl⟩, by simp [hlength]⟩

/-- Digits in an even number are the digits of bytes, whatever their case. -/
theorem exists_hexBytes : ∀ {s : List Char} {n : Nat}, s.length = 2 * n →
    (∀ c ∈ s, Text.IsHexDigit c) →
      ∃ bytes : Bytes, bytes.length = n ∧ s.map Char.toLower = bytes.flatMap Text.hexByte
  | [], n, hlength, _ => by
    have hn : n = 0 := by simp at hlength; omega
    exact ⟨[], hn.symm, rfl⟩
  | [x], n, hlength, _ => by simp at hlength; omega
  | high :: low :: rest, n, hlength, hdigits => by
    simp only [List.length_cons] at hlength
    simp only [List.forall_mem_cons] at hdigits
    obtain ⟨hhigh, hlow, hrest⟩ := hdigits
    obtain ⟨bytes, hbytes, hmap⟩ := exists_hexBytes (s := rest) (n := n - 1) (by omega) hrest
    obtain ⟨b, hb⟩ := exists_pairByte?_iff.2 ⟨.inl hhigh, hlow⟩
    have hplus : high ≠ '+' := by
      rintro rfl
      exact absurd hhigh (by decide)
    refine ⟨b :: bytes, by simp only [List.length_cons]; omega, ?_⟩
    rw [List.flatMap_cons, ← pairByte?_eq_some_iff.1 ⟨hb, hplus⟩, ← hmap]
    rfl

/-! ## The two readers -/

theorem parse_eq_ok_iff : parse s = .ok c ↔ pairBytes? (Text.trim s) = some c.bytes := by
  unfold parse
  dsimp only
  split
  · rename_i hnone
    simp [hnone]
  · rename_i bytes hbytes
    rw [hbytes]
    split
    · rename_i hlength
      rw [Except.ok.injEq, Option.some.injEq]
      exact ⟨fun h => h ▸ rfl, fun h => by cases c; cases h; rfl⟩
    · rename_i hlength
      simp only [reduceCtorEq, Option.some.injEq, false_iff]
      rintro rfl
      exact hlength c.length_bytes

theorem plus_mem_trim_iff : '+' ∈ Text.trim s ↔ '+' ∈ s := by
  constructor
  · exact Text.mem_of_mem_trim
  · intro h
    obtain ⟨front, back, hs, hfront, hback⟩ := Text.exists_trim s
    rw [hs, List.mem_append, List.mem_append] at h
    rcases h with (h | h) | h
    · exact absurd (hfront _ h) (by decide)
    · exact h
    · exact absurd (hback _ h) (by decide)

/-- **A text names the checksum that is read from it**, unless it has a plus sign. -/
theorem agreesWith_iff : c.agreesWith s = true ↔ parse s = .ok c ∧ '+' ∉ s := by
  rw [agreesWith, Text.sameIgnoringAsciiCase, beq_iff_eq, map_toLower_hex, hex,
    ← pairBytes?_eq_some_iff, plus_mem_trim_iff, parse_eq_ok_iff]

theorem exists_parse_iff : (∃ c, parse s = .ok c) ↔ IsPairs (Text.trim s) := by
  constructor
  · rintro ⟨c, h⟩
    obtain ⟨pairs, hlength, hs, hpairs⟩ := exists_pairs_of_pairBytes? (parse_eq_ok_iff.1 h)
    exact ⟨pairs, hlength.trans c.length_bytes, hs, hpairs⟩
  · rintro ⟨pairs, hlength, hs, hpairs⟩
    obtain ⟨bytes, hbytes, hsize⟩ := exists_pairBytes?_unpaired hpairs
    exact ⟨⟨bytes, hsize.trans hlength⟩, parse_eq_ok_iff.2 (hs ▸ hbytes)⟩

/-- The texts of digits are those that name a checksum. -/
theorem isDigits_iff : IsDigits (Text.trim s) ↔ ∃ c, parse s = .ok c ∧ '+' ∉ s := by
  constructor
  · rintro ⟨hlength, hdigits⟩
    obtain ⟨bytes, hbytes, hmap⟩ := exists_hexBytes hlength hdigits
    obtain ⟨hpairs, hplus⟩ := pairBytes?_eq_some_iff.2 hmap
    exact ⟨⟨bytes, hbytes⟩, parse_eq_ok_iff.2 hpairs, mt plus_mem_trim_iff.2 hplus⟩
  · rintro ⟨c, h, hplus⟩
    obtain ⟨pairs, hlength, hs, hpairs⟩ := exists_pairs_of_pairBytes? (parse_eq_ok_iff.1 h)
    rw [← plus_mem_trim_iff] at hplus
    rw [hs] at hplus ⊢
    refine ⟨by rw [length_unpaired, hlength, c.length_bytes], ?_⟩
    intro x hx
    obtain ⟨p, hp, hxp⟩ := List.mem_flatMap.1 hx
    obtain ⟨hhigh, hlow⟩ := hpairs p hp
    simp only [List.mem_cons, List.not_mem_nil, or_false] at hxp
    rcases hxp with rfl | rfl
    · exact hhigh.resolve_right fun heq => hplus (heq ▸ hx)
    · exact hlow

theorem plus_mem_lower (h : '+' ∈ s) : '+' ∈ Text.lower s := by
  have hafter : ∀ passed : List Char, '+' ∈ Text.lowerAfter passed s := by
    induction s with
    | nil => cases h
    | cons x s ih =>
      intro passed
      rw [Text.lowerAfter]
      rcases List.mem_cons.1 h with rfl | h
      · have hplus : Text.lowerChar '+' = '+' := Text.lowerChar_of_ascii _ (by decide)
        exact List.mem_append_left _ (by simp [hplus])
      · exact List.mem_append_right _ (ih h _)
  exact hafter []

/-- The text of a checksum is the text that it is read from in lower case. -/
theorem hex_eq_lower_iff (h : parse s = .ok c) : c.hex = Text.lower (Text.trim s) ↔ '+' ∉ s := by
  constructor
  · intro hlower hplus
    have hmem : '+' ∈ c.hex := hlower ▸ plus_mem_lower (plus_mem_trim_iff.2 hplus)
    exact c.forall_mem_hex (P := (· ≠ '+')) (by decide) '+' hmem rfl
  · intro hplus
    obtain ⟨-, hdigits⟩ := isDigits_iff.2 ⟨c, h, hplus⟩
    have hmap := pairBytes?_eq_some_iff.1
      ⟨parse_eq_ok_iff.1 h, mt plus_mem_trim_iff.1 hplus⟩
    rw [Text.lower_of_ascii fun x hx => (hdigits x hx).toNat_lt, hmap, hex]

/-- **The two readers of a text.** A text is read when it has sixteen pairs, of which those with a plus
sign have no other reading: without a plus sign it is read exactly when it has thirty-two digits,
and the checksum that is read is the one that the text names and whose digits it has. -/
theorem readers_agree_iff (s : List Char) :
    ((∃ c, parse s = .ok c) ↔ IsPairs (Text.trim s)) ∧
      (IsDigits (Text.trim s) ↔ (∃ c, parse s = .ok c) ∧ '+' ∉ s) ∧
      (∀ c, parse s = .ok c →
        (c.agreesWith s = true ↔ '+' ∉ s) ∧ (c.hex = Text.lower (Text.trim s) ↔ '+' ∉ s)) ∧
      (∀ c, c.agreesWith s = true → parse s = .ok c) ∧ ∀ c, parse (hex c) = .ok c := by
  refine ⟨exists_parse_iff, ?_, ?_, ?_, parse_hex⟩
  · rw [isDigits_iff, exists_and_right]
  · intro c h
    refine ⟨?_, hex_eq_lower_iff h⟩
    rw [agreesWith_iff]
    exact and_iff_right h
  · intro c h
    exact (agreesWith_iff.1 h).1

end Checksum

namespace Sample

/-- A checksum of the bytes from 0x80 on. -/
def storedChecksum : Checksum :=
  ⟨[0x80, 0x91, 0xA2, 0xB3, 0xC4, 0xD5, 0xE6, 0xF7, 0x08, 0x19, 0x2A, 0x3B, 0x4C, 0x5D, 0x6E, 0x7F], rfl⟩

/-- Its text in upper case, in a line. -/
def upperText : List Char := " 8091A2B3C4D5E6F708192A3B4C5D6E7F\r\n".toList

/-- A text in upper case is read, names its checksum, and has its digits. -/
theorem upper_text_read :
    (Checksum.parse upperText = .ok storedChecksum ∧ '+' ∉ upperText) ∧
      storedChecksum.agreesWith upperText = true ∧
        storedChecksum.hex = Text.lower (Text.trim upperText) := by
  have hread : Checksum.parse upperText = .ok storedChecksum := by decide +kernel
  have hplain : '+' ∉ upperText := by decide +kernel
  obtain ⟨hagrees, hhex⟩ := (Checksum.readers_agree_iff upperText).2.2.1 storedChecksum hread
  exact ⟨⟨hread, hplain⟩, hagrees.2 hplain, hhex.2 hplain⟩

/-- The digits of a checksum whose first byte is small, with a plus sign for the zero in front. -/
def plusText : List Char := "+891A2B3C4D5E6F708192A3B4C5D6E7F".toList

/-- The checksum that is read from it. -/
def plusChecksum : Checksum :=
  ⟨[0x08, 0x91, 0xA2, 0xB3, 0xC4, 0xD5, 0xE6, 0xF7, 0x08, 0x19, 0x2A, 0x3B, 0x4C, 0x5D, 0x6E, 0x7F], rfl⟩

/-- A text with a plus sign is read although it has no thirty-two digits. It does not name the checksum
that is read from it. -/
theorem plus_sign_accepted :
    Checksum.parse plusText = .ok plusChecksum ∧ ¬ Checksum.IsDigits (Text.trim plusText) ∧
      plusChecksum.agreesWith plusText = false ∧
        plusChecksum.hex ≠ Text.lower (Text.trim plusText) := by
  have hread : Checksum.parse plusText = .ok plusChecksum := by decide +kernel
  have hplus : '+' ∈ plusText := by decide +kernel
  refine ⟨hread, fun hdigits => ?_, ?_, fun hlower => ?_⟩
  · obtain ⟨c, -, hnone⟩ := Checksum.isDigits_iff.1 hdigits
    exact hnone hplus
  · rw [← Bool.not_eq_true]
    intro hagrees
    exact (Checksum.agreesWith_iff.1 hagrees).2 hplus
  · exact (Checksum.hex_eq_lower_iff hread).1 hlower hplus

end Sample

end CilGraft
