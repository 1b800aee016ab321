import CilGraft.Digest.Checksum
import CilGraft.Steps

/-!
# Checksums that are stored

A checksum is stored as the text of its digits. The text is read back as it was stored, and it names
no other checksum.

* `Utf8.decode?_encode` — a text of ASCII characters is the text of its bytes.
* `Checksum.parse_hex`, `hex_injective` — a stored text is the text of one checksum.
* `Checksum.agreesWith_hex` — the checksum that a stored text names.
* `Checksum.readText_hex` — the stored text that a file has.
-/

set_option autoImplicit false

namespace CilGraft

namespace Text

/-! ## ASCII texts -/

namespace Utf8

theorem utf8EncodeChar_of_ascii {c : Char} (h : c.toNat < 128) :
    String.utf8EncodeChar c = [UInt8.ofNat c.toNat] := by
  have hval : c.val.toNat ≤ 127 := Nat.le_of_lt_succ h
  rw [String.utf8EncodeChar, if_pos hval]
  rfl

theorem scan_cons_of_ascii {c : Char} (h : c.toNat < 128) (bytes : List UInt8) :
    scan (UInt8.ofNat c.toNat :: bytes) = some c :: scan bytes := by
  have hnat : (UInt8.ofNat c.toNat).toNat = c.toNat := by
    rw [UInt8.toNat_ofNat']
    omega
  have hsize : lengthOf (UInt8.ofNat c.toNat) = 1 := by
    refine if_pos (UInt8.lt_iff_toNat_lt.2 ?_)
    rwa [hnat]
  have hfirst : decodeFirst (UInt8.ofNat c.toNat) bytes = (some c, bytes) := by
    unfold decodeFirst
    rw [hsize, hnat, Char.ofNat_toNat]
    cases bytes <;> rfl
  rw [scan, hfirst]

/-- A text of ASCII characters is read as it is written. -/
theorem decode?_encode {s : List Char} (h : ∀ c ∈ s, c.toNat < 128) :
    decode? (encode s) = some s := by
  have hscan : scan (encode s) = s.map some := by
    induction s with
    | nil => rw [encode, List.flatMap_nil, scan, List.map_nil]
    | cons c s ih =>
      obtain ⟨hc, hs⟩ := List.forall_mem_cons.1 h
      rw [encode, List.flatMap_cons, utf8EncodeChar_of_ascii hc]
      exact (scan_cons_of_ascii hc _).trans (congrArg (some c :: ·) (ih hs))
  rw [decode?, hscan, List.mapM_map]
  exact (List.mapM_pure (m := Option) (l := s) (f := id)).trans (congrArg some (List.map_id s))

end Utf8

/-! ## Digits -/

theorem toNat_hexDigit_lt : ∀ n < 16, (hexDigit n).toNat < 128 := by decide

theorem isBlank_hexDigit : ∀ n < 16, isBlank (hexDigit n) = false := by decide

theorem toLower_hexDigit : ∀ n < 16, (hexDigit n).toLower = hexDigit n := by decide

/-- A property of all digits holds of the two digits of a byte. -/
theorem forall_mem_hexByte {P : Char → Prop} (h : ∀ n < 16, P (hexDigit n)) (b : UInt8) :
    ∀ c ∈ hexByte b, P c := by
  have hb := b.toNat_lt
  simp only [hexByte, List.mem_cons, List.not_mem_nil, or_false, forall_eq_or_imp, forall_eq]
  exact ⟨h _ (by omega), h _ (by omega)⟩

theorem trim_of_not_blank {s : List Char} (h : ∀ c ∈ s, isBlank c = false) : trim s = s := by
  have hstays : ∀ t : List Char, (∀ c ∈ t, isBlank c = false) → t.dropWhile isBlank = t := by
    intro t ht
    cases t with
    | nil => rfl
    | cons c t => rw [List.dropWhile_cons, ht c (.head _), if_neg Bool.false_ne_true]
  rw [trim, trimStart, hstays s h, trimEnd,
    hstays s.reverse fun c hc => h c (List.mem_reverse.1 hc), List.reverse_reverse]

end Text

namespace Checksum

/-! ## The text of a checksum -/

theorem forall_mem_hex {P : Char → Prop} (h : ∀ n < 16, P (Text.hexDigit n)) (c : Checksum) :
    ∀ x ∈ c.hex, P x := by
  intro x hx
  obtain ⟨b, -, hxb⟩ := List.mem_flatMap.1 hx
  exact Text.forall_mem_hexByte h b x hxb

theorem pairByte?_hexDigit : ∀ h < 16, ∀ l < 16,
    pairByte? (Text.hexDigit h) (Text.hexDigit l) = some (UInt8.ofNat (16 * h + l)) := by decide

theorem pairBytes?_hex (bytes : Bytes) : pairBytes? (bytes.flatMap Text.hexByte) = some bytes := by
  induction bytes with
  | nil => rfl
  | cons b bytes ih =>
    have hb := b.toNat_lt
    have hbyte : UInt8.ofNat (16 * (b.toNat / 16) + b.toNat % 16) = b := by
      rw [Nat.div_add_mod, UInt8.ofNat_toNat]
    rw [List.flatMap_cons, Text.hexByte, List.cons_append, List.cons_append, List.nil_append,
      pairBytes?, pairByte?_hexDigit _ (by omega) _ (by omega), ih, hbyte]

theorem trim_hex (c : Checksum) : Text.trim c.hex = c.hex :=
  Text.trim_of_not_blank (c.forall_mem_hex Text.isBlank_hexDigit)

/-- **A stored checksum is read back.** -/
theorem parse_hex (c : Checksum) : parse c.hex = .ok c := by
  rw [parse, trim_hex, hex, pairBytes?_hex]
  exact dif_pos c.length_bytes

/-- Different checksums have different texts. -/
theorem hex_injective {c c' : Checksum} (h : c.hex = c'.hex) : c = c' := by
  have hparse := c.parse_hex
  rw [h, parse_hex, Except.ok.injEq] at hparse
  exact hparse.symm

theorem map_toLower_hex (c : Checksum) : c.hex.map Char.toLower = c.hex := by
  have hlower := c.forall_mem_hex (P := fun x => x.toLower = x) Text.toLower_hexDigit
  exact (List.map_congr_left hlower).trans (List.map_id _)

/-- **A stored text names the checksum that it is the text of**, and no other one. -/
theorem agreesWith_hex {c c' : Checksum} : c.agreesWith c'.hex = true ↔ c = c' := by
  rw [agreesWith, Text.sameIgnoringAsciiCase, trim_hex, map_toLower_hex, map_toLower_hex, beq_iff_eq]
  exact ⟨fun h => (hex_injective h).symm, fun h => h ▸ rfl⟩

/-- A file with the text of a checksum. -/
theorem readText_hex {d : Disk} {p : Path} {c : Checksum}
    (h : d.readFile p = .ok (Text.Utf8.encode c.hex)) : d.readText p = .ok c.hex := by
  refine bind_eq_ok_iff.2 ⟨_, h, ?_⟩
  rw [Text.Utf8.decode?_encode (c.forall_mem_hex Text.toNat_hexDigit_lt)]

end Checksum

end CilGraft
