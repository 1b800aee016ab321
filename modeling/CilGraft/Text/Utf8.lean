/-!
# UTF-8

* `encode` — the bytes of a text.
* `decode?` — the text with the given bytes, when they are well formed.
* `decodeLossy` — the text with every malformed stretch replaced by U+FFFD. A stretch is the
  longest beginning of a well-formed character, or one byte where none begins.
* `endOfSize?` — the end of a text that has a given number of bytes.
-/

set_option autoImplicit false

namespace CilGraft.Text.Utf8

/-- The bytes of a text. -/
def encode (s : List Char) : List UInt8 := s.flatMap String.utf8EncodeChar

/-- The first characters with a given number of bytes, when a character ends there. -/
def frontOfSize? : Nat → List Char → Option (List Char)
  | 0, _ => some []
  | _ + 1, [] => none
  | n + 1, c :: s =>
    if c.utf8Size ≤ n + 1 then (frontOfSize? (n + 1 - c.utf8Size) s).map (c :: ·) else none

/-- The last characters with a given number of bytes, when a character begins there. -/
def endOfSize? (n : Nat) (s : List Char) : Option (List Char) :=
  (frontOfSize? n s.reverse).map List.reverse

/-- A byte inside a character. -/
def isContinuation (b : UInt8) : Bool := 0x80 ≤ b && b ≤ 0xBF

/-- The second bytes that may follow the first byte of a three- or four-byte character: shorter
forms, surrogates and code points above U+10FFFF are excluded here. -/
def secondRange (b : UInt8) : UInt8 × UInt8 :=
  if b = 0xE0 then (0xA0, 0xBF)
  else if b = 0xED then (0x80, 0x9F)
  else if b = 0xF0 then (0x90, 0xBF)
  else if b = 0xF4 then (0x80, 0x8F)
  else (0x80, 0xBF)

/-- The number of bytes of a character that begins with `b`; `0` where none does. -/
def lengthOf (b : UInt8) : Nat :=
  if b < 0x80 then 1
  else if 0xC2 ≤ b && b ≤ 0xDF then 2
  else if 0xE0 ≤ b && b ≤ 0xEF then 3
  else if 0xF0 ≤ b && b ≤ 0xF4 then 4
  else 0

/-- The low bits of a byte inside a character. -/
def low (b : UInt8) : Nat := b.toNat % 64

/-- The first character of the bytes `b :: rest`, `none` when a malformed stretch stands there,
and the bytes behind it. -/
def decodeFirst (b : UInt8) (rest : List UInt8) : Option Char × List UInt8 :=
  match lengthOf b, rest with
  | 1, _ => (some (Char.ofNat b.toNat), rest)
  | 2, c :: r =>
    if isContinuation c then (some (Char.ofNat (b.toNat % 32 * 64 + low c)), r) else (none, rest)
  | 3, c :: r =>
    if (secondRange b).1 ≤ c && c ≤ (secondRange b).2 then
      match r with
      | d :: r' =>
        if isContinuation d then
          (some (Char.ofNat ((b.toNat % 16 * 64 + low c) * 64 + low d)), r')
        else (none, r)
      | [] => (none, r)
    else (none, rest)
  | 4, c :: r =>
    if (secondRange b).1 ≤ c && c ≤ (secondRange b).2 then
      match r with
      | d :: r' =>
        if isContinuation d then
          match r' with
          | e :: r'' =>
            if isContinuation e then
              (some (Char.ofNat (((b.toNat % 8 * 64 + low c) * 64 + low d) * 64 + low e)), r'')
            else (none, r')
          | [] => (none, r')
        else (none, r)
      | [] => (none, r)
    else (none, rest)
  | _, _ => (none, rest)

theorem length_decodeFirst_le (b : UInt8) (rest : List UInt8) :
    (decodeFirst b rest).2.length ≤ rest.length := by
  unfold decodeFirst
  split
  · exact Nat.le_refl _
  · split <;> simp
  · split
    · split
      · split
        · simp; omega
        · simp
      · simp
    · simp
  · split
    · split
      · split
        · split
          · split
            · simp; omega
            · simp
          · simp
        · simp
      · simp
    · simp
  · exact Nat.le_refl _

/-- The characters of a byte string, `none` for each malformed stretch. -/
def scan : List UInt8 → List (Option Char)
  | [] => []
  | b :: rest => (decodeFirst b rest).1 :: scan (decodeFirst b rest).2
termination_by bs => bs.length
decreasing_by
  have := length_decodeFirst_le b rest
  simp only [List.length_cons]
  omega

/-- The text with the given bytes, when they are well formed. -/
def decode? (bytes : List UInt8) : Option (List Char) := (scan bytes).mapM id

/-- The text with the given bytes, a replacement character for each malformed stretch. -/
def decodeLossy (bytes : List UInt8) : List Char := (scan bytes).map (·.getD '\uFFFD')

end CilGraft.Text.Utf8
