import CilGraft.Bytes.Word

/-!
# MD5

The message digest of RFC 1321 over byte strings.

* `padded message` — the message, a single one bit, zeros, and the length in bits.
* `compress state block` — one block of sixteen words mixed into the state.
* `md5 message` — the sixteen bytes of the digest.
-/

set_option autoImplicit false

namespace CilGraft.Md5

/-- The four chaining words. -/
structure State where
  a : UInt32
  b : UInt32
  c : UInt32
  d : UInt32

/-- The chaining words before the first block. -/
def State.initial : State := ⟨0x67452301, 0xefcdab89, 0x98badcfe, 0x10325476⟩

/-- The integer part of `2 ^ 32 · |sin (i + 1)|` for the steps `0, …, 63`. -/
def sines : List UInt32 :=
  [0xd76aa478, 0xe8c7b756, 0x242070db, 0xc1bdceee, 0xf57c0faf, 0x4787c62a,
   0xa8304613, 0xfd469501, 0x698098d8, 0x8b44f7af, 0xffff5bb1, 0x895cd7be,
   0x6b901122, 0xfd987193, 0xa679438e, 0x49b40821, 0xf61e2562, 0xc040b340,
   0x265e5a51, 0xe9b6c7aa, 0xd62f105d, 0x02441453, 0xd8a1e681, 0xe7d3fbc8,
   0x21e1cde6, 0xc33707d6, 0xf4d50d87, 0x455a14ed, 0xa9e3e905, 0xfcefa3f8,
   0x676f02d9, 0x8d2a4c8a, 0xfffa3942, 0x8771f681, 0x6d9d6122, 0xfde5380c,
   0xa4beea44, 0x4bdecfa9, 0xf6bb4b60, 0xbebfbc70, 0x289b7ec6, 0xeaa127fa,
   0xd4ef3085, 0x04881d05, 0xd9d4d039, 0xe6db99e5, 0x1fa27cf8, 0xc4ac5665,
   0xf4292244, 0x432aff97, 0xab9423a7, 0xfc93a039, 0x655b59c3, 0x8f0ccc92,
   0xffeff47d, 0x85845dd1, 0x6fa87e4f, 0xfe2ce6e0, 0xa3014314, 0x4e0811a1,
   0xf7537e82, 0xbd3af235, 0x2ad7d2bb, 0xeb86d391]

/-- The rotations of the four rounds, repeated within each round. -/
def rotations : List (List UInt32) :=
  [[7, 12, 17, 22], [5, 9, 14, 20], [4, 11, 16, 23], [6, 10, 15, 21]]

/-- The word rotated to the left. -/
def rotateLeft (w n : UInt32) : UInt32 := (w <<< n) ||| (w >>> (32 - n))

/-- The mixing function of the round of step `i`. -/
def mix (i : Nat) (s : State) : UInt32 :=
  match i / 16 with
  | 0 => (s.b &&& s.c) ||| (~~~s.b &&& s.d)
  | 1 => (s.d &&& s.b) ||| (~~~s.d &&& s.c)
  | 2 => s.b ^^^ s.c ^^^ s.d
  | _ => s.c ^^^ (s.b ||| ~~~s.d)

/-- The word of the block that step `i` takes. -/
def wordIndex (i : Nat) : Nat :=
  match i / 16 with
  | 0 => i
  | 1 => (5 * i + 1) % 16
  | 2 => (3 * i + 5) % 16
  | _ => 7 * i % 16

/-- Step `i` of a block. -/
def step (block : Array UInt32) (s : State) (i : Nat) : State :=
  let sum := s.a + mix i s + sines.getD i 0 + block.getD (wordIndex i) 0
  let rotation := (rotations.getD (i / 16) []).getD (i % 4) 0
  ⟨s.d, s.b + rotateLeft sum rotation, s.b, s.c⟩

/-- One block of sixteen words mixed into the state. -/
def compress (s : State) (block : Array UInt32) : State :=
  let t := (List.range 64).foldl (step block) s
  ⟨s.a + t.a, s.b + t.b, s.c + t.c, s.d + t.d⟩

/-- The message with its padding; the length is a multiple of 64 bytes. -/
def padded (message : Bytes) : Bytes :=
  let zeros := (119 - message.length % 64) % 64
  message ++ 0x80 :: List.replicate zeros 0 ++ leBytes 8 (8 * message.length)

/-- The words of a byte string, at most `count` of them. -/
def words : Nat → Bytes → List UInt32
  | 0, _ => []
  | count + 1, bytes => Word.ofBytes UInt32 (bytes.take 4) :: words count (bytes.drop 4)

/-- The blocks of a byte string, at most `count` of them, mixed into the state. -/
def digestBlocks : Nat → Bytes → State → State
  | 0, _, s => s
  | count + 1, bytes, s =>
    digestBlocks count (bytes.drop 64) (compress s (words 16 (bytes.take 64)).toArray)

end CilGraft.Md5

namespace CilGraft

/-- The MD5 digest of a byte string. -/
def md5 (message : Bytes) : Bytes :=
  let bytes := Md5.padded message
  let s := Md5.digestBlocks (bytes.length / 64) bytes Md5.State.initial
  Word.toBytes s.a ++ Word.toBytes s.b ++ Word.toBytes s.c ++ Word.toBytes s.d

theorem length_md5 (message : Bytes) : (md5 message).length = 16 := by
  simp [md5]
  rfl

end CilGraft
