/-!
# Digits

Numbers in base ten and sixteen, with and without a least number of digits.

* `hex`, `hexUpper` — the digits of a number in base sixteen.
* `hexPadded width n` — at least `width` digits.
* `hexByte b` — the two digits of a byte.
* `hexValue? c` — the value of a hexadecimal digit of either case.
* `decimal` — the digits of a number in base ten; `signed` of an integer.
-/

set_option autoImplicit false

namespace CilGraft.Text

/-- The lower-case hexadecimal digit with the given value below sixteen. -/
def hexDigit (n : Nat) : Char :=
  if n < 10 then Char.ofNat (48 + n) else Char.ofNat (87 + n)

/-- The value of a hexadecimal digit of either case. -/
def hexValue? (c : Char) : Option Nat :=
  let n := c.toNat
  if 48 ≤ n && n ≤ 57 then some (n - 48)
  else if 97 ≤ n && n ≤ 102 then some (n - 87)
  else if 65 ≤ n && n ≤ 70 then some (n - 55)
  else none

/-- The digits of a number in base `base`, at most `fuel` of them, the last digit first. -/
def digitsLastFirst (base : Nat) : Nat → Nat → List Nat
  | 0, _ => []
  | fuel + 1, n => if n < base then [n] else n % base :: digitsLastFirst base fuel (n / base)

/-- The digits of a number in a base of at least two, the first digit first. -/
def digits (base n : Nat) : List Nat := (digitsLastFirst base (n + 1) n).reverse

/-- A number in base ten. -/
def decimal (n : Nat) : List Char := (digits 10 n).map hexDigit

/-- An integer in base ten, with a minus sign when it is negative. -/
def signed : Int → List Char
  | .ofNat n => decimal n
  | .negSucc n => '-' :: decimal (n + 1)

/-- A number in base sixteen with at least `width` digits. -/
def hexPadded (width n : Nat) : List Char :=
  let ds := (digits 16 n).map hexDigit
  List.replicate (width - ds.length) '0' ++ ds

/-- A number in base sixteen with upper-case letters and at least `width` digits. -/
def hexUpper (width n : Nat) : List Char := (hexPadded width n).map Char.toUpper

/-- The two digits of a byte. -/
def hexByte (b : UInt8) : List Char := [hexDigit (b.toNat / 16), hexDigit (b.toNat % 16)]

end CilGraft.Text
