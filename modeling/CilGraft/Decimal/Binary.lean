import CilGraft.Decimal.Shortest

/-!
# Binary floating-point values

A floating-point value is kept as its bit pattern, so that no payload of a NaN is lost and two
values are equal exactly when their bits are.

* `Binary32`, `Binary64` — the bit patterns of the two widths.
* `Layout.reading l bits` — the number that the bits stand for and the interval that rounds to it.
* `Binary32.text`, `Binary64.text` — the shortest decimal that reads back, never with an
  exponent: `1`, `-0`, `0.1`, `inf`, `-inf`, and `NaN` without a sign.
-/

set_option autoImplicit false

namespace CilGraft

/-- A single-precision value as its bits. -/
structure Binary32 where
  bits : UInt32
  deriving DecidableEq, Repr, Inhabited

/-- A double-precision value as its bits. -/
structure Binary64 where
  bits : UInt64
  deriving DecidableEq, Repr, Inhabited

namespace Decimal

/-- The widths of the fields of a binary format: `fraction` low bits, then `exponent` bits, then the
sign. -/
structure Layout where
  fraction : Nat
  exponent : Nat

/-- The single-precision format. -/
def Layout.single : Layout := ⟨23, 8⟩

/-- The double-precision format. -/
def Layout.double : Layout := ⟨52, 11⟩

/-- The fraction field. -/
def Layout.fractionOf (l : Layout) (bits : Nat) : Nat := bits % Nat.pow 2 l.fraction

/-- The exponent field. -/
def Layout.exponentOf (l : Layout) (bits : Nat) : Nat := bits / Nat.pow 2 l.fraction % Nat.pow 2 l.exponent

/-- The sign bit is set. -/
def Layout.isNegative (l : Layout) (bits : Nat) : Bool :=
  bits / Nat.pow 2 (l.fraction + l.exponent) % 2 == 1

/-- The exponent field is that of infinities and NaNs. -/
def Layout.isSpecial (l : Layout) (bits : Nat) : Bool := l.exponentOf bits == Nat.pow 2 l.exponent - 1

/-- The magnitude of a finite value other than zero, in quarters of a unit in the last place. The
interval reaches half a unit to both sides, but only a quarter down from a power of two, where the
next lower value is nearer; its ends round to the value when the fraction is even. -/
def Layout.reading (l : Layout) (bits : Nat) : Reading :=
  let fraction := l.fractionOf bits
  let field := l.exponentOf bits
  let significand := if field = 0 then fraction else fraction + Nat.pow 2 l.fraction
  let below := if field ≠ 0 ∧ fraction = 0 then 1 else 2
  let power : Int := (max field 1 : Nat) - (Nat.pow 2 (l.exponent - 1) - 1 : Nat) - (l.fraction : Nat) - 2
  let up := Nat.pow 2 power.toNat
  { value := 4 * significand * up
    low := (4 * significand - below) * up
    high := (4 * significand + 2) * up
    den := Nat.pow 2 (-power).toNat
    closed := fraction % 2 == 0 }

/-- The text of a bit pattern. `top` is an exponent of ten above every value of the format and
`depth` the number of grids from there to the finest one needed. -/
def Layout.text (l : Layout) (top depth bits : Nat) : List Char :=
  let sign := if l.isNegative bits then ['-'] else []
  if l.isSpecial bits then
    if l.fractionOf bits = 0 then sign ++ ['i', 'n', 'f'] else ['N', 'a', 'N']
  else if l.exponentOf bits = 0 ∧ l.fractionOf bits = 0 then sign ++ ['0']
  else
    match (l.reading bits).shortest top depth with
    | some (d, k) => sign ++ positional d k
    | none => sign ++ ['0']

end Decimal

/-- The shortest decimal that reads back as this value. -/
def Binary32.text (x : Binary32) : List Char := Decimal.Layout.single.text 39 100 x.bits.toNat

/-- The shortest decimal that reads back as this value. -/
def Binary64.text (x : Binary64) : List Char := Decimal.Layout.double.text 309 660 x.bits.toNat

end CilGraft
