import CilGraft.Text.Digits

/-!
# The shortest decimal that reads back

A binary number stands for an interval of reals: those that round to it. Its shortest decimal is
the number of the coarsest decimal grid `10 ^ k · ℤ` that lies in the interval.

* `Reading` — a positive number with its interval, over a common denominator.
* `Reading.onGrid? r k` — the multiple of `10 ^ k` that stands for the number: of the two
  multiples beside it those in the interval, of two the nearer, of two equally near the greater.
* `Reading.shortest r top depth` — the first hit when the grids are tried from `10 ^ top`
  downwards.
* `positional d k` — the text of `d · 10 ^ k` without an exponent.
-/

set_option autoImplicit false

namespace CilGraft.Decimal

/-- The number `value / den` and the interval from `low / den` to `high / den` of the reals that
stand for it; the ends belong to it when `closed` is set. -/
structure Reading where
  value : Nat
  low : Nat
  high : Nat
  den : Nat
  closed : Bool

/-- The decimal `d · 10 ^ k` stands for the number, where `up / down` is `10 ^ (-k)` over the
denominator. -/
def Reading.admits (r : Reading) (up down d : Nat) : Bool :=
  if r.closed then r.low * up ≤ d * down && d * down ≤ r.high * up
  else r.low * up < d * down && d * down < r.high * up

/-- The multiple of `10 ^ k` that stands for the number, as its factor. -/
def Reading.onGrid? (r : Reading) (k : Int) : Option Nat :=
  let up := Nat.pow 10 (-k).toNat
  let down := r.den * Nat.pow 10 k.toNat
  let floor := r.value * up / down
  match r.admits up down floor, r.admits up down (floor + 1) with
  | true, true =>
    if (floor + 1) * down - r.value * up ≤ r.value * up - floor * down then some (floor + 1)
    else some floor
  | true, false => some floor
  | false, true => some (floor + 1)
  | false, false => none

/-- The first hit on the grids `10 ^ top`, `10 ^ (top - 1)`, …, `10 ^ (top - depth + 1)`: the factor
and the exponent of the grid. -/
def Reading.shortest (r : Reading) (top : Int) : Nat → Option (Nat × Int)
  | 0 => none
  | depth + 1 =>
    match r.onGrid? top with
    | some d => some (d, top)
    | none => r.shortest (top - 1) depth

/-- The text of `d · 10 ^ k` in positional form, without a point when it is whole. -/
def positional (d : Nat) (k : Int) : List Char :=
  let ds := Text.decimal d
  if 0 ≤ k then ds ++ List.replicate k.toNat '0'
  else
    let places := (-k).toNat
    if places < ds.length then
      ds.take (ds.length - places) ++ '.' :: ds.drop (ds.length - places)
    else '0' :: '.' :: List.replicate (places - ds.length) '0' ++ ds

end CilGraft.Decimal
