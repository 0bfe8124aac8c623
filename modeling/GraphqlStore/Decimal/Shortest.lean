import GraphqlStore.Decimal.Binary64

/-!
The shortest decimal of a double-precision magnitude: of all decimals that
round to it, one on the coarsest grid of powers of ten, and of those on that
grid the nearest. The reals that round to a magnitude form an interval whose
ends belong to it exactly if the significand is even.
-/

set_option autoImplicit false

namespace GraphqlStore

/-- The decimal `digits * 10 ^ power`. -/
structure Decimal where
  digits : Nat
  power : Int
deriving DecidableEq, Repr

namespace Magnitude

/-- Ends and middle of the interval of a finite magnitude, as multiples of a quarter of its unit
in the last place. Below a power of two the neighbour is nearer. -/
structure Interval where
  low : Nat
  middle : Nat
  high : Nat
  closed : Bool

/-- The interval of reals that round to a finite magnitude. -/
def interval (significand : Nat) (exponent : Int) : Interval :=
  let middle := 4 * significand
  let narrow := significand = Nat.pow 2 (precision - 1) ∧ leastExponent < exponent
  { low := if narrow then middle - 1 else middle - 2
    middle := middle
    high := middle + 2
    closed := significand % 2 = 0 }

/-- A multiple of `2 ^ exponent` brought over the common denominator with `10 ^ power`: the
numerator of the multiple and of the power of ten. -/
def onGrid (multiple : Nat) (exponent power : Int) : Nat × Nat :=
  let binary := multiple * (if 0 ≤ exponent then Nat.pow 2 exponent.toNat else 1)
  let binaryDenominator := if 0 ≤ exponent then 1 else Nat.pow 2 (-exponent).toNat
  let decimal := if 0 ≤ power then Nat.pow 10 power.toNat else 1
  let decimalDenominator := if 0 ≤ power then 1 else Nat.pow 10 (-power).toNat
  (binary * decimalDenominator, decimal * binaryDenominator)

/-- The point of the grid of `10 ^ power` nearest to the middle of the interval, if one of its
two neighbours on the grid lies in the interval. -/
def gridPoint? (bounds : Interval) (exponent power : Int) : Option Nat :=
  let low := onGrid bounds.low exponent power
  let middle := onGrid bounds.middle exponent power
  let high := onGrid bounds.high exponent power
  let unit := middle.2
  let below := middle.1 / unit
  let inside (candidate : Nat) : Bool :=
    if bounds.closed then low.1 ≤ candidate * unit && candidate * unit ≤ high.1
    else low.1 < candidate * unit && candidate * unit < high.1
  let belowDistance := middle.1 - below * unit
  let aboveDistance := (below + 1) * unit - middle.1
  if inside below && inside (below + 1) then
    if belowDistance < aboveDistance then some below
    else if aboveDistance < belowDistance then some (below + 1)
    else some (if below % 2 = 0 then below else below + 1)
  else if inside below then some below
  else if inside (below + 1) then some (below + 1)
  else none

/-- The first grid with a point in the interval, going down from `10 ^ power` by at most `steps`
powers of ten. -/
def coarsest (bounds : Interval) (exponent : Int) : Nat → Int → Decimal
  | 0, power => ⟨0, power⟩
  | steps + 1, power =>
      match gridPoint? bounds exponent power with
      | some digits => ⟨digits, power⟩
      | none => coarsest bounds exponent steps (power - 1)

/-- The shortest decimal of a finite magnitude. A power of ten above the magnitude is estimated
from its power of two, and the grid is found within twenty steps of it. -/
def shortest (significand : Nat) (exponent : Int) : Decimal :=
  if significand = 0 then ⟨0, 0⟩
  else
    let binary := exponent + significand.log2 + 1
    let power := binary * 30103 / 100000 + 2
    coarsest (interval significand exponent) (exponent - 2) 400 power

end Magnitude

end GraphqlStore
