/-!
Double-precision numbers as exact data: a sign and either an infinite
magnitude or a significand and a power of two. A finite magnitude is canonical:
the significand has 53 bits, unless the exponent is the least one. All
arithmetic here is on natural numbers, rounded once, to the nearest and in a
tie to the even significand.
-/

set_option autoImplicit false

namespace GraphqlStore

/-- The size of a double-precision number. -/
inductive Magnitude where
  | infinite
  | finite (significand : Nat) (exponent : Int)
deriving DecidableEq, Repr

/-- A double-precision number other than an undefined one. -/
structure Binary64 where
  negative : Bool
  magnitude : Magnitude
deriving DecidableEq, Repr

namespace Magnitude

/-- Bits of a full significand. -/
def precision : Nat := 53

/-- The exponent of the smallest magnitudes. -/
def leastExponent : Int := -1074

/-- The greatest exponent of a finite magnitude. -/
def greatestExponent : Int := 971

def zero : Magnitude := .finite 0 leastExponent

/-- A quotient rounded to the nearest whole number, a half to the even one. -/
def roundDiv (numerator denominator : Nat) : Nat :=
  let quotient := numerator / denominator
  let twice := 2 * (numerator % denominator)
  if twice < denominator then quotient
  else if denominator < twice then quotient + 1
  else if quotient % 2 = 0 then quotient else quotient + 1

/-- The fraction `numerator / denominator`, brought to the scale of `2 ^ exponent`. -/
def scaled (numerator denominator : Nat) (exponent : Int) : Nat × Nat :=
  if 0 ≤ exponent then (numerator, denominator * Nat.pow 2 exponent.toNat)
  else (numerator * Nat.pow 2 (-exponent).toNat, denominator)

/-- The magnitude nearest to `numerator / denominator`. The denominator is not zero. -/
def nearest (numerator denominator : Nat) : Magnitude :=
  if numerator = 0 then zero
  else
    let estimate : Int := (numerator.log2 : Int) - denominator.log2 - precision
    let first := max estimate leastExponent
    let whole := scaled numerator denominator first
    let exponent := if whole.1 / whole.2 < Nat.pow 2 precision then first else first + 1
    let exact := scaled numerator denominator exponent
    let rounded := roundDiv exact.1 exact.2
    let significand := if rounded = Nat.pow 2 precision then Nat.pow 2 (precision - 1) else rounded
    let exponent := if rounded = Nat.pow 2 precision then exponent + 1 else exponent
    if greatestExponent < exponent then .infinite else .finite significand exponent

/-- The fraction equal to a significand times a power of two. -/
def ratio (significand : Nat) (exponent : Int) : Nat × Nat :=
  if 0 ≤ exponent then (significand * Nat.pow 2 exponent.toNat, 1)
  else (significand, Nat.pow 2 (-exponent).toNat)

/-- The product, rounded once. -/
def mul : Magnitude → Magnitude → Magnitude
  | .finite first firstExponent, .finite second secondExponent =>
      let left := ratio first firstExponent
      let right := ratio second secondExponent
      nearest (left.1 * right.1) (left.2 * right.2)
  | _, _ => .infinite

/-- The quotient by a magnitude other than nothing, rounded once. -/
def div : Magnitude → Magnitude → Magnitude
  | .finite first firstExponent, .finite second secondExponent =>
      let left := ratio first firstExponent
      let right := ratio second secondExponent
      nearest (left.1 * right.2) (left.2 * right.1)
  | .infinite, _ => .infinite
  | _, .infinite => zero

def digitCount (number : Nat) : Nat := (Nat.toDigits 10 number).length

/-- The magnitude nearest to `digits` times a power of ten. Powers that put the value beyond
either end of the range are settled without computing them. -/
def ofDecimal (digits : Nat) (power : Int) : Magnitude :=
  let top := power + digitCount digits
  if digits = 0 then zero
  else if 310 < top then .infinite
  else if top < -326 then zero
  else if 0 ≤ power then nearest (digits * Nat.pow 10 power.toNat) 1
  else nearest digits (Nat.pow 10 (-power).toNat)

end Magnitude

namespace Binary64

def isZero (number : Binary64) : Bool := number.magnitude == Magnitude.zero

/-- Whether two numbers are the same number; the two zeros are. -/
def same (first second : Binary64) : Bool :=
  first == second || (first.isZero && second.isZero)

def isInfinite (number : Binary64) : Bool := number.magnitude == .infinite

end Binary64

end GraphqlStore
