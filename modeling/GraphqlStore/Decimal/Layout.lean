import GraphqlStore.Decimal.Shortest

/-!
Texts of double-precision numbers. Both layouts write the shortest digits; they
differ in where positional notation ends, in the mark of a whole number and in
what they write for an infinite number.
-/

set_option autoImplicit false

namespace GraphqlStore

/-- How the digits of a number are laid out. -/
structure NumberLayout where
  /-- The least and greatest decimal exponent written positionally; none for all. -/
  positional : Option (Int × Int)
  /-- What is written after a whole number in positional notation. -/
  wholeSuffix : String
  /-- What is written for an infinite magnitude. -/
  infinite : String

namespace NumberLayout

/-- Numbers in documents and cache keys are positional throughout and bare when whole. -/
def document : NumberLayout := ⟨none, "", "inf"⟩

/-- Numbers in data texts are positional from five places after the point to sixteen digits before
it, and keep a fraction digit when whole. -/
def data : NumberLayout := ⟨some (-5, 15), ".0", "null"⟩

def positionalText (layout : NumberLayout) (decimal : Decimal) : String :=
  let digits := Nat.toDigits 10 decimal.digits
  if 0 ≤ decimal.power then
    String.ofList (digits ++ List.replicate decimal.power.toNat '0') ++ layout.wholeSuffix
  else
    let places := (-decimal.power).toNat
    let padded := List.replicate (places + 1 - digits.length) '0' ++ digits
    let whole := padded.take (padded.length - places)
    let fraction := padded.drop (padded.length - places)
    String.ofList (whole ++ '.' :: fraction)

/-- The digits with one before the point and a signed exponent. -/
def scientificText (decimal : Decimal) (exponent : Int) : String :=
  let digits := Nat.toDigits 10 decimal.digits
  let fraction := digits.drop 1
  let point := if fraction.isEmpty then [] else '.' :: fraction
  let sign := if exponent < 0 then "-" else "+"
  String.ofList (digits.take 1 ++ point) ++ "e" ++ sign ++ toString exponent.natAbs

def magnitudeText (layout : NumberLayout) : Magnitude → String
  | .infinite => layout.infinite
  | .finite significand exponent =>
      let decimal := Magnitude.shortest significand exponent
      let leading : Int := Magnitude.digitCount decimal.digits + decimal.power - 1
      match layout.positional with
      | none => layout.positionalText decimal
      | some (least, greatest) =>
          if least ≤ leading ∧ leading ≤ greatest then layout.positionalText decimal
          else scientificText decimal leading

def text (layout : NumberLayout) (number : Binary64) : String :=
  (if number.negative then "-" else "") ++ layout.magnitudeText number.magnitude

end NumberLayout

end GraphqlStore
