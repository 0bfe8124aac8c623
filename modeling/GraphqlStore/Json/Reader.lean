import GraphqlStore.Json.Term

/-!
What the terms of a data text mean: the text of a string, the number of its
digits, the value of a term. An escaped code unit that is half of a pair needs
its other half; a string with a byte that belongs to no character means nothing;
numbers beyond the 64-bit integers are floats; values nested too deeply mean
nothing.
-/

set_option autoImplicit false

namespace GraphqlStore.Json

def charsOf? : List StringPiece → Option (List Char)
  | [] => some []
  | .char c :: rest => (charsOf? rest).map (c :: ·)
  | .stray :: _ => none
  | .code high :: .code low :: rest =>
      if 0xD800 ≤ high ∧ high < 0xDC00 then
        if 0xDC00 ≤ low ∧ low < 0xE000 then
          (charsOf? rest).map (Char.ofNat (0x10000 + (high - 0xD800) * 0x400 + (low - 0xDC00)) :: ·)
        else none
      else if 0xDC00 ≤ high ∧ high < 0xE000 then none
      else (charsOf? (.code low :: rest)).map (Char.ofNat high :: ·)
  | .code unit :: rest =>
      if 0xD800 ≤ unit ∧ unit < 0xE000 then none
      else (charsOf? rest).map (Char.ofNat unit :: ·)

def textOf? (pieces : List StringPiece) : Option String := (charsOf? pieces).map String.ofList

def digitValue (c : Char) : Nat := c.toNat - '0'.toNat

def numberOf (digits : List Char) : Nat := digits.foldl (fun number c => number * 10 + digitValue c) 0

/-- Takes digits into a significand as long as it stays a 64-bit number: the significand and how
many digits were left out. -/
def takeDigits (significand : Nat) : List Char → Nat × Nat
  | [] => (significand, 0)
  | c :: rest =>
      let larger := significand * 10 + digitValue c
      if (larger : Int) ≤ JsonNumber.greatest then takeDigits larger rest
      else (significand, rest.length + 1)

/-- Divides a magnitude by `10 ^ 308` while its power of ten is out of reach of one division, then
multiplies or divides once. Magnitudes of 64-bit significands vanish within three divisions. -/
def scaleByTen : Nat → Magnitude → Int → Option Magnitude
  | 0, _, _ => none
  | steps + 1, magnitude, power =>
      if power.natAbs ≤ 308 then
        let tens := Magnitude.ofDecimal 1 power.natAbs
        if 0 ≤ power then
          let product := magnitude.mul tens
          if product = .infinite then none else some product
        else some (magnitude.div tens)
      else if magnitude = Magnitude.zero then some magnitude
      else if 0 ≤ power then none
      else scaleByTen steps (magnitude.div (Magnitude.ofDecimal 1 308)) (power + 308)

/-- The greatest exponent that is computed with. -/
def greatestExponent : Nat := 2147483647

namespace NumberTerm

/-- The float of a number: its leading digits as one significand, scaled by a power of ten. -/
def float? (number : NumberTerm) : Option Binary64 := do
  let (significand, dropped) := takeDigits 0 number.whole
  let (significand, skipped) := takeDigits significand number.fraction
  let power : Int := dropped - ((number.fraction.length - skipped : Nat) : Int)
  let start := Magnitude.nearest significand 1
  match number.exponent with
  | none => return ⟨number.negative, ← scaleByTen 8 start power⟩
  | some (negativeExponent, digits) =>
      let exponent := numberOf digits
      if greatestExponent < exponent then
        if significand ≠ 0 ∧ !negativeExponent then none
        else return ⟨number.negative, Magnitude.zero⟩
      else
        let power := if negativeExponent then power - exponent else power + exponent
        return ⟨number.negative, ← scaleByTen 8 start power⟩

/-- The number that is meant: an integer if it is written as one, is in the 64-bit range and is not
a negative zero. -/
def value? (number : NumberTerm) : Option JsonNumber :=
  let whole : Int := numberOf number.whole
  if number.fraction.isEmpty ∧ number.exponent.isNone ∧ whole ≤ JsonNumber.greatest then
    if !number.negative then some (.integer whole)
    else if 0 < whole ∧ JsonNumber.least ≤ -whole then some (.integer (-whole))
    else some (.float ⟨true, Magnitude.nearest (numberOf number.whole) 1⟩)
  else number.float?.map .float

end NumberTerm

namespace Term

mutual
/-- The value of a term whose arrays and objects are nested within the given depth. Of two members
of one name the later value stands, at the place of the earlier. -/
def value? (depth : Nat) : Term → Option Json
  | .null => some .null
  | .bool value => some (.bool value)
  | .number value => value.value?.map .number
  | .string pieces => (textOf? pieces).map .string
  | .array items => if depth = 0 then none else (itemValues? (depth - 1) items).map .array
  | .object members =>
      if depth = 0 then none
      else (memberValues? (depth - 1) members).map fun members =>
        .object (Ordered.ofList Prod.fst members)

def itemValues? (depth : Nat) : List Term → Option (List Json)
  | [] => some []
  | item :: rest =>
      match value? depth item, itemValues? depth rest with
      | some item, some rest => some (item :: rest)
      | _, _ => none

def memberValues? (depth : Nat) : List (List StringPiece × Term) → Option (List (String × Json))
  | [] => some []
  | (name, value) :: rest =>
      match textOf? name, value? depth value, memberValues? depth rest with
      | some name, some value, some rest => some ((name, value) :: rest)
      | _, _, _ => none
end

end Term

/-- How deeply arrays and objects may be nested. -/
def depthLimit : Nat := 127

def read? (text : String) : Option Json := do
  (← Term.ofText? text).value? depthLimit

end GraphqlStore.Json
