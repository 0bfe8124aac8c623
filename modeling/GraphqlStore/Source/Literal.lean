import GraphqlStore.Decimal.Binary64
import GraphqlStore.Json.Reader
import GraphqlStore.Text.Blank
import GraphqlStore.Text.Lines

/-!
Values of literals: integers, floats, strings in one line and strings over
several lines.
-/

set_option autoImplicit false

namespace GraphqlStore.Literal

open Json (numberOf)

/-! ## Numbers -/

/-- Whether characters spell an integer: a zero, or digits that do not start with one. -/
def isInteger (text : List Char) : Bool :=
  let digits := match text with
    | '-' :: digits => digits
    | digits => digits
  digits == ['0'] || (!digits.isEmpty && digits.head? != some '0' && digits.all Char.isDigit)

/-- The integer of a spelling in the signed 64-bit range. -/
def integer? (text : List Char) : Option Int :=
  if isInteger text then
    let value : Int := match text with
      | '-' :: digits => -(numberOf digits : Int)
      | digits => numberOf digits
    if -9223372036854775808 ≤ value ∧ value ≤ 9223372036854775807 then some value else none
  else none

/-- Cuts a text at the last character that satisfies the test, which is left out. -/
def cutAtLast (test : Char → Bool) (text : List Char) : Option (List Char × List Char) :=
  let backwards := text.reverse
  match backwards.dropWhile (fun c => !test c) with
  | [] => none
  | _ :: front => some (front.reverse, (backwards.takeWhile fun c => !test c).reverse)

/-- The exponent of a spelling. A digit that comes first without a sign is neither zero nor nine. -/
def exponent? : List Char → Option Int
  | '+' :: digits => if !digits.isEmpty && digits.all Char.isDigit then some (numberOf digits) else none
  | '-' :: digits => if !digits.isEmpty && digits.all Char.isDigit then some (-(numberOf digits : Int)) else none
  | first :: digits =>
      if '1' ≤ first ∧ first ≤ '8' ∧ digits.all Char.isDigit then some (numberOf (first :: digits))
      else none
  | [] => none

/-- The float of a sign, whole digits, fraction digits and an exponent. -/
def floatOf (whole fraction : List Char) (exponent : Int) : Binary64 :=
  let digits := match whole with
    | '-' :: digits => digits
    | digits => digits
  ⟨whole.head? == some '-', Magnitude.ofDecimal (numberOf (digits ++ fraction)) (exponent - fraction.length)⟩

/-- The float of a spelling with a point, an exponent or both. -/
def float? (text : List Char) : Option Binary64 :=
  match cutAtLast (fun c => c == 'e' || c == 'E') text with
  | none =>
      match cutAtLast (· == '.') text with
      | some (whole, fraction) =>
          if isInteger whole && !fraction.isEmpty && fraction.all Char.isDigit then
            some (floatOf whole fraction 0)
          else none
      | none => none
  | some (front, scale) =>
      if scale.contains '.' then none
      else
        match exponent? scale, cutAtLast (· == '.') front with
        | some exponent, some (whole, fraction) =>
            if isInteger whole && !fraction.isEmpty && fraction.all Char.isDigit then
              some (floatOf whole fraction exponent)
            else none
        | some exponent, none => if isInteger front then some (floatOf front [] exponent) else none
        | none, _ => none

/-! ## Strings -/

/-- The number of four characters in base sixteen; a plus sign may come first. -/
def unitNumber? (first second third fourth : Char) : Option Nat := do
  let digits := if first = '+' then [second, third, fourth] else [first, second, third, fourth]
  let values ← digits.mapM Json.hexValue?
  return values.foldl (fun number digit => number * 16 + digit) 0

def unescape? : List Char → Option (List Char)
  | [] => some []
  | '\\' :: 'u' :: first :: second :: third :: fourth :: rest =>
      match unitNumber? first second third fourth with
      | some unit =>
          if 0xD800 ≤ unit ∧ unit < 0xE000 then none
          else (unescape? rest).map (Char.ofNat unit :: ·)
      | none => none
  | '\\' :: c :: rest =>
      match c with
      | '"' => (unescape? rest).map ('"' :: ·)
      | '\\' => (unescape? rest).map ('\\' :: ·)
      | '/' => (unescape? rest).map ('/' :: ·)
      | 'b' => (unescape? rest).map ('\x10' :: ·)
      | 'f' => (unescape? rest).map ('\x0c' :: ·)
      | 'n' => (unescape? rest).map ('\n' :: ·)
      | 'r' => (unescape? rest).map ('\r' :: ·)
      | 't' => (unescape? rest).map ('\t' :: ·)
      | _ => none
  | c :: rest => if c = '\\' then none else (unescape? rest).map (c :: ·)

def byteLength (text : List Char) : Nat := text.foldl (fun total c => total + c.utf8Size) 0

/-- The bytes of white space at the front of a line that holds more than white space. -/
def indent? (line : List Char) : Option Nat :=
  if Text.isBlankLine line then none else some (byteLength (line.takeWhile Text.isBlank))

/-- Drops characters that take so many bytes; nothing if the bytes end inside a character. -/
def dropBytes? : Nat → List Char → Option (List Char)
  | 0, text => some text
  | _ + 1, [] => none
  | bytes + 1, c :: rest =>
      if bytes + 1 < c.utf8Size then none else dropBytes? (bytes + 1 - c.utf8Size) rest
termination_by _ text => text.length

/-- A line without the common indent; a line that is too short stays as it is. -/
def unindent? (common : Nat) (line : List Char) : Option (List Char) :=
  if byteLength line < common then some line else dropBytes? common line

/-- The smaller of the indents, where there is one. -/
def commonIndent (lines : List (List Char)) : Nat :=
  match (lines.filterMap indent?).min? with
  | some smallest => smallest
  | none => 0

/-- The characters of a string over several lines: the indent that all lines but the first share is
taken off them, lines of white space at either end are dropped, and escaped quotation marks are
restored. Nothing if the indent ends inside a character. -/
def block? (content : List Char) : Option (List Char) :=
  let lines := Text.lines content
  let common := commonIndent (lines.drop 1)
  let blankBefore := (lines.takeWhile Text.isBlankLine).length
  let blankAfter := (lines.reverse.takeWhile Text.isBlankLine).length
  let kept := (lines.take (lines.length - blankAfter)).drop blankBefore
  let unindented : Option (List (List Char)) := match kept with
    | [] => some []
    | first :: rest =>
        if blankBefore = 0 then (rest.mapM (unindent? common)).map (first :: ·)
        else (first :: rest).mapM (unindent? common)
  unindented.map fun lines =>
    List.intercalate ['\n'] (lines.map (Text.replaceAll ['\\', '"', '"', '"'] ['"', '"', '"']))

end GraphqlStore.Literal
