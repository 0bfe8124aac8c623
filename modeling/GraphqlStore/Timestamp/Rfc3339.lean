import GraphqlStore.Timestamp.Basic

/-!
RFC 3339 texts of instants. Writing gives one text an instant, in universal
time; reading takes every text of the standard, at any offset, and says why it
refuses another. A leap second is written as the 60th second.
-/

set_option autoImplicit false

namespace GraphqlStore.Rfc3339

/-- Why a text is not read. -/
inductive ReadError where
  | premature
  | invalidCharacter
  | outOfRange
  | trailing
deriving DecidableEq, Repr

def ReadError.message : ReadError → String
  | .premature => "premature end of input"
  | .invalidCharacter => "input contains invalid characters"
  | .outOfRange => "input is out of range"
  | .trailing => "trailing input"

/-! ## Writing -/

/-- The last digits of a number, as many as asked. -/
def lastDigits : Nat → Nat → List Char
  | 0, _ => []
  | count + 1, number => lastDigits count (number / 10) ++ [Nat.digitChar (number % 10)]

/-- A year: four digits, or a sign and at least four when it does not fit. -/
def yearText (year : Int) : List Char :=
  if 0 ≤ year ∧ year ≤ 9999 then lastDigits 4 year.toNat
  else
    let digits := Nat.toDigits 10 year.natAbs
    (if year < 0 then '-' else '+') :: (List.replicate (4 - digits.length) '0' ++ digits)

/-- How many digits of a fraction are written. -/
inductive Fraction where
  | milliseconds
  | shortest
deriving DecidableEq, Repr

def fractionText (fraction : Fraction) (nanos : Nat) : List Char :=
  match fraction with
  | .milliseconds => '.' :: lastDigits 3 (nanos / 1000000)
  | .shortest =>
      if nanos = 0 then []
      else if nanos % 1000000 = 0 then '.' :: lastDigits 3 (nanos / 1000000)
      else if nanos % 1000 = 0 then '.' :: lastDigits 6 (nanos / 1000)
      else '.' :: lastDigits 9 nanos

def chars (fraction : Fraction) (instant : Timestamp) : List Char :=
  let date := instant.date
  let second := instant.secondOfDay
  let leap := if instant.isLeap then 1 else 0
  yearText date.year ++ '-' :: lastDigits 2 date.month ++ '-' :: lastDigits 2 date.day ++
    'T' :: lastDigits 2 (second / 3600) ++ ':' :: lastDigits 2 (second / 60 % 60) ++
    ':' :: lastDigits 2 (second % 60 + leap) ++
    fractionText fraction (instant.nanos % 1000000000) ++ ['Z']

/-- The text of an instant with three digits of fraction. -/
def display (instant : Timestamp) : String := String.ofList (chars .milliseconds instant)

/-- The one accepted text of an instant: no, three, six or nine digits of fraction, the fewest that
lose nothing. -/
def canonical (instant : Timestamp) : String := String.ofList (chars .shortest instant)

/-! ## Reading -/

def readDigit : List Char → Except ReadError (Nat × List Char)
  | [] => .error .premature
  | c :: rest => if c.isDigit then .ok (c.toNat - '0'.toNat, rest) else .error .invalidCharacter

/-- A number of as many digits as asked, after the digits already read. -/
def readNumber : Nat → Nat → List Char → Except ReadError (Nat × List Char)
  | 0, number, text => .ok (number, text)
  | count + 1, number, text =>
      match readDigit text with
      | .ok (digit, rest) => readNumber count (number * 10 + digit) rest
      | .error cause => .error cause

def readOneOf (accepted : List Char) : List Char → Except ReadError (List Char)
  | [] => .error .premature
  | c :: rest => if accepted.contains c then .ok rest else .error .invalidCharacter

/-- A date, which has to exist. -/
def readDate (text : List Char) : Except ReadError (Date × List Char) := do
  let (year, text) ← readNumber 4 0 text
  let text ← readOneOf ['-'] text
  let (month, text) ← readNumber 2 0 text
  let text ← readOneOf ['-'] text
  let (day, text) ← readNumber 2 0 text
  let date : Date := ⟨year, month, day⟩
  if date.exists? then return (date, text) else throw .outOfRange

/-- The fraction of a second in nanoseconds, if there is one. -/
def readFraction : List Char → Except ReadError (Nat × List Char)
  | '.' :: rest =>
      let digits := rest.takeWhile Char.isDigit
      if rest.isEmpty then .error .premature
      else if digits.isEmpty then .error .invalidCharacter
      else
        let kept := digits.take 9
        let number := kept.foldl (fun number c => number * 10 + (c.toNat - '0'.toNat)) 0
        .ok (number * Nat.pow 10 (9 - kept.length), rest.dropWhile Char.isDigit)
  | text => .ok (0, text)

/-- A time of day: its second and nanoseconds. -/
def readTime (text : List Char) : Except ReadError ((Nat × Nat) × List Char) := do
  let (hour, text) ← readNumber 2 0 text
  let text ← readOneOf [':'] text
  let (minute, text) ← readNumber 2 0 text
  let text ← readOneOf [':'] text
  let (second, text) ← readNumber 2 0 text
  let (nanos, text) ← readFraction text
  if hour < 24 ∧ minute < 60 ∧ second ≤ 60 then
    let start := hour * 3600 + minute * 60
    if second = 60 then return ((start + 59, nanos + 1000000000), text)
    else return ((start + second, nanos), text)
  else throw .outOfRange

/-- Two digits of an offset. They need two bytes, whatever these are. -/
def readPair : List Char → Except ReadError ((Nat × Nat) × List Char)
  | [] => .error .premature
  | [c] => if c.utf8Size < 2 then .error .premature else .error .invalidCharacter
  | first :: second :: rest =>
      if first.isDigit ∧ second.isDigit then
        .ok ((first.toNat - '0'.toNat, second.toNat - '0'.toNat), rest)
      else .error .invalidCharacter

/-- The size of an offset in seconds, after its sign. -/
def readOffsetSize (text : List Char) : Except ReadError (Nat × List Char) := do
  let ((tens, ones), text) ← readPair text
  let text ← readOneOf [':'] text
  let ((minuteTens, minuteOnes), text) ← readPair text
  if 6 ≤ minuteTens then throw .outOfRange
  else return ((tens * 10 + ones) * 3600 + (minuteTens * 10 + minuteOnes) * 60, text)

def readOffset : List Char → Except ReadError (Int × List Char)
  | [] => .error .premature
  | c :: rest =>
      if c = 'Z' ∨ c = 'z' then .ok (0, rest)
      else if c = '+' then do
        let (size, text) ← readOffsetSize rest
        return ((size : Int), text)
      else if c = '-' ∨ c = '−' then do
        let (size, text) ← readOffsetSize rest
        return (-(size : Int), text)
      else .error .invalidCharacter

def read (text : String) : Except ReadError Timestamp := do
  if text.utf8ByteSize < 19 then throw .premature
  let (date, rest) ← readDate text.toList
  let rest ← readOneOf ['T', 't', ' '] rest
  let ((second, nanos), rest) ← readTime rest
  let (offset, rest) ← readOffset rest
  if !rest.isEmpty then throw .trailing
  if 86400 ≤ offset.natAbs then throw .outOfRange
  match Timestamp.ofParts? (date.toDays * 86400 + second - offset) nanos with
  | some instant => return instant
  | none => throw .outOfRange

end GraphqlStore.Rfc3339
