/-!
The Gregorian calendar carried on in both directions: dates and their day
numbers, counted from the first of January 1970. Years are counted from the
first of March inside, so that the leap day is the last day of a year, and in
eras of four hundred years, which all have the same length.
-/

set_option autoImplicit false

namespace GraphqlStore

/-- A date of the calendar. -/
structure Date where
  year : Int
  month : Nat
  day : Nat
deriving DecidableEq, Repr

namespace Date

def isLeapYear (year : Int) : Bool := year % 4 = 0 && (year % 100 ≠ 0 || year % 400 = 0)

def monthLength (year : Int) (month : Nat) : Nat :=
  if month = 2 then (if isLeapYear year then 29 else 28)
  else if month = 4 ∨ month = 6 ∨ month = 9 ∨ month = 11 then 30
  else 31

def exists? (date : Date) : Bool :=
  1 ≤ date.month && date.month ≤ 12 && 1 ≤ date.day && date.day ≤ monthLength date.year date.month

/-- Days of an era. -/
def eraLength : Int := 146097

/-- Days from the first of March of year zero to the first of January 1970. -/
def epochOffset : Int := 719468

def toDays (date : Date) : Int :=
  let year := if date.month ≤ 2 then date.year - 1 else date.year
  let era := year / 400
  let yearOfEra := year % 400
  let month : Int := if date.month ≤ 2 then date.month + 9 else (date.month : Int) - 3
  let dayOfYear := (153 * month + 2) / 5 + date.day - 1
  let dayOfEra := yearOfEra * 365 + yearOfEra / 4 - yearOfEra / 100 + dayOfYear
  era * eraLength + dayOfEra - epochOffset

def ofDays (days : Int) : Date :=
  let shifted := days + epochOffset
  let era := shifted / eraLength
  let dayOfEra := shifted % eraLength
  let yearOfEra := (dayOfEra - dayOfEra / 1460 + dayOfEra / 36524 - dayOfEra / 146096) / 365
  let dayOfYear := dayOfEra - (365 * yearOfEra + yearOfEra / 4 - yearOfEra / 100)
  let month := (5 * dayOfYear + 2) / 153
  let day := dayOfYear - (153 * month + 2) / 5 + 1
  let calendarMonth := if month < 10 then month + 3 else month - 9
  let year := yearOfEra + era * 400
  ⟨if calendarMonth ≤ 2 then year + 1 else year, calendarMonth.toNat, day.toNat⟩

end Date

end GraphqlStore
