import GraphqlStore.Timestamp.Calendar

/-!
Instants of universal time to the nanosecond, in the years from -262143 to
262142. A leap second has no second number of its own: it is the 59th second
with a thousand million nanoseconds or more.
-/

set_option autoImplicit false

namespace GraphqlStore

/-- An instant: seconds since the start of 1970 and nanoseconds within the second. -/
structure Timestamp where
  seconds : Int
  nanos : Nat
  notTooEarly : -8334601228800 ≤ seconds := by omega
  notTooLate : seconds ≤ 8210266876799 := by omega
  nanosBound : nanos < 2000000000 := by omega
  leapPlace : 1000000000 ≤ nanos → seconds % 60 = 59 := by omega
deriving DecidableEq

namespace Timestamp

/-- The instant of some seconds and nanoseconds, if there is one. -/
def ofParts? (seconds : Int) (nanos : Nat) : Option Timestamp :=
  if known : (-8334601228800 ≤ seconds ∧ seconds ≤ 8210266876799) ∧ nanos < 2000000000 ∧
      (1000000000 ≤ nanos → seconds % 60 = 59) then
    some ⟨seconds, nanos, known.1.1, known.1.2, known.2.1, known.2.2⟩
  else none

def millis (instant : Timestamp) : Int := instant.seconds * 1000 + ((instant.nanos / 1000000 : Nat) : Int)

/-- The instant of some milliseconds since the start of 1970, if there is one. -/
def ofMillis? (millis : Int) : Option Timestamp :=
  ofParts? (millis / 1000) ((millis % 1000).toNat * 1000000)

def date (instant : Timestamp) : Date := Date.ofDays (instant.seconds / 86400)

def secondOfDay (instant : Timestamp) : Nat := (instant.seconds % 86400).toNat

def isLeap (instant : Timestamp) : Bool := 1000000000 ≤ instant.nanos

end Timestamp

end GraphqlStore
