import GraphqlStore.Decimal.Binary64
import GraphqlStore.Names.Ordered

/-!
Data values: what a data text stands for. A number is held as an integer if it
was written as one in the 64-bit range, and as a double-precision number
otherwise; members of an object keep the order in which they were written.
-/

set_option autoImplicit false

namespace GraphqlStore

/-- A number of a data value. -/
inductive JsonNumber where
  | integer (value : Int)
  | float (value : Binary64)
deriving DecidableEq, Repr

/-- A data value. -/
inductive Json where
  | null
  | bool (value : Bool)
  | number (value : JsonNumber)
  | string (value : String)
  | array (items : List Json)
  | object (members : List (String × Json))
deriving Repr

namespace JsonNumber

/-- Whether two numbers are the same; an integer is never the same as a float. -/
def same : JsonNumber → JsonNumber → Bool
  | .integer first, .integer second => first == second
  | .float first, .float second => first.same second
  | _, _ => false

/-- The least integer held as one. -/
def least : Int := -9223372036854775808

/-- The greatest signed integer. -/
def greatestSigned : Int := 9223372036854775807

/-- The greatest integer held as one. -/
def greatest : Int := 18446744073709551615

end JsonNumber

namespace Json

/-- A member of an object without the order: its value. -/
def member? (name : String) (members : List (String × Json)) : Option Json :=
  (Ordered.find? Prod.fst name members).map Prod.snd

/-- A member that is left out where there is no value. -/
def optional (name : String) : Option Json → List (String × Json)
  | some value => [(name, value)]
  | none => []

mutual
/-- Whether two values are the same, whatever the order of members. -/
def same : Json → Json → Bool
  | .null, .null => true
  | .bool first, .bool second => first == second
  | .number first, .number second => first.same second
  | .string first, .string second => first == second
  | .array first, .array second => sameItems first second
  | .object first, .object second => first.length == second.length && sameMembers first second
  | _, _ => false

def sameItems : List Json → List Json → Bool
  | [], [] => true
  | first :: firstRest, second :: secondRest => same first second && sameItems firstRest secondRest
  | _, _ => false

/-- Whether each of the first members is among the second with the same value. -/
def sameMembers : List (String × Json) → List (String × Json) → Bool
  | [], _ => true
  | (name, value) :: rest, second =>
      (match member? name second with
        | some other => same value other
        | none => false) && sameMembers rest second
end

def signed? : Json → Option Int
  | .number (.integer value) => if value ≤ JsonNumber.greatestSigned then some value else none
  | _ => none

def string? : Json → Option String
  | .string value => some value
  | _ => none

end Json

end GraphqlStore
