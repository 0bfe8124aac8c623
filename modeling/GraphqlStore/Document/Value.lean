import GraphqlStore.Decimal.Layout
import GraphqlStore.Json.Printer
import GraphqlStore.Names.NameSet

/-!
Values that documents pass to arguments. An object lists its fields by
increasing name, each once.
-/

set_option autoImplicit false

namespace GraphqlStore

/-- A value passed to an argument. -/
inductive Value where
  | variable (name : String)
  | int (value : Int)
  | float (value : Binary64)
  | string (value : String)
  | boolean (value : Bool)
  | null
  | enum (name : String)
  | list (items : List Value)
  | object (fields : List (String × Value))
deriving Repr

namespace Value

mutual
/-- Whether two values are the same; floats are compared as numbers. -/
def same : Value → Value → Bool
  | .variable first, .variable second => first == second
  | .int first, .int second => first == second
  | .float first, .float second => first.same second
  | .string first, .string second => first == second
  | .boolean first, .boolean second => first == second
  | .null, .null => true
  | .enum first, .enum second => first == second
  | .list first, .list second => sameItems first second
  | .object first, .object second => sameFields first second
  | _, _ => false

def sameItems : List Value → List Value → Bool
  | [], [] => true
  | first :: firstRest, second :: secondRest => same first second && sameItems firstRest secondRest
  | _, _ => false

def sameFields : List (String × Value) → List (String × Value) → Bool
  | [], [] => true
  | (firstName, first) :: firstRest, (secondName, second) :: secondRest =>
      firstName == secondName && same first second && sameFields firstRest secondRest
  | _, _ => false
end

mutual
/-- The variables in a value, from left to right. -/
def variableNames : Value → List String
  | .variable name => [name]
  | .list items => itemVariables items
  | .object fields => fieldVariables fields
  | _ => []

def itemVariables : List Value → List String
  | [] => []
  | item :: rest => variableNames item ++ itemVariables rest

def fieldVariables : List (String × Value) → List String
  | [] => []
  | (_, value) :: rest => variableNames value ++ fieldVariables rest
end

mutual
def keyText : Value → String
  | .variable name => "$" ++ name
  | .int value => toString value
  | .float value => NumberLayout.document.text value
  | .string value => String.ofList (Json.quotedText value)
  | .boolean value => if value then "true" else "false"
  | .null => "null"
  | .enum name => name
  | .list items => "[" ++ ", ".intercalate (itemKeyTexts items) ++ "]"
  | .object fields => "\x7b" ++ ", ".intercalate (fieldKeyTexts fields) ++ "\x7d"

def itemKeyTexts : List Value → List String
  | [] => []
  | item :: rest => keyText item :: itemKeyTexts rest

def fieldKeyTexts : List (String × Value) → List String
  | [] => []
  | (name, value) :: rest => (name ++ ": " ++ keyText value) :: fieldKeyTexts rest
end

mutual
/-- The value as data. Variables and infinite floats have none. -/
def toJson : Value → Json
  | .variable _ => .null
  | .int value => .number (.integer value)
  | .float value => if value.isInfinite then .null else .number (.float value)
  | .string value => .string value
  | .boolean value => .bool value
  | .null => .null
  | .enum name => .string name
  | .list items => .array (itemsToJson items)
  | .object fields => .object (fieldsToJson fields)

def itemsToJson : List Value → List Json
  | [] => []
  | item :: rest => toJson item :: itemsToJson rest

def fieldsToJson : List (String × Value) → List (String × Json)
  | [] => []
  | (name, value) :: rest => (name, toJson value) :: fieldsToJson rest
end

end Value

/-- An argument: a name and the value passed to it. -/
abbrev Argument := String × Value

def argument? (name : String) : List Argument → Option Value
  | [] => none
  | (other, value) :: rest => if other = name then some value else argument? name rest

end GraphqlStore
