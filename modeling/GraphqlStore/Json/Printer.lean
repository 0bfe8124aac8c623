import GraphqlStore.Decimal.Layout
import GraphqlStore.Json.Value

/-!
Data texts as they are written: in one line without blanks, or with one item a
line and two blanks of indent. Strings are written raw but for the quotation
mark, the backslash and the control characters.
-/

set_option autoImplicit false

namespace GraphqlStore.Json

/-- The last digit of a number in base sixteen, in lower case. -/
def hexDigit (number : Nat) : Char := Nat.digitChar (number % 16)

def escapedChar (c : Char) : List Char :=
  if c = '"' then ['\\', '"']
  else if c = '\\' then ['\\', '\\']
  else if c = '\n' then ['\\', 'n']
  else if c = '\r' then ['\\', 'r']
  else if c = '\t' then ['\\', 't']
  else if c = '\x08' then ['\\', 'b']
  else if c = '\x0c' then ['\\', 'f']
  else if c.toNat < 0x20 then
    ['\\', 'u', '0', '0', hexDigit (c.toNat / 16), hexDigit c.toNat]
  else [c]

def quotedText (text : String) : List Char := '"' :: text.toList.flatMap escapedChar ++ ['"']

/-- A number. An infinite one has no digits and is written as nothing. -/
def numberText : JsonNumber → List Char
  | .integer value => (toString value).toList
  | .float value => (NumberLayout.data.text value).toList

def boolText (value : Bool) : List Char := if value then "true".toList else "false".toList

mutual
def compactText : Json → List Char
  | .null => "null".toList
  | .bool value => boolText value
  | .number value => numberText value
  | .string value => quotedText value
  | .array items => '[' :: compactItems items ++ [']']
  | .object members => '\x7b' :: compactMembers members ++ ['\x7d']

def compactItems : List Json → List Char
  | [] => []
  | [item] => compactText item
  | item :: next :: rest => compactText item ++ ',' :: compactItems (next :: rest)

def compactMembers : List (String × Json) → List Char
  | [] => []
  | [(name, value)] => quotedText name ++ ':' :: compactText value
  | (name, value) :: next :: rest =>
      quotedText name ++ ':' :: compactText value ++ ',' :: compactMembers (next :: rest)
end

def newLine (level : Nat) : List Char := '\n' :: List.replicate (2 * level) ' '

mutual
/-- A value over several lines, its first line begun at the given level. -/
def prettyText (level : Nat) : Json → List Char
  | .null => "null".toList
  | .bool value => boolText value
  | .number value => numberText value
  | .string value => quotedText value
  | .array [] => ['[', ']']
  | .array (item :: rest) =>
      '[' :: prettyItems (level + 1) (item :: rest) ++ newLine level ++ [']']
  | .object [] => ['\x7b', '\x7d']
  | .object (member :: rest) =>
      '\x7b' :: prettyMembers (level + 1) (member :: rest) ++ newLine level ++ ['\x7d']

def prettyItems (level : Nat) : List Json → List Char
  | [] => []
  | [item] => newLine level ++ prettyText level item
  | item :: next :: rest =>
      newLine level ++ prettyText level item ++ ',' :: prettyItems level (next :: rest)

def prettyMembers (level : Nat) : List (String × Json) → List Char
  | [] => []
  | [(name, value)] => newLine level ++ quotedText name ++ ':' :: ' ' :: prettyText level value
  | (name, value) :: next :: rest =>
      newLine level ++ quotedText name ++ ':' :: ' ' :: prettyText level value ++
        ',' :: prettyMembers level (next :: rest)
end

def compact (value : Json) : String := String.ofList (compactText value)

def pretty (value : Json) : String := String.ofList (prettyText 0 value)

end GraphqlStore.Json
