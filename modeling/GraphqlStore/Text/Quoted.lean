import GraphqlStore.Text.Extending
import GraphqlStore.Text.Invisible
import GraphqlStore.Text.Unassigned

/-!
Quoted form of a text in messages: quotation marks around it, a backslash
before quotation marks and backslashes, short escapes for the common control
characters, and the code of any other character that cannot be shown by itself.
-/

set_option autoImplicit false

namespace GraphqlStore.Text

/-- The digits of a number in base sixteen, in lower case. -/
def hexDigits (number : Nat) : String := String.ofList (Nat.toDigits 16 number)

/-- Whether a character is shown by its code: there is none, it cannot be seen, or it would join
the character before it. -/
def isHidden (c : Char) : Bool := isInvisible c || isExtending c || isUnassigned c

def quotedChar (c : Char) : String :=
  if c = '"' then "\\\""
  else if c = '\\' then "\\\\"
  else if c = '\n' then "\\n"
  else if c = '\r' then "\\r"
  else if c = '\t' then "\\t"
  else if c.toNat = 0 then "\\0"
  else if isHidden c then "\\u\x7b" ++ hexDigits c.toNat ++ "\x7d"
  else c.toString

def quoted (text : String) : String :=
  "\"" ++ String.join (text.toList.map quotedChar) ++ "\""

end GraphqlStore.Text
