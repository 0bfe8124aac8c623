/-!
White space of texts: the characters that have the standard's `White_Space`
property, in all scripts.
-/

set_option autoImplicit false

namespace GraphqlStore.Text

def isBlank (c : Char) : Bool :=
  let code := c.toNat
  (9 ≤ code && code ≤ 13) || code == 0x20 || code == 0x85 || code == 0xA0 || code == 0x1680 ||
    (0x2000 ≤ code && code ≤ 0x200A) || code == 0x2028 || code == 0x2029 || code == 0x202F ||
    code == 0x205F || code == 0x3000

def isBlankLine (line : List Char) : Bool := line.all isBlank

end GraphqlStore.Text
