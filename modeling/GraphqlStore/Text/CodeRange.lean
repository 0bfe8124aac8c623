/-!
Sets of characters that are given by ranges of codes.
-/

set_option autoImplicit false

namespace GraphqlStore.Text

/-- A range of codes, both ends included. -/
abbrev CodeRange := Nat × Nat

/-- Whether the code of a character lies in one of the ranges. -/
def inRanges (ranges : List CodeRange) (c : Char) : Bool :=
  ranges.any fun range => range.1 ≤ c.toNat && c.toNat ≤ range.2

end GraphqlStore.Text
