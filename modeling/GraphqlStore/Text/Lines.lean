/-!
Lines of a text. A line ends at a line feed, which is not part of it; a
carriage return right before the line feed is not part of it either. What
follows the last line feed is a line only if it is not empty.
-/

set_option autoImplicit false

namespace GraphqlStore.Text

/-- Drops a carriage return at the end of a line, given backwards. -/
def dropReturn : List Char → List Char
  | '\r' :: backwards => backwards
  | backwards => backwards

/-- Cuts the lines off a text after the characters `backwards` of the line begun. -/
def linesFrom (backwards : List Char) : List Char → List (List Char)
  | [] => if backwards.isEmpty then [] else [backwards.reverse]
  | '\n' :: rest => (dropReturn backwards).reverse :: linesFrom [] rest
  | c :: rest => linesFrom (c :: backwards) rest

def lines (text : List Char) : List (List Char) := linesFrom [] text

/-- Replaces every occurrence of `old`, taken from the left without overlap, by `new`. The
text after an occurrence is shorter, so an empty `old` replaces nothing. -/
def replaceAll (old new : List Char) (text : List Char) : List Char :=
  match text with
  | [] => []
  | c :: rest =>
      if old.isPrefixOf (c :: rest) ∧ old ≠ [] then
        new ++ replaceAll old new ((c :: rest).drop old.length)
      else c :: replaceAll old new rest
termination_by text.length
decreasing_by
  · rename_i found
    have positive : 0 < old.length := List.length_pos_iff.2 found.2
    simp only [List.length_drop, List.length_cons]
    omega
  · simp

end GraphqlStore.Text
