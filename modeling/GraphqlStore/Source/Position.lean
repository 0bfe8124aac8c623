/-!
Places in a source text.
-/

set_option autoImplicit false

namespace GraphqlStore

/-- A place in a source text, counted from one. -/
structure Position where
  line : Nat
  column : Nat
deriving DecidableEq, Repr, Inhabited

namespace Position

def start : Position := ⟨1, 1⟩

def le (first second : Position) : Bool :=
  first.line < second.line || (first.line == second.line && first.column ≤ second.column)

def right (position : Position) (columns : Nat) : Position :=
  { position with column := position.column + columns }

def nextLine (position : Position) : Position := ⟨position.line + 1, 1⟩

def after (position : Position) : List Char → Position
  | [] => position
  | '\n' :: rest => position.nextLine.after rest
  | _ :: rest => (position.right 1).after rest

def text (position : Position) : String := s!"{position.line}:{position.column}"

end Position

end GraphqlStore
