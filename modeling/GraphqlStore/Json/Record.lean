import GraphqlStore.Json.Reader

/-!
Reading terms as records of known fields. A record is written as an object,
whose unknown members are skipped unread, or as an array of its fields in their
order. A field given twice is refused.
-/

set_option autoImplicit false

namespace GraphqlStore.Json.Term

def text? : Term → Option String
  | .string pieces => textOf? pieces
  | _ => none

def bool? : Term → Option Bool
  | .bool value => some value
  | _ => none

def signed? : Term → Option Int
  | .number written =>
      match written.value? with
      | some (.integer value) => if value ≤ JsonNumber.greatestSigned then some value else none
      | _ => none
  | _ => none

/-- The word of a choice among words: a string, or an object with that one member and no value. -/
def word? : Term → Option String
  | .string pieces => textOf? pieces
  | .object [(name, .null)] => textOf? name
  | _ => none

def items? : Term → Option (List Term)
  | .array items => some items
  | _ => none

def texts? (term : Term) : Option (List String) := do
  (← term.items?).mapM text?

def namedMembers? : List (List StringPiece × Term) → Option (List (String × Term))
  | [] => some []
  | (name, value) :: rest => do
      let name ← textOf? name
      let rest ← namedMembers? rest
      return (name, value) :: rest

/-- The members of an object, with their names. -/
def members? : Term → Option (List (String × Term))
  | .object members => namedMembers? members
  | _ => none

/-- Something that may be absent: nothing is its own spelling of absence. -/
def optional? {α : Type} (read : Term → Option α) : Term → Option (Option α)
  | .null => some none
  | term => (read term).map some

/-- The fields of a record: each known name at most once, or the fields in order. -/
def fields? (known : List String) : Term → Option (List (String × Term))
  | .object members => do
      let members ← namedMembers? members
      let present := members.filter fun member => known.contains member.1
      if (present.map Prod.fst).Nodup then return present else none
  | .array items =>
      if items.length ≤ known.length then some (known.zip items) else none
  | _ => none

/-- A field of a record, with the value it has when it is absent. -/
def field? {α : Type} (fields : List (String × Term)) (name : String) (absent : α)
    (read : Term → Option α) : Option α :=
  match Ordered.find? Prod.fst name fields with
  | some (_, term) => read term
  | none => some absent

def required? {α : Type} (fields : List (String × Term)) (name : String)
    (read : Term → Option α) : Option α :=
  match Ordered.find? Prod.fst name fields with
  | some (_, term) => read term
  | none => none

end GraphqlStore.Json.Term
