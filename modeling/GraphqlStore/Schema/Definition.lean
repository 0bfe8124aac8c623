import GraphqlStore.Document.Parser

/-!
Definitions of the schema language, and reading them.
-/

set_option autoImplicit false

namespace GraphqlStore

/-- A named input: an argument of a field, or a field of an input type. -/
structure InputValue where
  name : String
  type : TypeRef
  hasDefault : Bool
deriving DecidableEq, Repr

/-- A field of an object or interface type. -/
structure FieldDef where
  name : String
  type : TypeRef
  arguments : List InputValue
deriving DecidableEq, Repr

/-- What a type definition or extension declares. -/
inductive TypeBody where
  | scalar
  | object (fields : List FieldDef) (interfaces : List String)
  | interface (fields : List FieldDef)
  | union (members : List String)
  | enum (values : List String)
  | input (fields : List InputValue)
deriving DecidableEq, Repr

/-- The root operation types that a schema block names. -/
structure SchemaRoots where
  query : Option String
  mutation : Option String
  subscription : Option String
deriving DecidableEq, Repr, Inhabited

/-- A definition of the schema language. -/
inductive SchemaDefinition where
  | roots (roots : SchemaRoots)
  | type (name : String) (body : TypeBody)
  | directive (name : String)
  | extension (name : String) (body : TypeBody)
deriving DecidableEq, Repr

namespace Parse

/-- A description, if there is one. -/
def description (tokens : List Token) : MaybeStep Unit tokens :=
  match tokens with
  | ⟨.string _, _⟩ :: rest => .ok ((), ⟨rest, Nat.le_succ _⟩)
  | ⟨.unevenString, place⟩ :: _ => .error (.interrupted ⟨place⟩)
  | tokens => .ok ((), stay tokens)

/-! ## Members of types -/

def inputValue (tokens : List Token) : Step InputValue tokens := do
  let (_, ⟨afterText, fewerText⟩) ← description tokens
  let (label, ⟨afterName, fewerName⟩) ← name afterText
  let (_, ⟨afterColon, fewerColon⟩) ← mark ':' afterName
  let (type, ⟨afterType, fewerType⟩) ← typeRef afterColon
  let (default, ⟨afterDefault, fewerDefault⟩) ← defaultValue afterType
  let (_, ⟨left, fewer⟩) ← directives afterDefault
  return (⟨label, type, default.isSome⟩, ⟨left, by omega⟩)

/-- Declared arguments in parentheses, if there are any. -/
def inputValues (tokens : List Token) : MaybeStep (List InputValue) tokens :=
  optionalBetween '(' ')' inputValue tokens

def fieldDefinition (tokens : List Token) : Step FieldDef tokens := do
  let (_, ⟨afterText, fewerText⟩) ← description tokens
  let (label, ⟨afterName, fewerName⟩) ← name afterText
  let (arguments, ⟨afterArguments, fewerArguments⟩) ← inputValues afterName
  let (_, ⟨afterColon, fewerColon⟩) ← mark ':' afterArguments
  let (type, ⟨afterType, fewerType⟩) ← typeRef afterColon
  let (_, ⟨left, fewer⟩) ← directives afterType
  return (⟨label, type, arguments⟩, ⟨left, by omega⟩)

def enumValue (tokens : List Token) : Step String tokens := do
  let (_, ⟨afterText, fewerText⟩) ← description tokens
  let (label, ⟨afterName, fewerName⟩) ← name afterText
  let (_, ⟨left, fewer⟩) ← directives afterName
  return (label, ⟨left, by omega⟩)

/-- The interfaces after their keyword, if it comes next. -/
def interfaces (tokens : List Token) : MaybeStep (List String) tokens :=
  match optionalWord "implements" tokens with
  | (false, left) => .ok ([], left)
  | (true, ⟨afterWord, fewerWord⟩) =>
      let (_, ⟨afterMark, fewerMark⟩) := optionalMark '&' afterWord
      match separated '&' name afterMark with
      | .error stuck => .error stuck
      | .ok (names, ⟨left, fewer⟩) => .ok (names, ⟨left, by omega⟩)

/-- The members of a union after its equals sign, if it comes next. -/
def unionMembers (tokens : List Token) : MaybeStep (List String) tokens :=
  match optionalMark '=' tokens with
  | (false, left) => .ok ([], left)
  | (true, ⟨afterSign, fewerSign⟩) =>
      let (_, ⟨afterMark, fewerMark⟩) := optionalMark '|' afterSign
      match separated '|' name afterMark with
      | .error stuck => .error stuck
      | .ok (names, ⟨left, fewer⟩) => .ok (names, ⟨left, by omega⟩)

/-! ## Types -/

/-- A type after its keyword: its name, what it declares, and whether directives stand on it. -/
structure TypeParts where
  name : String
  body : TypeBody
  marked : Bool

def scalarParts (tokens : List Token) : Step TypeParts tokens := do
  let (label, ⟨afterName, fewerName⟩) ← name tokens
  let (marks, ⟨left, fewer⟩) ← directives afterName
  return (⟨label, .scalar, !marks.isEmpty⟩, ⟨left, by omega⟩)

def objectParts (tokens : List Token) : Step TypeParts tokens := do
  let (label, ⟨afterName, fewerName⟩) ← name tokens
  let (implemented, ⟨afterInterfaces, fewerInterfaces⟩) ← interfaces afterName
  let (marks, ⟨afterDirectives, fewerDirectives⟩) ← directives afterInterfaces
  let (fields, ⟨left, fewer⟩) ← optionalBetween '\x7b' '\x7d' fieldDefinition afterDirectives
  return (⟨label, .object fields implemented, !marks.isEmpty⟩, ⟨left, by omega⟩)

/-- An interface type after its keyword. Interfaces it implements are read and dropped. -/
def interfaceParts (tokens : List Token) : Step TypeParts tokens := do
  let (label, ⟨afterName, fewerName⟩) ← name tokens
  let (_, ⟨afterInterfaces, fewerInterfaces⟩) ← interfaces afterName
  let (marks, ⟨afterDirectives, fewerDirectives⟩) ← directives afterInterfaces
  let (fields, ⟨left, fewer⟩) ← optionalBetween '\x7b' '\x7d' fieldDefinition afterDirectives
  return (⟨label, .interface fields, !marks.isEmpty⟩, ⟨left, by omega⟩)

def unionParts (tokens : List Token) : Step TypeParts tokens := do
  let (label, ⟨afterName, fewerName⟩) ← name tokens
  let (marks, ⟨afterDirectives, fewerDirectives⟩) ← directives afterName
  let (members, ⟨left, fewer⟩) ← unionMembers afterDirectives
  return (⟨label, .union members, !marks.isEmpty⟩, ⟨left, by omega⟩)

def enumParts (tokens : List Token) : Step TypeParts tokens := do
  let (label, ⟨afterName, fewerName⟩) ← name tokens
  let (marks, ⟨afterDirectives, fewerDirectives⟩) ← directives afterName
  let (values, ⟨left, fewer⟩) ← optionalBetween '\x7b' '\x7d' enumValue afterDirectives
  return (⟨label, .enum values, !marks.isEmpty⟩, ⟨left, by omega⟩)

def inputParts (tokens : List Token) : Step TypeParts tokens := do
  let (label, ⟨afterName, fewerName⟩) ← name tokens
  let (marks, ⟨afterDirectives, fewerDirectives⟩) ← directives afterName
  let (fields, ⟨left, fewer⟩) ← optionalBetween '\x7b' '\x7d' inputValue afterDirectives
  return (⟨label, .input fields, !marks.isEmpty⟩, ⟨left, by omega⟩)

def typeParts (tokens : List Token) : Step TypeParts tokens :=
  match tokens with
  | ⟨.name "scalar", _⟩ :: rest => (scalarParts rest).map (skipOne ·)
  | ⟨.name "type", _⟩ :: rest => (objectParts rest).map (skipOne ·)
  | ⟨.name "interface", _⟩ :: rest => (interfaceParts rest).map (skipOne ·)
  | ⟨.name "union", _⟩ :: rest => (unionParts rest).map (skipOne ·)
  | ⟨.name "enum", _⟩ :: rest => (enumParts rest).map (skipOne ·)
  | ⟨.name "input", _⟩ :: rest => (inputParts rest).map (skipOne ·)
  | tokens => .error (.unexpected tokens)
where
  /-- The step that took one token more. -/
  skipOne {token : Token} {rest : List Token} (found : TypeParts × Fewer rest) :
      TypeParts × Fewer (token :: rest) :=
    (found.1, ⟨found.2.val, Nat.lt_succ_of_lt found.2.property⟩)

/-- Whether an extension adds something. Interfaces alone extend an object and no interface. -/
def TypeParts.extends (parts : TypeParts) : Bool :=
  parts.marked || match parts.body with
    | .scalar => false
    | .object fields interfaces => !fields.isEmpty || !interfaces.isEmpty
    | .interface fields => !fields.isEmpty
    | .union members => !members.isEmpty
    | .enum values => !values.isEmpty
    | .input fields => !fields.isEmpty

/-! ## Directives and roots -/

/-- Where a directive can be declared to stand. -/
def directiveLocations : List String :=
  ["QUERY", "MUTATION", "SUBSCRIPTION", "FIELD", "FRAGMENT_DEFINITION", "FRAGMENT_SPREAD",
    "INLINE_FRAGMENT", "SCHEMA", "SCALAR", "OBJECT", "FIELD_DEFINITION", "ARGUMENT_DEFINITION",
    "INTERFACE", "UNION", "ENUM", "ENUM_VALUE", "INPUT_OBJECT", "INPUT_FIELD_DEFINITION",
    "VARIABLE_DEFINITION"]

def directiveLocation (tokens : List Token) : Step String tokens :=
  match name tokens with
  | .ok (text, left) => if directiveLocations.contains text then .ok (text, left) else .error (.unexpected tokens)
  | .error stuck => .error stuck

def nextIsLocation : List Token → Bool
  | ⟨.name _, _⟩ :: _ => true
  | tokens => nextIs '|' tokens

/-- The places of a directive, separated by bars. There may be none, but not after a bar. -/
def locations (tokens : List Token) : MaybeStep (List String) tokens :=
  if nextIsLocation tokens then
    let (_, afterMark) := optionalMark '|' tokens
    match separated '|' directiveLocation afterMark.val with
    | .error stuck => .error stuck
    | .ok (names, left) => .ok (names, atMost (withinRest left))
  else .ok ([], stay tokens)

def directiveDefinition (tokens : List Token) : Step SchemaDefinition tokens := do
  let (_, ⟨afterWord, fewerWord⟩) ← keyword "directive" tokens
  let (_, ⟨afterMark, fewerMark⟩) ← mark '@' afterWord
  let (label, ⟨afterName, fewerName⟩) ← name afterMark
  let (_, ⟨afterArguments, fewerArguments⟩) ← inputValues afterName
  let (_, ⟨afterRepeatable, fewerRepeatable⟩) := optionalWord "repeatable" afterArguments
  let (_, ⟨afterOn, fewerOn⟩) ← keyword "on" afterRepeatable
  let (_, ⟨left, fewer⟩) ← locations afterOn
  return (.directive label, ⟨left, by omega⟩)

def operationType (tokens : List Token) : Step (String × String) tokens := do
  let (operation, ⟨afterName, fewerName⟩) ← name tokens
  let (_, ⟨afterColon, fewerColon⟩) ← mark ':' afterName
  let (type, ⟨left, fewer⟩) ← name afterColon
  return ((operation, type), ⟨left, by omega⟩)

/-- Adds an operation to the roots, once each. -/
def addRoot? (roots : SchemaRoots) (entry : String × String) : Option SchemaRoots :=
  if entry.1 = "query" ∧ roots.query.isNone then some { roots with query := some entry.2 }
  else if entry.1 = "mutation" ∧ roots.mutation.isNone then some { roots with mutation := some entry.2 }
  else if entry.1 = "subscription" ∧ roots.subscription.isNone then
    some { roots with subscription := some entry.2 }
  else none

/-- A schema block. Unknown and repeated operations are refused at the keyword. -/
def schemaBlock (tokens : List Token) : Step SchemaDefinition tokens := do
  let (_, ⟨afterWord, fewerWord⟩) ← keyword "schema" tokens
  let (_, ⟨afterDirectives, fewerDirectives⟩) ← directives afterWord
  let (_, ⟨afterOpening, fewerOpening⟩) ← mark '\x7b' afterDirectives
  let (entries, ⟨left, fewer⟩) ← itemsUntil '\x7d' operationType afterOpening
  match entries.foldlM addRoot? ⟨none, none, none⟩ with
  | some roots => return (.roots roots, ⟨left, by omega⟩)
  | none => throw (.unexpected tokens)

/-- An extension after its keyword. One that adds nothing is refused at the keyword of its kind. -/
def extensionBody (tokens : List Token) : Step SchemaDefinition tokens := do
  let (parts, left) ← typeParts tokens
  if parts.extends then return (.extension parts.name parts.body, left) else throw (.unexpected tokens)

def schemaDefinition (tokens : List Token) : Step SchemaDefinition tokens :=
  if nextIsWord "schema" tokens then schemaBlock tokens
  else if nextIsWord "extend" tokens then do
    let (_, afterWord) ← keyword "extend" tokens
    let (found, left) ← extensionBody afterWord.val
    return (found, within left)
  else do
    let (_, afterText) ← description tokens
    if nextIsWord "directive" afterText.val then
      let (found, left) ← directiveDefinition afterText.val
      return (found, withinRest left)
    else
      let (parts, left) ← typeParts afterText.val
      return (.type parts.name parts.body, withinRest left)

end Parse

def SchemaDefinition.parse (text : String) : Except ParseFailure (List SchemaDefinition) :=
  (TokenStream.ofText text).parse Parse.schemaDefinition

end GraphqlStore
