import GraphqlStore.Names.NameMap
import GraphqlStore.Names.NameSet
import GraphqlStore.Names.Ordered
import GraphqlStore.Schema.Definition

/-!
The type system that documents are checked against: named types with their
members, the root types of the operations, and the declared directives.
-/

set_option autoImplicit false

namespace GraphqlStore

/-- The kinds of named types. -/
inductive TypeKind where
  | scalar
  | object
  | interface
  | union
  | enum
  | inputObject
deriving DecidableEq, Repr

namespace TypeKind

def isComposite : TypeKind → Bool
  | .object | .interface | .union => true
  | _ => false

def isAbstract : TypeKind → Bool
  | .interface | .union => true
  | _ => false

def isLeaf : TypeKind → Bool
  | .scalar | .enum => true
  | _ => false

def isInput : TypeKind → Bool
  | .scalar | .enum | .inputObject => true
  | _ => false

def text : TypeKind → String
  | .scalar => "Scalar"
  | .object => "Object"
  | .interface => "Interface"
  | .union => "Union"
  | .enum => "Enum"
  | .inputObject => "InputObject"

end TypeKind

namespace InputValue

def isRequired (input : InputValue) : Bool := !input.type.isNullable && !input.hasDefault

end InputValue

namespace TypeBody

def kind : TypeBody → TypeKind
  | .scalar => .scalar
  | .object _ _ => .object
  | .interface _ => .interface
  | .union _ => .union
  | .enum _ => .enum
  | .input _ => .inputObject

/-- The fields that can be selected, `__typename` apart. -/
def fields : TypeBody → List FieldDef
  | .object fields _ => fields
  | .interface fields => fields
  | _ => []

def interfaces : TypeBody → List String
  | .object _ interfaces => interfaces
  | _ => []

def members : TypeBody → List String
  | .union members => members
  | _ => []

def enumValues : TypeBody → List String
  | .enum values => values
  | _ => []

def inputFields : TypeBody → List InputValue
  | .input fields => fields
  | _ => []

end TypeBody

/-- A named type. -/
structure TypeDef where
  body : TypeBody
  /-- The object types that name this type among their interfaces. -/
  implementors : NameSet

namespace TypeDef

def kind (type : TypeDef) : TypeKind := type.body.kind

def field? (type : TypeDef) (name : String) : Option FieldDef :=
  Ordered.find? FieldDef.name name type.body.fields

/-- The member types of a union and the implementors of an interface. -/
def possible (type : TypeDef) : NameSet := (NameSet.ofList type.body.members).union type.implementors

end TypeDef

/-- The type system of a run. -/
structure Schema where
  types : NameMap TypeDef
  query : String
  mutation : Option String
  subscription : Option String
  directives : NameSet

/-- A field that can be selected. -/
inductive FieldRef where
  | declared (field : FieldDef)
  /-- The name of the object type at hand. -/
  | typename
deriving DecidableEq, Repr

namespace FieldRef

def type : FieldRef → TypeRef
  | .declared field => field.type
  | .typename => .nonNull (.named "String")

def typeName (field : FieldRef) : String := field.type.base

def arguments : FieldRef → List InputValue
  | .declared field => field.arguments
  | .typename => []

def argument? (field : FieldRef) (name : String) : Option InputValue :=
  Ordered.find? InputValue.name name field.arguments

end FieldRef

namespace Schema

/-- Scalars that every schema has. -/
def builtinScalars : List String := ["Boolean", "Float", "ID", "Int", "String"]

/-- The field that every composite type has. -/
def typenameField : String := "__typename"

def type? (schema : Schema) (name : String) : Option TypeDef := schema.types.find? name

def kind? (schema : Schema) (name : String) : Option TypeKind := (schema.type? name).map TypeDef.kind

def isComposite (schema : Schema) (name : String) : Bool :=
  (schema.kind? name).any TypeKind.isComposite

def isAbstract (schema : Schema) (name : String) : Bool :=
  (schema.kind? name).any TypeKind.isAbstract

def isObject (schema : Schema) (name : String) : Bool := schema.kind? name == some .object

def field? (schema : Schema) (parent name : String) : Option FieldRef :=
  if name = typenameField then
    if schema.isComposite parent then some .typename else none
  else (schema.type? parent).bind fun type => (type.field? name).map .declared

def possibleTypes (schema : Schema) (name : String) : NameSet :=
  match schema.type? name with
  | some type =>
      match type.kind with
      | .object => NameSet.ofList [name]
      | .interface | .union => type.possible
      | _ => NameSet.empty
  | none => NameSet.empty

def overlap (schema : Schema) (parent condition : String) : Bool :=
  parent == condition || (schema.possibleTypes condition).intersects (schema.possibleTypes parent)

def root? (schema : Schema) : OperationKind → Option String
  | .query => some schema.query
  | .mutation => schema.mutation
  | .subscription => schema.subscription

end Schema

end GraphqlStore
