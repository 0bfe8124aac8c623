import GraphqlStore.Names.Reach
import GraphqlStore.Schema.Basic

/-!
Input types: the types that the fields of input types lead to.
-/

set_option autoImplicit false

namespace GraphqlStore

namespace TypeDef

def inputTypes (type : TypeDef) : List String :=
  type.body.inputFields.map fun field => field.type.base

end TypeDef

namespace Schema

/-- The types that a type leads to through fields of input types, itself included, in the order
in which they are met. -/
def inputReach (schema : Schema) (type : String) : List String :=
  schema.types.reach TypeDef.inputTypes [] [type]

def isScalar (schema : Schema) (name : String) : Bool := schema.kind? name == some .scalar

end Schema

end GraphqlStore
