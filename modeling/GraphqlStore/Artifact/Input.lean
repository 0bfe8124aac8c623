import GraphqlStore.Artifact.Basic
import GraphqlStore.Schema.InputTypes

/-!
The shape of the variables of a document: their types, the input types that
they reach, and the scalars among them whose values have to be converted.
-/

set_option autoImplicit false

namespace GraphqlStore

namespace InputShape

/-- Writes the scalar of a variable or field if its values have to be converted. -/
def addMarshal (config : Config) (marshal : NameMap String) (place type : String) : NameMap String :=
  if config.needsMarshal type then marshal.insert place type else marshal

def fieldTypes (type : TypeDef) : List (String × String) :=
  type.body.inputFields.map fun field => (field.name, field.type.text)

/-- Adds an input type with its fields. Other types are left out. -/
def addType (config : Config) (shape : InputShape) (name : String) : InputShape :=
  match config.schema.type? name with
  | none => shape
  | some type =>
      if type.kind = .inputObject then
        { shape with
          types := shape.types.insert name (fieldTypes type)
          marshal := type.body.inputFields.foldl
            (fun marshal field => addMarshal config marshal (name ++ "." ++ field.name) field.type.base)
            shape.marshal }
      else shape

def addVariable (config : Config) (shape : InputShape) (declared : VariableDefinition) :
    InputShape :=
  let base := declared.type.base
  let defaults := match declared.default with
    | some value => Ordered.upsert Prod.fst (declared.name, value.toJson) shape.defaults
    | none => shape.defaults
  let own : InputShape :=
    { shape with
      fields := Ordered.upsert Prod.fst (declared.name, declared.type.text) shape.fields
      defaults
      marshal := addMarshal config shape.marshal declared.name base }
  (config.schema.inputReach base).foldl (addType config) own

/-- The shape of the variables of a document, if it declares any. -/
def ofDocument? (config : Config) (document : Document) : Option InputShape :=
  match document.definition?.bind Definition.variableDefinitions? with
  | none => none
  | some definitions =>
      if definitions.isEmpty then none else some (definitions.foldl (addVariable config) empty)

end InputShape

end GraphqlStore
