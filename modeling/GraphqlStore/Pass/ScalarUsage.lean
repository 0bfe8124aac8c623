import GraphqlStore.Document.Visit
import GraphqlStore.Pass.Basic
import GraphqlStore.Schema.InputTypes

/-!
Scalars in use: each one that a document reaches, by the types of its
variables or by its fields, must have a known conversion.
-/

set_option autoImplicit false

namespace GraphqlStore

namespace ScalarUsage

/-- The scalars that variables reach, each with the place of the variable. -/
def variableScalars (schema : Schema) (definitions : List VariableDefinition) :
    List (String × Position) :=
  definitions.flatMap fun declared =>
    ((schema.inputReach declared.type.base).filter schema.isScalar).map fun name =>
      (name, declared.position)

def visitScalar? (schema : Schema) : Visit → Option (String × Position)
  | .field _ head _ (some found) _ =>
      if schema.isScalar found.typeName then some (found.typeName, head.position) else none
  | _ => none

/-- The scalars that a document reaches, in the order in which they are met. -/
def scalars (schema : Schema) (document : Document) : List (String × Position) :=
  variableScalars schema ((document.definition?.bind Definition.variableDefinitions?).getD []) ++
    ((document.visits? schema).getD []).filterMap (visitScalar? schema)

def firsts (met : List String) : List (String × Position) → List (String × Position)
  | [] => []
  | entry :: rest =>
      if met.contains entry.1 then firsts met rest else entry :: firsts (entry.1 :: met) rest

def fault (entry : String × Position) : Fault :=
  ⟨Config.missingScalar entry.1, some entry.2,
    some ("register \"" ++ entry.1 ++ "\" under scalars in the config")⟩

/-- The scalars of a document without known conversion, each once. -/
def faults (config : Config) (document : Document) : List Fault :=
  let unknown := (scalars config.schema document).filter fun entry =>
    (config.scalarSpec? entry.1).isNone
  (firsts [] unknown).map fault

end ScalarUsage

/-- Each scalar that a document reaches has a known conversion. -/
def Pass.scalarUsage : Pass :=
  .checking "scalar_usage" fun context document =>
    document.reports (ScalarUsage.faults context.config document)

end GraphqlStore
