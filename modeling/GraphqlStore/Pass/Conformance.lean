import GraphqlStore.Pass.Merge

/-!
Conformance: every field, argument, spread, condition and variable of a
document has to resolve against the schema.
-/

set_option autoImplicit false

namespace GraphqlStore

namespace Conformance

/-- What does not resolve. -/
inductive Issue where
  | missingRoot (kind : DocumentKind)
  | fragmentOnUnknown (fragment type : String)
  | fragmentOnLeaf (fragment type : String)
  | cyclicFragment (fragment : String)
  | repeatedVariable (name : String)
  | variableType (name : String) (type : TypeRef)
  | variableUnknownType (name type : String)
  | undefinedVariable (name : String)
  | unknownField (parent field : String)
  | unknownArgument (parent field argument : String)
  | missingArgument (parent field argument : String)
  | missingSelection (field type : String)
  | leafSelection (field type : String)
  | unknownFragment (name : String)
  | spreadNeverApplies (fragment condition parent : String)
  | unknownCondition (condition : String)
  | leafCondition (condition : String)
  | conditionNeverApplies (condition parent : String)
deriving DecidableEq, Repr

namespace Issue

def message : Issue → String
  | .missingRoot kind => "schema has no " ++ kind.text ++ " root type"
  | .fragmentOnUnknown fragment type =>
      "fragment " ++ fragment ++ " is declared on unknown type \"" ++ type ++ "\""
  | .fragmentOnLeaf fragment type =>
      "fragment " ++ fragment ++ " cannot be declared on non-composite type \"" ++ type ++ "\""
  | .cyclicFragment fragment => "fragment " ++ fragment ++ " spreads itself through a cycle"
  | .repeatedVariable name => "variable $" ++ name ++ " is declared twice"
  | .variableType name type =>
      "variable $" ++ name ++ " has type " ++ type.text ++ ", which is not an input type"
  | .variableUnknownType name type =>
      "variable $" ++ name ++ " has unknown type \"" ++ type ++ "\""
  | .undefinedVariable name => "variable $" ++ name ++ " is not defined"
  | .unknownField parent field => "unknown field \"" ++ field ++ "\" on type \"" ++ parent ++ "\""
  | .unknownArgument parent field argument =>
      "unknown argument \"" ++ argument ++ "\" on field \"" ++ parent ++ "." ++ field ++ "\""
  | .missingArgument parent field argument =>
      "field \"" ++ parent ++ "." ++ field ++ "\" is missing required argument \"" ++ argument ++ "\""
  | .missingSelection field type =>
      "field \"" ++ field ++ "\" of type \"" ++ type ++ "\" must have a selection of subfields"
  | .leafSelection field type =>
      "field \"" ++ field ++ "\" of leaf type \"" ++ type ++ "\" cannot have a selection"
  | .unknownFragment name => "unknown fragment \"" ++ name ++ "\""
  | .spreadNeverApplies fragment condition parent =>
      "fragment " ++ fragment ++ " on \"" ++ condition ++ "\" can never apply within \"" ++ parent ++
        "\""
  | .unknownCondition condition => "unknown type \"" ++ condition ++ "\" in type condition"
  | .leafCondition condition => "type condition \"" ++ condition ++ "\" is not a composite type"
  | .conditionNeverApplies condition parent =>
      "fragment on \"" ++ condition ++ "\" can never apply within \"" ++ parent ++ "\""

def hint : Issue → Option String
  | .cyclicFragment _ => some "break the cycle; fragments cannot reference themselves"
  | _ => none

/-- The issue as a fault at a place, if one is known. -/
def fault (location : Option Position) (issue : Issue) : Fault := ⟨issue.message, location, issue.hint⟩

end Issue

/-! ## Selections -/

def fieldIssues (schema : Schema) (parent : String) (head : Field) (items : List Selection)
    (found : FieldRef) : List Issue :=
  let unknown := head.arguments.filter fun argument => (found.argument? argument.1).isNone
  let missing := found.arguments.filter fun input =>
    input.isRequired && !head.arguments.any fun argument => argument.1 == input.name
  let target := found.typeName
  let selection :=
    if schema.isComposite target then
      if items.isEmpty then [.missingSelection head.name target] else []
    else if items.isEmpty then [] else [.leafSelection head.name target]
  unknown.map (fun argument => .unknownArgument parent head.name argument.1) ++
    missing.map (fun input => .missingArgument parent head.name input.name) ++ selection

def conditionIssues (schema : Schema) (parent condition : String) : List Issue :=
  match schema.kind? condition with
  | none => [.unknownCondition condition]
  | some kind =>
      if !kind.isComposite then [.leafCondition condition]
      else if schema.overlap parent condition then []
      else [.conditionNeverApplies condition parent]

def spreadIssues (schema : Schema) (registry : FragmentRegistry) (parent : String) (head : Spread) :
    List Issue :=
  match registry.find? head.name with
  | none => [.unknownFragment head.name]
  | some fragment =>
      if schema.overlap parent fragment.condition then []
      else [.spreadNeverApplies head.name fragment.condition parent]

def visitFaults (schema : Schema) (registry : FragmentRegistry) : Visit → List Fault
  | .field parent head items found _ =>
      let issues := match found with
        | none => [Issue.unknownField parent head.name]
        | some field => fieldIssues schema parent head items field
      issues.map (Issue.fault (some head.position))
  | .spread parent head =>
      (spreadIssues schema registry parent head).map (Issue.fault (some head.position))
  | .inline parent head =>
      match head.condition with
      | none => []
      | some condition =>
          (conditionIssues schema parent condition).map (Issue.fault (some head.position))

/-! ## Variables -/

def variableTypeIssues (schema : Schema) (declared : VariableDefinition) : List Issue :=
  match schema.kind? declared.type.base with
  | none => [.variableUnknownType declared.name declared.type.base]
  | some kind => if kind.isInput then [] else [.variableType declared.name declared.type]

/-- What is wrong with declared variables, of which some names have been met before. -/
def variableFaults (schema : Schema) (met : List String) : List VariableDefinition → List Fault
  | [] => []
  | declared :: rest =>
      let repeated := if met.contains declared.name then [Issue.repeatedVariable declared.name] else []
      (repeated ++ variableTypeIssues schema declared).map (Issue.fault (some declared.position)) ++
        variableFaults schema (declared.name :: met) rest

/-- The used variables that an operation does not declare. -/
def undefinedFaults (registry : FragmentRegistry) (document : Document)
    (declared : List VariableDefinition) (selections : List Selection) : List Fault :=
  let missing := (registry.variableNames selections).names.filter fun name =>
    !declared.any fun definition => definition.name == name
  missing.map fun name => Issue.fault document.location? (.undefinedVariable name)

def definitionVariableFaults (schema : Schema) (registry : FragmentRegistry) (document : Document)
    (definition : Definition) : List Fault :=
  match definition.variableDefinitions? with
  | none => []
  | some declared =>
      variableFaults schema [] declared ++
        if document.kind.isOperation then
          undefinedFaults registry document declared definition.selections.items
        else []

/-! ## Documents -/

/-- What is wrong with the head of a fragment, and whether its selections can be checked. -/
def fragmentFaults (schema : Schema) (registry : FragmentRegistry) (fragment : Fragment) :
    List Fault × Bool :=
  let located := Issue.fault (some fragment.position)
  match schema.kind? fragment.condition with
  | none => ([located (.fragmentOnUnknown fragment.name fragment.condition)], false)
  | some kind =>
      if !kind.isComposite then
        ([located (.fragmentOnLeaf fragment.name fragment.condition)], false)
      else if registry.isCyclic fragment.name then
        ([located (.cyclicFragment fragment.name)], true)
      else ([], true)

/-- What is wrong with the head of a definition, and whether its selections can be checked. -/
def headFaults (schema : Schema) (registry : FragmentRegistry) : Definition → List Fault × Bool
  | .fragment declared => fragmentFaults schema registry declared
  | _ => ([], true)

def faults (schema : Schema) (registry : FragmentRegistry) (document : Document) : List Fault :=
  match document.definition? with
  | none => []
  | some definition =>
      match document.rootType? schema with
      | none => [Issue.fault document.location? (.missingRoot document.kind)]
      | some root =>
          let (head, sound) := headFaults schema registry definition
          let items := definition.selections.items
          if sound then
            head ++ definitionVariableFaults schema registry document definition ++
              (visits schema root [] items).flatMap (visitFaults schema registry) ++
              Merge.faults schema registry root items
          else head

end Conformance

/-- Every field, argument, spread and variable resolves against the schema. -/
def Pass.schemaConformance : Pass :=
  .checking "schema_conformance" fun context document =>
    document.reports (Conformance.faults context.config.schema context.registry document)

end GraphqlStore
