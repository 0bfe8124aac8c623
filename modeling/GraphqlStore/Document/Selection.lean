import GraphqlStore.Document.Value
import GraphqlStore.Schema.TypeRef
import GraphqlStore.Source.Position

/-!
Executable documents: operations, fragments and their trees of selections. A
selection that has selections below it holds a head, which is all the rest of
it, and the list of selections below.
-/

set_option autoImplicit false

namespace GraphqlStore

/-- A directive with its arguments. -/
structure Directive where
  position : Position
  name : String
  arguments : List Argument
deriving Repr

/-- A field without the selections below it. -/
structure Field where
  position : Position
  aliasName : Option String
  name : String
  arguments : List Argument
  directives : List Directive
  /-- Where its selections open; the field's own place if it has none. -/
  opening : Position
deriving Repr

/-- A spread of a named fragment. -/
structure Spread where
  position : Position
  name : String
  directives : List Directive
deriving Repr

/-- An inline fragment without its selections. -/
structure InlineFragment where
  position : Position
  condition : Option String
  directives : List Directive
  opening : Position
deriving Repr

/-- A selection. -/
inductive Selection where
  | field (head : Field) (items : List Selection)
  | spread (head : Spread)
  | inline (head : InlineFragment) (items : List Selection)
deriving Repr

/-- Selections between brackets. -/
structure SelectionSet where
  opening : Position
  items : List Selection
deriving Repr

/-- What an operation does. -/
inductive OperationKind where
  | query
  | mutation
  | subscription
deriving DecidableEq, Repr

/-- The declaration of a variable. -/
structure VariableDefinition where
  position : Position
  name : String
  type : TypeRef
  default : Option Value
deriving Repr

/-- An operation that is introduced by its keyword. -/
structure Operation where
  kind : OperationKind
  position : Position
  name : Option String
  variableDefinitions : List VariableDefinition
  directives : List Directive
  selections : SelectionSet
deriving Repr

/-- A named fragment. -/
structure Fragment where
  position : Position
  name : String
  condition : String
  directives : List Directive
  selections : SelectionSet
deriving Repr

/-- A definition of an executable document. -/
inductive Definition where
  /-- A query written as its selections alone. -/
  | shorthand (selections : SelectionSet)
  | operation (operation : Operation)
  | fragment (fragment : Fragment)
deriving Repr

abbrev ExecutableDocument := List Definition

namespace Field

def responseName (field : Field) : String := field.aliasName.getD field.name

/-- A field without alias, arguments and directives. -/
def plain (name : String) (position : Position) : Field :=
  ⟨position, none, name, [], [], position⟩

/-- Whether a directive of this name stands on the field. -/
def hasDirective (field : Field) (name : String) : Bool :=
  field.directives.any fun directive => directive.name == name

end Field

namespace OperationKind

def keyword : OperationKind → String
  | .query => "query"
  | .mutation => "mutation"
  | .subscription => "subscription"

end OperationKind

namespace Definition

def selections : Definition → SelectionSet
  | .shorthand written => written
  | .operation declared => declared.selections
  | .fragment declared => declared.selections

/-- The definition with other selections in the place of its own. -/
def withItems (items : List Selection) : Definition → Definition
  | .shorthand written => .shorthand { written with items }
  | .operation declared =>
      .operation { declared with selections := { declared.selections with items } }
  | .fragment declared => .fragment { declared with selections := { declared.selections with items } }

def position : Definition → Position
  | .shorthand written => written.opening
  | .operation declared => declared.position
  | .fragment declared => declared.position

/-- The variables a definition declares, if it can declare any. -/
def variableDefinitions? : Definition → Option (List VariableDefinition)
  | .operation declared => some declared.variableDefinitions
  | _ => none

end Definition

/-! ## Variables and spreads of a selection tree -/

def directiveVariables (directives : List Directive) : List String :=
  directives.flatMap fun directive => directive.arguments.flatMap fun argument => argument.2.variableNames

mutual
/-- The variables that a selection uses, in document order. -/
def Selection.variableNames : Selection → List String
  | .field head items =>
      head.arguments.flatMap (fun argument => argument.2.variableNames) ++
        (directiveVariables head.directives ++ selectionVariables items)
  | .spread head => directiveVariables head.directives
  | .inline head items => directiveVariables head.directives ++ selectionVariables items

/-- The variables that selections use, in document order. -/
def selectionVariables : List Selection → List String
  | [] => []
  | selection :: rest => selection.variableNames ++ selectionVariables rest
end

mutual
/-- The fragments that a selection spreads at any depth, in document order. -/
def Selection.spreads : Selection → List String
  | .field _ items => spreadNames items
  | .spread head => [head.name]
  | .inline _ items => spreadNames items

/-- The fragments that selections spread at any depth, in document order. -/
def spreadNames : List Selection → List String
  | [] => []
  | selection :: rest => selection.spreads ++ spreadNames rest
end

end GraphqlStore
