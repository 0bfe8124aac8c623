import GraphqlStore.Document.Collected
import GraphqlStore.Schema.Basic

/-!
Walking through selections in step with the schema. The walk goes below
declared fields and below conditions that name a type; what does not resolve
is visited and left alone.
-/

set_option autoImplicit false

namespace GraphqlStore

namespace Document

/-- The type on which the selections of a document are made. -/
def rootType? (schema : Schema) (document : Document) : Option String :=
  match document.kind with
  | .operation kind => schema.root? kind
  | .fragment =>
      match document.definition? with
      | some (.fragment declared) => some declared.condition
      | _ => none

def selections? (document : Document) : Option SelectionSet :=
  document.definition?.map Definition.selections

end Document

/-- A selection met on a walk, with the type on which it is made. -/
inductive Visit where
  /-- A field, the selections below it, what it selects, and the response names that lead to it. -/
  | field (parent : String) (head : Field) (items : List Selection) (found : Option FieldRef)
      (path : List String)
  | spread (parent : String) (head : Spread)
  | inline (parent : String) (head : InlineFragment)

namespace InlineFragment

/-- The type on which the selections of an inline fragment are made. -/
def typeWithin (fragment : InlineFragment) (parent : String) : String :=
  fragment.condition.getD parent

end InlineFragment

mutual
/-- The visits of a walk through a selection, in document order. -/
def Selection.visits (schema : Schema) (parent : String) (path : List String) :
    Selection → List Visit
  | .field head items =>
      let found := schema.field? parent head.name
      let path := path ++ [head.responseName]
      .field parent head items found path ::
        match found with
        | some (.declared declared) => visits schema declared.type.base path items
        | _ => []
  | .spread head => [.spread parent head]
  | .inline head items =>
      .inline parent head ::
        if (schema.type? (head.typeWithin parent)).isSome then
          visits schema (head.typeWithin parent) path items
        else []

/-- The visits of a walk through selections, in document order. -/
def visits (schema : Schema) (parent : String) (path : List String) : List Selection → List Visit
  | [] => []
  | selection :: rest => selection.visits schema parent path ++ visits schema parent path rest
end

/-- The visits of a walk through a document; nothing if it has no root type or no definition. -/
def Document.visits? (schema : Schema) (document : Document) : Option (List Visit) :=
  match document.rootType? schema, document.selections? with
  | some root, some selections => some (visits schema root [] selections.items)
  | _, _ => none

end GraphqlStore
