import GraphqlStore.Config.Basic
import GraphqlStore.Pagination.Shape

/-!
Connections: types that list edges with a node and tell where a page ends. And
refetching: how the value that holds a paged field is fetched again.
-/

set_option autoImplicit false

namespace GraphqlStore

namespace Pagination

def fieldType? (schema : Schema) (type field : String) : Option TypeDef :=
  ((schema.type? type).bind (TypeDef.field? · field)).bind fun found => schema.type? found.type.base

/-- Whether a type lists edges with a node and tells where a page ends. -/
def isConnection (schema : Schema) (type : String) : Bool :=
  (fieldType? schema type "edges").any (fun edge => (edge.field? "node").isSome) &&
    (schema.type? type).any fun found => (found.field? "pageInfo").isSome

/-- Fields that tell where a page ends. -/
def pageInfoFields : List String := ["hasNextPage", "hasPreviousPage", "startCursor", "endCursor"]

/-- How a value is fetched again. -/
structure Refetch where
  queryField : String
  targetType : String
  keys : List String
deriving DecidableEq, Repr

/-- The field of the query root that fetches any value with the usual key. -/
def nodeField : String := "node"

/-- How a value of a type is fetched again: by what is set for the type, or by the usual key. -/
def refetch? (config : Config) (type : String) : Option Refetch :=
  let keys := config.identityKeys type
  match config.queryField? type with
  | some field => some ⟨field, type, keys⟩
  | none =>
      if keys = [Config.defaultKey] ∧ (config.schema.field? config.schema.query nodeField).isSome then
        some ⟨nodeField, type, keys⟩
      else none

/-- The report of a type whose values cannot be fetched again. -/
def noRefetch (type : String) : String :=
  "type \"" ++ type ++ "\" cannot be refetched to load more pages"

end Pagination

end GraphqlStore
