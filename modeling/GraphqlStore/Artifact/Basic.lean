import GraphqlStore.Artifact.Shape
import GraphqlStore.Document.Collected
import GraphqlStore.Json.Value
import GraphqlStore.Pagination.Connection

/-!
Artifacts: what a store has to know about a document at run time.
-/

set_option autoImplicit false

namespace GraphqlStore

/-- How a document is paged through. -/
structure PaginationInfo where
  mode : PaginationMode
  /-- The response names that lead to the paginated field. -/
  path : Option (List String)
  pageSize : Option Int
  /-- How the value that holds the field is fetched again. -/
  refetch : Option Pagination.Refetch
deriving DecidableEq, Repr

def PaginationInfo.none : PaginationInfo := ⟨.none, Option.none, Option.none, Option.none⟩

/-- What the variables of a document look like. -/
structure InputShape where
  /-- The declared type of each variable. -/
  fields : List (String × String)
  /-- The input types that variables reach, with the types of their fields. -/
  types : NameMap (List (String × String))
  defaults : List (String × Json)
  /-- The scalar of each variable, and of each `Type.field`, whose values have to be converted. -/
  marshal : NameMap String

namespace InputShape

def empty : InputShape := ⟨[], NameMap.empty, [], NameMap.empty⟩

def same (first second : InputShape) : Bool :=
  first.fields == second.fields && first.types == second.types &&
    Json.same (.object first.defaults) (.object second.defaults) && first.marshal == second.marshal

end InputShape

/-- What a store has to know about a document. -/
structure Artifact where
  name : String
  kind : DocumentKind
  /-- The digest of the text that the document was read from. -/
  hash : String
  /-- The text that is sent to a server. -/
  raw : String
  rootType : String
  selection : SelectionShape
  input : Option InputShape
  pagination : PaginationInfo
  /-- The keys of each type of the selection that has keys. -/
  keys : NameMap (List String)
  policy : Option CachePolicy
  allowPartial : Option Bool

def Artifact.same (first second : Artifact) : Bool :=
  let inputs := match first.input, second.input with
    | some input, some other => input.same other
    | none, none => true
    | _, _ => false
  first.name == second.name && first.kind == second.kind && first.hash == second.hash &&
    first.raw == second.raw && first.rootType == second.rootType &&
    first.selection.same second.selection && inputs && first.pagination == second.pagination &&
    first.keys == second.keys && first.policy == second.policy &&
    first.allowPartial == second.allowPartial

end GraphqlStore
