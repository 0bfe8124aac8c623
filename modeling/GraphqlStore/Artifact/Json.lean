import GraphqlStore.Artifact.Basic

/-!
Artifacts as data. A member that says nothing is left out.
-/

set_option autoImplicit false

namespace GraphqlStore

namespace ArtifactJson

def texts (items : List String) : Json := .array (items.map .string)

def ifTrue (name : String) (value : Bool) : List (String × Json) :=
  if value then [(name, .bool true)] else []

def ifAny {α : Type} (name : String) (entries : List α) (value : Json) : List (String × Json) :=
  if entries.isEmpty then [] else [(name, value)]

/-! ## Shapes -/

def fragment (fragment : FragmentRef) : Json :=
  .object [("name", .string fragment.name), ("masked", .bool fragment.masked)]

/-- The members of a field but for the shape of its value. -/
def fieldMembers (info : FieldInfo) : List (String × Json) :=
  [("field", .string info.field), ("type", .string info.type), ("typeRef", .string info.typeRef),
      ("keyRaw", .string info.keyRaw), ("nullable", .bool info.nullable), ("list", .bool info.list)] ++
    Json.optional "marshal" (info.marshal.map .string) ++
    ifTrue "hidden" info.hidden ++
    Json.optional "listName" (info.listName.map .string) ++
    ifTrue "paginated" info.paginated ++
    ifTrue "abstract" info.isAbstract

mutual
def selection : SelectionShape → Json
  | .mk fields conditions fragments =>
      .object <|
        [("fields", .object (fieldEntries fields))] ++
        ifAny "conditions" conditions (.object (conditionEntries conditions)) ++
        ifAny "fragments" fragments (.array (fragments.map fragment))

def fieldEntry : FieldShape → String × Json
  | .leaf name info => (name, .object (fieldMembers info))
  | .composite name info shape =>
      (name, .object (fieldMembers info ++ [("selection", selection shape)]))

def fieldEntries : List FieldShape → List (String × Json)
  | [] => []
  | field :: rest => fieldEntry field :: fieldEntries rest

def conditionEntries : List (String × SelectionShape) → List (String × Json)
  | [] => []
  | (type, shape) :: rest => (type, selection shape) :: conditionEntries rest
end

/-! ## Inputs, pagination and keys -/

def textEntries (entries : List (String × String)) : Json :=
  .object (entries.map fun entry => (entry.1, .string entry.2))

def input (shape : InputShape) : Json :=
  .object <|
    [("fields", textEntries shape.fields)] ++
    ifAny "types" shape.types.entries
      (.object (shape.types.entries.map fun entry => (entry.1, textEntries entry.2))) ++
    ifAny "defaults" shape.defaults (.object shape.defaults) ++
    ifAny "marshal" shape.marshal.entries (textEntries shape.marshal.entries)

def refetch (found : Pagination.Refetch) : Json :=
  .object [("queryField", .string found.queryField), ("targetType", .string found.targetType),
    ("keys", texts found.keys)]

def pagination (info : PaginationInfo) : Json :=
  .object <|
    [("mode", .string info.mode.text)] ++
    Json.optional "path" (info.path.map texts) ++
    Json.optional "pageSize" (info.pageSize.map fun size => .number (.integer size)) ++
    Json.optional "refetch" (info.refetch.map refetch)

def keys (entries : List (String × List String)) : Json :=
  .object (entries.map fun entry => (entry.1, texts entry.2))

end ArtifactJson

def Artifact.toJson (artifact : Artifact) : Json :=
  .object <|
    [("name", .string artifact.name), ("kind", .string artifact.kind.text),
      ("hash", .string artifact.hash), ("raw", .string artifact.raw),
      ("rootType", .string artifact.rootType),
      ("selection", ArtifactJson.selection artifact.selection)] ++
    Json.optional "input" (artifact.input.map ArtifactJson.input) ++
    [("pagination", ArtifactJson.pagination artifact.pagination)] ++
    ArtifactJson.ifAny "keys" artifact.keys.entries (ArtifactJson.keys artifact.keys.entries) ++
    Json.optional "policy" (artifact.policy.map fun policy => .string policy.text) ++
    Json.optional "partial" (artifact.allowPartial.map .bool)

end GraphqlStore
