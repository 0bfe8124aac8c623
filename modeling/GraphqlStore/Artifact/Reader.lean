import GraphqlStore.Artifact.Json
import GraphqlStore.Json.Printer
import GraphqlStore.Json.Reader

/-!
Reading artifacts back from data.
-/

set_option autoImplicit false

namespace GraphqlStore

namespace ArtifactReader

/-! ## Members -/

def members? : Json → Option (List (String × Json))
  | .object members => some members
  | _ => none

def items? : Json → Option (List Json)
  | .array items => some items
  | _ => none

def bool? : Json → Option Bool
  | .bool value => some value
  | _ => none

def texts? (value : Json) : Option (List String) := do
  (← items? value).mapM Json.string?

def required? {α : Type} (members : List (String × Json)) (name : String)
    (read : Json → Option α) : Option α :=
  (Json.member? name members).bind read

def member? {α : Type} (members : List (String × Json)) (name : String) (absent : α)
    (read : Json → Option α) : Option α :=
  match Json.member? name members with
  | some value => read value
  | none => some absent

def optional? {α : Type} (members : List (String × Json)) (name : String)
    (read : Json → Option α) : Option (Option α) :=
  member? members name none fun value => (read value).map some

theorem sizeOf_member? {name : String} {members : List (String × Json)} {value : Json}
    (found : Json.member? name members = some value) : sizeOf value < sizeOf members := by
  induction members with
  | nil => simp [Json.member?, Ordered.find?] at found
  | cons entry rest ih =>
      obtain ⟨key, present⟩ := entry
      by_cases same : key = name
      · simp only [Json.member?, Ordered.find?, same, if_true, Option.map_some,
          Option.some.injEq] at found
        subst found
        simp
        omega
      · have later : Json.member? name rest = some value := by
          simpa [Json.member?, Ordered.find?, same] using found
        have smaller := ih later
        simp
        omega

/-! ## Shapes -/

def fragment? (value : Json) : Option FragmentRef := do
  let members ← members? value
  let name ← required? members "name" Json.string?
  let masked ← required? members "masked" bool?
  return ⟨name, masked⟩

def fragments? (value : Json) : Option (List FragmentRef) := do
  (← items? value).mapM fragment?

def fieldInfo? (members : List (String × Json)) : Option FieldInfo := do
  let field ← required? members "field" Json.string?
  let type ← required? members "type" Json.string?
  let typeRef ← required? members "typeRef" Json.string?
  let keyRaw ← required? members "keyRaw" Json.string?
  let nullable ← required? members "nullable" bool?
  let list ← required? members "list" bool?
  let marshal ← optional? members "marshal" Json.string?
  let hidden ← member? members "hidden" false bool?
  let listName ← optional? members "listName" Json.string?
  let paginated ← member? members "paginated" false bool?
  let isAbstract ← member? members "abstract" false bool?
  return ⟨field, type, typeRef, keyRaw, nullable, list, marshal, hidden, listName, paginated,
    isAbstract⟩

mutual
def selection? : Json → Option SelectionShape
  | .object members => do
      let fields ← match _found : Json.member? "fields" members with
        | some (.object entries) => fieldEntries? entries
        | _ => none
      let conditions ← match _found : Json.member? "conditions" members with
        | some (.object entries) => conditionEntries? entries
        | some _ => none
        | none => some []
      let fragments ← member? members "fragments" [] fragments?
      return .mk fields conditions fragments
  | _ => none
termination_by value => sizeOf value
decreasing_by
  · have smaller := sizeOf_member? _found
    simp at smaller ⊢
    omega
  · have smaller := sizeOf_member? _found
    simp at smaller ⊢
    omega

def fieldEntry? (name : String) : Json → Option FieldShape
  | .object members => do
      let info ← fieldInfo? members
      match _found : Json.member? "selection" members with
      | some value => return .composite name info (← selection? value)
      | none => return .leaf name info
  | _ => none
termination_by value => sizeOf value
decreasing_by
  have smaller := sizeOf_member? _found
  simp
  omega

def fieldEntries? : List (String × Json) → Option (List FieldShape)
  | [] => some []
  | (name, value) :: rest => do
      let field ← fieldEntry? name value
      let fields ← fieldEntries? rest
      return field :: fields
termination_by entries => sizeOf entries

def conditionEntries? : List (String × Json) → Option (List (String × SelectionShape))
  | [] => some []
  | (type, value) :: rest => do
      let shape ← selection? value
      let shapes ← conditionEntries? rest
      return (type, shape) :: shapes
termination_by entries => sizeOf entries
end

/-! ## Inputs, pagination and keys -/

def entries? {α : Type} (read : Json → Option α) (value : Json) : Option (List (String × α)) := do
  (← members? value).mapM fun member => (read member.2).map fun found => (member.1, found)

def nameMap? {α : Type} (read : Json → Option α) (value : Json) : Option (NameMap α) :=
  (entries? read value).map NameMap.ofList

def input? (value : Json) : Option InputShape := do
  let members ← members? value
  let fields ← required? members "fields" (entries? Json.string?)
  let types ← member? members "types" NameMap.empty (nameMap? (entries? Json.string?))
  let defaults ← member? members "defaults" [] members?
  let marshal ← member? members "marshal" NameMap.empty (nameMap? Json.string?)
  return ⟨fields, types, defaults, marshal⟩

def refetch? (value : Json) : Option Pagination.Refetch := do
  let members ← members? value
  let queryField ← required? members "queryField" Json.string?
  let targetType ← required? members "targetType" Json.string?
  let keys ← required? members "keys" texts?
  return ⟨queryField, targetType, keys⟩

def pagination? (value : Json) : Option PaginationInfo := do
  let members ← members? value
  let mode ← required? members "mode" fun word => word.string?.bind PaginationMode.ofText?
  let path ← optional? members "path" texts?
  let pageSize ← optional? members "pageSize" Json.signed?
  let refetch ← optional? members "refetch" refetch?
  return ⟨mode, path, pageSize, refetch⟩

def artifact? (value : Json) : Option Artifact := do
  let members ← members? value
  let name ← required? members "name" Json.string?
  let kind ← required? members "kind" fun word => word.string?.bind DocumentKind.ofText?
  let hash ← required? members "hash" Json.string?
  let raw ← required? members "raw" Json.string?
  let rootType ← required? members "rootType" Json.string?
  let selection ← required? members "selection" selection?
  let input ← optional? members "input" input?
  let pagination ← member? members "pagination" .none pagination?
  let keys ← member? members "keys" NameMap.empty (nameMap? texts?)
  let policy ← optional? members "policy" fun word => word.string?.bind CachePolicy.ofText?
  let allowPartial ← optional? members "partial" bool?
  return ⟨name, kind, hash, raw, rootType, selection, input, pagination, keys, policy, allowPartial⟩

end ArtifactReader

namespace Artifact

def read? (text : String) : Option Artifact := (Json.read? text).bind ArtifactReader.artifact?

/-- Whether the artifact is the same after it has been written and read. -/
def survives (artifact : Artifact) : Bool :=
  (read? artifact.toJson.compact).any artifact.same

end Artifact

end GraphqlStore
