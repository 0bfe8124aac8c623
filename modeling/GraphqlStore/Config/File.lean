import GraphqlStore.Config.Validate
import GraphqlStore.Json.Record

/-!
The text of a settings file.
-/

set_option autoImplicit false

namespace GraphqlStore

/-- What a settings file says. -/
structure ConfigFile where
  /-- The schema text itself; it wins over a path. -/
  schema : Option String
  schemaPath : Option String
  scalars : NameMap ScalarSpec
  types : NameMap TypeConfig
  cachePolicy : CachePolicy
  allowPartial : Bool
  fragmentMasking : FragmentMasking
  stores : StoreNaming

namespace ConfigFile

open Json (Term)

def choice? {α : Type} (ofText? : String → Option α) (term : Term) : Option α :=
  term.word?.bind ofText?

/-- An object from names to values; of two with one name the later stands. -/
def nameMap? {α : Type} (read : Term → Option α) (term : Term) : Option (NameMap α) := do
  let members ← term.members?
  let entries ← members.mapM fun member => (read member.2).map fun value => (member.1, value)
  return NameMap.ofList entries

def scalar? (term : Term) : Option ScalarSpec := do
  let fields ← term.fields? ["type", "codec"]
  let runtimeType ← Term.required? fields "type" Term.text?
  let codec ← Term.field? fields "codec" .passthrough (choice? CodecName.ofText?)
  return .ofCodec runtimeType codec

def resolve? (term : Term) : Option String := do
  let fields ← term.fields? ["queryField"]
  Term.required? fields "queryField" Term.text?

def type? (term : Term) : Option TypeConfig := do
  let fields ← term.fields? ["keys", "resolve"]
  let keys ← Term.field? fields "keys" [] Term.texts?
  let queryField ← Term.field? fields "resolve" none (Term.optional? resolve?)
  return ⟨keys, queryField⟩

def stores? (term : Term) : Option StoreNaming := do
  let fields ← term.fields? ["prefix", "runtimePath", "artifactDirectory", "storeDirectory"]
  let usual := StoreNaming.default
  let bindingStart ← Term.field? fields "prefix" usual.bindingStart Term.text?
  let runtimePath ← Term.field? fields "runtimePath" usual.runtimePath Term.text?
  let artifactDirectory ← Term.field? fields "artifactDirectory" usual.artifactDirectory Term.text?
  let storeDirectory ← Term.field? fields "storeDirectory" usual.storeDirectory Term.text?
  return ⟨bindingStart, runtimePath, artifactDirectory, storeDirectory⟩

/-- The fields of a settings file in their order. -/
def fieldNames : List String :=
  ["schema", "schemaPath", "scalars", "types", "defaultCachePolicy", "defaultPartial",
    "defaultFragmentMasking", "stores"]

def ofTerm? (term : Term) : Option ConfigFile := do
  let fields ← term.fields? fieldNames
  let schema ← Term.field? fields "schema" none (Term.optional? Term.text?)
  let schemaPath ← Term.field? fields "schemaPath" none (Term.optional? Term.text?)
  let scalars ← Term.field? fields "scalars" NameMap.empty (nameMap? scalar?)
  let types ← Term.field? fields "types" NameMap.empty (nameMap? type?)
  let cachePolicy ← Term.field? fields "defaultCachePolicy" .cacheOrNetwork
    (choice? CachePolicy.ofText?)
  let allowPartial ← Term.field? fields "defaultPartial" false Term.bool?
  let fragmentMasking ← Term.field? fields "defaultFragmentMasking" .enable
    (choice? FragmentMasking.ofText?)
  let stores ← Term.field? fields "stores" StoreNaming.default stores?
  return ⟨schema, schemaPath, scalars, types, cachePolicy, allowPartial, fragmentMasking, stores⟩

def read? (text : String) : Option ConfigFile := (Term.ofText? text).bind ofTerm?

/-- Reads the bytes of a settings file. Bytes that belong to no character may stand in strings that
are skipped. -/
def ofBytes? (bytes : ByteArray) : Option ConfigFile := (Term.ofBytes? bytes).bind ofTerm?

def resolve (file : ConfigFile) (schema : Schema) : Except ConfigError Config :=
  Config.build ⟨schema, file.scalars, file.types, file.cachePolicy, file.allowPartial,
    file.fragmentMasking, file.stores⟩

end ConfigFile

end GraphqlStore
