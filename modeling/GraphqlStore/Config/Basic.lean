import GraphqlStore.Scalar.Codec
import GraphqlStore.Schema.Basic

/-!
The settings of a run, and what they say about the types of the schema: which
fields identify a value of a type, and how values of a scalar are converted.
-/

set_option autoImplicit false

namespace GraphqlStore

/-- Where a query store takes its first value from. -/
inductive CachePolicy where
  | cacheOnly
  | networkOnly
  | cacheOrNetwork
  | cacheAndNetwork
deriving DecidableEq, Repr

namespace CachePolicy

def text : CachePolicy → String
  | .cacheOnly => "CacheOnly"
  | .networkOnly => "NetworkOnly"
  | .cacheOrNetwork => "CacheOrNetwork"
  | .cacheAndNetwork => "CacheAndNetwork"

def all : List CachePolicy := [.cacheOnly, .networkOnly, .cacheOrNetwork, .cacheAndNetwork]

def ofText? (word : String) : Option CachePolicy := all.find? fun policy => policy.text == word

end CachePolicy

/-- Whether the fields of a fragment are hidden from the document that spreads it. -/
inductive FragmentMasking where
  | enable
  | disable
deriving DecidableEq, Repr

namespace FragmentMasking

def text : FragmentMasking → String
  | .enable => "enable"
  | .disable => "disable"

def all : List FragmentMasking := [.enable, .disable]

def ofText? (word : String) : Option FragmentMasking := all.find? fun masking => masking.text == word

end FragmentMasking

/-- What is set for a type. -/
structure TypeConfig where
  /-- The fields that identify a value. -/
  keys : List String
  /-- The field of the query root that fetches a value again. -/
  queryField : Option String
deriving DecidableEq, Repr

/-- How output files are named and what they import. -/
structure StoreNaming where
  bindingStart : String
  runtimePath : String
  artifactDirectory : String
  storeDirectory : String
deriving DecidableEq, Repr

namespace StoreNaming

def default : StoreNaming := ⟨"", "$storegen/runtime/stores", "artifacts", "stores"⟩

def bindingName (naming : StoreNaming) (document : String) : String := naming.bindingStart ++ document

end StoreNaming

/-- The settings of a run. -/
structure Config where
  schema : Schema
  scalars : NameMap ScalarSpec
  types : NameMap TypeConfig
  cachePolicy : CachePolicy
  allowPartial : Bool
  fragmentMasking : FragmentMasking
  stores : StoreNaming

namespace Config

def ofSchema (schema : Schema) : Config :=
  ⟨schema, NameMap.empty, NameMap.empty, .cacheOrNetwork, false, .enable, StoreNaming.default⟩

/-! ## Identity -/

/-- The field that identifies a value if nothing is set. -/
def defaultKey : String := "id"

def hasDefaultKey (schema : Schema) (type : String) : Bool :=
  (schema.type? type).any fun found => (found.field? defaultKey).isSome

/-- Whether the type or one of its interfaces declares the usual key. -/
def declaresDefaultKey (schema : Schema) (type : String) : Bool :=
  (schema.type? type).any fun found =>
    (found.field? defaultKey).isSome || found.body.interfaces.any (hasDefaultKey schema)

/-- The fields that identify a value of a composite type; nothing if its values are embedded in
those that hold them. -/
def identityKeys? (config : Config) (type : String) : Option (List String) :=
  if config.schema.isComposite type then
    match config.types.find? type with
    | some rule => some rule.keys
    | none => if declaresDefaultKey config.schema type then some [defaultKey] else none
  else none

/-- The fields that identify a value; none for an embedded type. -/
def identityKeys (config : Config) (type : String) : List String := (config.identityKeys? type).getD []

/-- The field of the query root that is set for fetching a value again. -/
def queryField? (config : Config) (type : String) : Option String :=
  (config.types.find? type).bind TypeConfig.queryField

/-! ## Scalars -/

/-- What is known about a scalar: registered, or built in. -/
def scalarSpec? (config : Config) (scalar : String) : Option ScalarSpec :=
  (config.scalars.find? scalar).or (ScalarSpec.builtin? scalar)

def missingScalar (scalar : String) : String :=
  "scalar \"" ++ scalar ++ "\" has no registered conversion"

/-- Whether the type is a scalar whose values have to be converted. -/
def needsMarshal (config : Config) (type : String) : Bool :=
  config.schema.kind? type == some .scalar && (config.scalarSpec? type).any ScalarSpec.converts

end Config

end GraphqlStore
