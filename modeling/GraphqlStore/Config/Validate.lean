import GraphqlStore.Config.Basic
import GraphqlStore.Text.Quoted

/-!
Checking settings against the schema: scalars first, then types, then names of
bindings. The first fault is the answer.
-/

set_option autoImplicit false

namespace GraphqlStore

/-- Why settings are refused. -/
inductive ConfigError where
  | unknownScalar (name : String)
  | builtinScalar (name : String)
  | unknownType (name : String)
  | unknownKeyField (type field : String)
  | emptyKeys (type : String)
  | unknownQueryField (type field : String)
  | invalidPrefix (text : String)
deriving DecidableEq, Repr

def ConfigError.message : ConfigError → String
  | .unknownScalar name => "scalars." ++ name ++ ": schema does not declare a scalar with this name"
  | .builtinScalar name => "scalars." ++ name ++ ": built-in scalars cannot be overridden"
  | .unknownType name => "types." ++ name ++ ": schema does not declare this type"
  | .unknownKeyField type field =>
      "types." ++ type ++ ".keys: \"" ++ field ++ "\" is not a field of " ++ type
  | .emptyKeys type => "types." ++ type ++ ".keys must not be empty"
  | .unknownQueryField type field =>
      "types." ++ type ++ ".resolve.queryField: \"" ++ field ++ "\" is not a field of the query root"
  | .invalidPrefix text =>
      "stores.prefix " ++ Text.quoted text ++ " cannot start a valid binding name"

namespace Config

/-- A registered scalar is declared by the schema and not built in. -/
def checkScalar (schema : Schema) (name : String) : Except ConfigError Unit :=
  if Schema.builtinScalars.contains name then .error (.builtinScalar name)
  else if schema.kind? name = some .scalar then .ok ()
  else .error (.unknownScalar name)

def checkKeys (name : String) (type : TypeDef) : List String → Except ConfigError Unit
  | [] => .ok ()
  | key :: rest =>
      if (type.field? key).isSome then checkKeys name type rest
      else .error (.unknownKeyField name key)

/-- A type is composite, has keys, and is fetched by a field of the query root. -/
def checkType (schema : Schema) (name : String) (rule : TypeConfig) : Except ConfigError Unit := do
  match schema.type? name with
  | none => throw (.unknownType name)
  | some type =>
      if !type.kind.isComposite then throw (.unknownType name)
      if rule.keys.isEmpty then throw (.emptyKeys name)
      checkKeys name type rule.keys
      match rule.queryField with
      | none => return ()
      | some field =>
          if (schema.field? schema.query field).isSome then return ()
          else throw (.unknownQueryField name field)

def startsBinding (c : Char) : Bool := c.isAlpha || c = '_' || c = '$'

/-- Whether a text can stand before the name of a document: it is empty, or starts a binding. -/
def isBindingStart (text : String) : Bool :=
  match text.toList with
  | [] => true
  | first :: rest => startsBinding first && rest.all fun c => startsBinding c || c.isDigit

def validate (config : Config) : Except ConfigError Unit := do
  config.scalars.entries.forM fun entry => checkScalar config.schema entry.1
  config.types.entries.forM fun entry => checkType config.schema entry.1 entry.2
  if isBindingStart config.stores.bindingStart then return ()
  else throw (.invalidPrefix config.stores.bindingStart)

/-- The settings, if they pass. -/
def build (config : Config) : Except ConfigError Config := do
  config.validate
  return config

end Config

end GraphqlStore
