import GraphqlStore.Schema.Basic

/-!
Building the type system from the definitions of a schema text. Extensions are
applied after all definitions, so they may stand before the type they extend.
-/

set_option autoImplicit false

namespace GraphqlStore

/-- Why a schema text is refused. -/
inductive SchemaError where
  | unreadable (position : Position)
  | interrupted (cause : Interruption)
  | duplicateType (name : String)
  | missingQueryRoot
  | invalidRoot (name : String)
  | unknownExtension (name : String)
  | extensionKind (name : String) (kind : TypeKind)
  | duplicateMember (type member : String)
deriving DecidableEq, Repr

namespace SchemaError

def message : SchemaError → String
  | .unreadable position => "parse schema: schema parse error: " ++ position.refusal
  | .interrupted cause => "parse schema: interrupted at " ++ cause.position.text
  | .duplicateType name => "type \"" ++ name ++ "\" is declared more than once"
  | .missingQueryRoot => "schema declares no query root type"
  | .invalidRoot name => "root operation type \"" ++ name ++ "\" is not an object type"
  | .unknownExtension name => "cannot extend undeclared type \"" ++ name ++ "\""
  | .extensionKind name kind =>
      "extension of \"" ++ name ++ "\" does not match its " ++ kind.text ++ " definition"
  | .duplicateMember type member => "extension redeclares \"" ++ type ++ "." ++ member ++ "\""

end SchemaError

/-! ## Members -/

/-- The arguments or input fields of one list: of two with one name the later stands. -/
def InputValue.distinct (inputs : List InputValue) : List InputValue :=
  Ordered.ofList InputValue.name inputs

/-- The fields of one list: of two with one name the later stands. -/
def FieldDef.distinct (fields : List FieldDef) : List FieldDef :=
  Ordered.ofList FieldDef.name
    (fields.map fun field => { field with arguments := InputValue.distinct field.arguments })

namespace TypeBody

def distinct : TypeBody → TypeBody
  | .object fields interfaces => .object (FieldDef.distinct fields) interfaces
  | .interface fields => .interface (FieldDef.distinct fields)
  | .input fields => .input (InputValue.distinct fields)
  | body => body

/-- Adds members of new names at the end; a name that is there already is refused. -/
def addMembers {α : Type} (type : String) (key : α → String) (members : List α) :
    List α → Except SchemaError (List α)
  | [] => .ok members
  | added :: rest =>
      if Ordered.contains key (key added) members then .error (.duplicateMember type (key added))
      else addMembers type key (members ++ [added]) rest

def addInterfaces (interfaces : List String) : List String → List String
  | [] => interfaces
  | added :: rest =>
      if interfaces.contains added then addInterfaces interfaces rest
      else addInterfaces (interfaces ++ [added]) rest

/-- The body with what an extension adds. Both are of one kind. -/
def extend (type : String) (body extension : TypeBody) : Except SchemaError TypeBody :=
  match body, extension with
  | .scalar, .scalar => .ok .scalar
  | .object fields interfaces, .object newFields newInterfaces => do
      let all ← addMembers type FieldDef.name fields newFields
      return .object all (addInterfaces interfaces newInterfaces)
  | .interface fields, .interface newFields => do
      let all ← addMembers type FieldDef.name fields newFields
      return .interface all
  | .union members, .union newMembers => .ok (.union (members ++ newMembers))
  | .enum values, .enum newValues => do
      let all ← addMembers type id values newValues
      return .enum all
  | .input fields, .input newFields => do
      let all ← addMembers type InputValue.name fields newFields
      return .input all
  | body, _ => .error (.extensionKind type body.kind)

end TypeBody

/-! ## Types -/

namespace Schema

def builtinTypes : NameMap TypeDef :=
  NameMap.ofList (builtinScalars.map fun name => (name, ⟨.scalar, NameSet.empty⟩))

/-- Adds the type definitions in order. Only a built-in scalar can be declared again. -/
def declareTypes (types : NameMap TypeDef) :
    List SchemaDefinition → Except SchemaError (NameMap TypeDef)
  | [] => .ok types
  | .type name body :: rest =>
      if types.contains name && !builtinScalars.contains name then .error (.duplicateType name)
      else declareTypes (types.insert name ⟨body.distinct, NameSet.empty⟩) rest
  | _ :: rest => declareTypes types rest

def extendTypes (types : NameMap TypeDef) :
    List SchemaDefinition → Except SchemaError (NameMap TypeDef)
  | [] => .ok types
  | .extension name body :: rest =>
      match types.find? name with
      | none => .error (.unknownExtension name)
      | some type => do
          let extended ← type.body.extend name body.distinct
          extendTypes (types.insert name { type with body := extended }) rest
  | _ :: rest => extendTypes types rest

/-- Tells a type that an object implements it, if there is such a type. -/
def addImplementor (types : NameMap TypeDef) (object interface : String) : NameMap TypeDef :=
  types.modify interface fun type => { type with implementors := type.implementors.insert object }

def linkInterfaces (types : NameMap TypeDef) : NameMap TypeDef :=
  types.entries.foldl
    (fun linked entry => entry.2.body.interfaces.foldl (addImplementor · entry.1) linked) types

/-! ## Roots -/

def declaredRoots (definitions : List SchemaDefinition) : SchemaRoots :=
  definitions.foldl
    (fun roots definition => match definition with
      | .roots named => named
      | _ => roots)
    ⟨none, none, none⟩

def declaredDirectives (definitions : List SchemaDefinition) : NameSet :=
  NameSet.ofList (definitions.filterMap fun definition => match definition with
    | .directive name => some name
    | _ => none)

/-- A root that is named, or else the type of the usual name. -/
def rootOr (types : NameMap TypeDef) (named : Option String) (usual : String) : Option String :=
  named.or (if types.contains usual then some usual else none)

def checkRoot (types : NameMap TypeDef) (query name : String) : Except SchemaError Unit :=
  match types.find? name with
  | some type => if type.kind = .object then .ok () else .error (.invalidRoot name)
  | none => .error (if name = query then .missingQueryRoot else .invalidRoot name)

def checkRoot? (types : NameMap TypeDef) (query : String) : Option String → Except SchemaError Unit
  | some name => checkRoot types query name
  | none => .ok ()

def ofDefinitions (definitions : List SchemaDefinition) : Except SchemaError Schema := do
  let declared ← declareTypes builtinTypes definitions
  let extended ← extendTypes declared definitions
  let types := linkInterfaces extended
  let roots := declaredRoots definitions
  match rootOr types roots.query "Query" with
  | none => throw .missingQueryRoot
  | some query =>
      let mutation := rootOr types roots.mutation "Mutation"
      let subscription := rootOr types roots.subscription "Subscription"
      checkRoot types query query
      checkRoot? types query mutation
      checkRoot? types query subscription
      return ⟨types, query, mutation, subscription, declaredDirectives definitions⟩

def parse (text : String) : Except SchemaError Schema :=
  match SchemaDefinition.parse text with
  | .ok definitions => ofDefinitions definitions
  | .error (.unexpected position) => .error (.unreadable position)
  | .error (.interrupted cause) => .error (.interrupted cause)

end Schema

end GraphqlStore
