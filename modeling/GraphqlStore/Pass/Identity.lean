import GraphqlStore.Document.Completion
import GraphqlStore.Document.Visit

/-!
Identity: the selections made on a type with keys select its keys, and those
made on an interface or union select the name of the type at hand.
-/

set_option autoImplicit false

namespace GraphqlStore

namespace IdentityCompletion

/-- What is wrong with a key. -/
inductive Issue where
  | undeclared (type key : String)
  | taken (type key : String) (other : Field)

namespace Issue

def fault : Issue → Fault
  | .undeclared type key =>
      ⟨"identity key \"" ++ key ++ "\" is not a field of \"" ++ type ++ "\"", none,
        some ("set types." ++ type ++ ".keys to fields the type declares")⟩
  | .taken type key other =>
      ⟨"response name \"" ++ key ++ "\" is reserved for the identity key of \"" ++ type ++
          "\" but selects \"" ++ other.name ++ "\"",
        some other.position, some ("alias \"" ++ other.name ++ "\" to another name")⟩

end Issue

/-- Whether a key is a declared field without selections. -/
def isKeyField (schema : Schema) (type key : String) : Bool :=
  match schema.field? type key with
  | some (.declared declared) => (schema.kind? declared.type.base).any TypeKind.isLeaf
  | _ => false

def reserve (type name : String) : Completer :=
  ensurePlain (fun key other => (Issue.taken type key other).fault) name

/-- Selects a key, or reports that the type does not declare it. -/
def reserveKey (schema : Schema) (type key : String) : Completer :=
  fun opening items =>
    if isKeyField schema type key then reserve type key opening items
    else ⟨items, [(Issue.undeclared type key).fault], false⟩

/-- Whether selections made on the type have to tell which value they are of: the query root has
one value only. -/
def needsIdentity (schema : Schema) (type : String) : Bool :=
  schema.isComposite type && type != schema.query

def reserveAll (config : Config) (type : String) : Completer :=
  fun opening items =>
    if needsIdentity config.schema type then
      let named :=
        if config.schema.isAbstract type then reserve type Schema.typenameField opening items
        else .keep items
      (config.identityKeys type).foldl
        (fun done key => done.andThen (reserveKey config.schema type key opening)) named
    else .keep items

mutual
def completeSelection (config : Config) (parent : String) :
    Selection → Selection × List Fault × Bool
  | .field head items =>
      match config.schema.field? parent head.name with
      | some (.declared declared) =>
          if items.isEmpty then (.field head items, [], false)
          else
            let target := declared.type.base
            let done := (completeItems config target items).andThen
              (reserveAll config target head.opening)
            (.field head done.items, done.faults, done.changed)
      | _ => (.field head items, [], false)
  | .spread head => (.spread head, [], false)
  | .inline head items =>
      let target := head.typeWithin parent
      let below := completeItems config target items
      let done :=
        if target = parent then below else below.andThen (reserveAll config target head.opening)
      (.inline head done.items, done.faults, done.changed)

def completeItems (config : Config) (parent : String) : List Selection → Completed
  | [] => .keep []
  | selection :: rest =>
      let (done, faults, changed) := completeSelection config parent selection
      .cons done faults changed (completeItems config parent rest)
end

/-- Completes selections made on a type, and what is below them. -/
def complete (config : Config) (root : String) (selections : SelectionSet) : Completed :=
  (completeItems config root selections.items).andThen (reserveAll config root selections.opening)

/-- A document with its keys selected, and what is wrong with them. -/
def step (config : Config) (document : Document) : Document × List Diagnostic :=
  match document.rootType? config.schema with
  | none => (document, [])
  | some root =>
      let done := ExecutableDocument.complete (complete config root) document.working
      (document.revise done.definitions done.changed, document.reports done.faults)

end IdentityCompletion

def Pass.identityKeys : Pass :=
  .revising "identity_keys" fun context => IdentityCompletion.step context.config

end GraphqlStore
