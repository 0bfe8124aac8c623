import GraphqlStore.Pass.Basic

/-!
Completing selections: a field that has to be selected is appended unless it
is there. A field is not added if another one answers under its name.
-/

set_option autoImplicit false

namespace GraphqlStore

namespace Field

def answers (field : Field) (name : String) : Bool :=
  field.name == name && field.responseName == name

/-- Whether the field answers under the name of another one. -/
def takes (field : Field) (name : String) : Bool :=
  field.name != name && field.responseName == name

end Field

mutual
/-- The first field, not below another field, that answers under the name of another one. -/
def Selection.taking? (name : String) : Selection → Option Field
  | .field head _ => if head.takes name then some head else none
  | .spread _ => none
  | .inline _ items => taking? name items

/-- The first field of selections that answers under the name of another one. Inline fragments
share the names of the selections around them. -/
def taking? (name : String) : List Selection → Option Field
  | [] => none
  | selection :: rest => (selection.taking? name).or (taking? name rest)
end

/-- Selections after completion. -/
structure Completed where
  items : List Selection
  faults : List Fault
  changed : Bool

namespace Completed

def keep (items : List Selection) : Completed := ⟨items, [], false⟩

def andThen (first : Completed) (next : List Selection → Completed) : Completed :=
  let second := next first.items
  ⟨second.items, first.faults ++ second.faults, first.changed || second.changed⟩

/-- The completion of a list from those of its head and tail. -/
def cons (selection : Selection) (faults : List Fault) (changed : Bool) (rest : Completed) :
    Completed :=
  ⟨selection :: rest.items, faults ++ rest.faults, changed || rest.changed⟩

end Completed

abbrev Completer := Position → List Selection → Completed

/-- Completes the selections below the first field that is selected under a name, if there is
one. -/
def completeFirst? (name : String) (below : Completer) : List Selection → Option Completed
  | [] => none
  | .field head items :: rest =>
      if head.answers name then
        let inner := below head.opening items
        some ⟨.field head inner.items :: rest, inner.faults, inner.changed⟩
      else (completeFirst? name below rest).map (.cons (.field head items) [] false)
  | selection :: rest => (completeFirst? name below rest).map (.cons selection [] false)

/-- Selects a field and completes the selections below it. A name that another field answers to is
reported and left alone. -/
def ensureField (report : String → Field → Fault) (name : String) (below : Completer) : Completer :=
  fun opening items =>
    match taking? name items with
    | some other => ⟨items, [report name other], false⟩
    | none =>
        match completeFirst? name below items with
        | some completed => completed
        | none =>
            let inner := below opening []
            ⟨items ++ [.field (Field.plain name opening) inner.items], inner.faults, true⟩

def ensurePlain (report : String → Field → Fault) (name : String) : Completer :=
  ensureField report name fun _ items => .keep items

def ensureAll (report : String → Field → Fault) (names : List String) : Completer :=
  fun opening items =>
    names.foldl (fun done name => done.andThen (ensurePlain report name opening)) (.keep items)

/-- The completion of all definitions of a document. -/
structure CompletedDocument where
  definitions : ExecutableDocument
  faults : List Fault
  changed : Bool

def ExecutableDocument.complete (complete : SelectionSet → Completed) :
    ExecutableDocument → CompletedDocument
  | [] => ⟨[], [], false⟩
  | definition :: rest =>
      let done := complete definition.selections
      let others := ExecutableDocument.complete complete rest
      ⟨definition.withItems done.items :: others.definitions, done.faults ++ others.faults,
        done.changed || others.changed⟩

end GraphqlStore
