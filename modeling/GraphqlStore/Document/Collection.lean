import GraphqlStore.Diagnostic
import GraphqlStore.Document.Collected
import GraphqlStore.Document.Parser
import GraphqlStore.Names.NameMap

/-!
Collecting documents from sources. Each source gives one document or one
diagnostic, in the order of the sources; a source that cannot be read to its end
for want of a string's value ends the collection. A second document of one name
is fatal: no pass can run.
-/

set_option autoImplicit false

namespace GraphqlStore

/-- The documents of a list of sources, and what is wrong with the other sources. -/
structure Collection where
  documents : List Document
  errors : List Diagnostic
  /-- Whether two documents have one name. -/
  fatal : Bool

/-- What a source gives, under the label of the source. -/
structure Reading where
  label : String
  result : Except Diagnostic Document

namespace Collection

def refused (label message : String) : Diagnostic := ⟨.collection, some label, message, none, none⟩

/-- Reads the document of a source at the given place of the list of sources. -/
def read (source : DocumentSource) (index : Nat) : Except Interruption Reading :=
  let label := source.label index
  match ExecutableDocument.parse source.text with
  | .error (.interrupted cause) => .error cause
  | .error (.unexpected position) =>
      let message := "parse " ++ label ++ ": query parse error: " ++ position.refusal
      .ok ⟨label, .error (refused label message)⟩
  | .ok parsed =>
      match ExecutableDocument.classify parsed with
      | .error reason => .ok ⟨label, .error (refused label reason.message)⟩
      | .ok (kind, name) => .ok ⟨label, .ok (.ofSource name kind source parsed)⟩

def readFrom (index : Nat) : List DocumentSource → Except Interruption (List Reading)
  | [] => .ok []
  | source :: rest => do
      let reading ← read source index
      let others ← readFrom (index + 1) rest
      return reading :: others

def duplicate (name first label : String) : Diagnostic :=
  ⟨.collection, some name,
    "document name \"" ++ name ++ "\" is declared by both " ++ first ++ " and " ++ label, none,
    some "rename one of the documents; names must be unique across the project"⟩

/-- Collects what the sources give. Labels of documents that have been seen are kept by name. -/
def gather (seen : NameMap String) : List Reading → Collection
  | [] => ⟨[], [], false⟩
  | ⟨_, .error found⟩ :: rest =>
      let others := gather seen rest
      { others with errors := found :: others.errors }
  | ⟨label, .ok document⟩ :: rest =>
      match seen.find? document.name with
      | some first =>
          let others := gather seen rest
          { others with
            errors := duplicate document.name first label :: others.errors
            fatal := true }
      | none =>
          let others := gather (seen.insert document.name label) rest
          { others with documents := document :: others.documents }

def collect (sources : List DocumentSource) : Except Interruption Collection := do
  return gather NameMap.empty (← readFrom 0 sources)

/-- The documents, if nothing was wrong. -/
def toExcept (collection : Collection) : Except (List Diagnostic) (List Document) :=
  if collection.errors.isEmpty then .ok collection.documents else .error collection.errors

end Collection

end GraphqlStore
