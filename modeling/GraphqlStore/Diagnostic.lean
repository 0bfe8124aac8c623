import GraphqlStore.Json.Value
import GraphqlStore.Source.Position

/-!
Diagnostics: what a run reports. A run fails as a whole if it has any.
-/

set_option autoImplicit false

namespace GraphqlStore

/-- The part of a run that a diagnostic comes from. -/
inductive Stage where
  | collection
  | validation
  | generation
  | emission
  | cancelled
deriving DecidableEq, Repr

namespace Stage

def text : Stage → String
  | .collection => "collection"
  | .validation => "validation"
  | .generation => "generation"
  | .emission => "emission"
  | .cancelled => "cancelled"

def all : List Stage := [.collection, .validation, .generation, .emission, .cancelled]

def ofText? (word : String) : Option Stage := all.find? fun stage => stage.text == word

def rank : Stage → Nat
  | .collection => 0
  | .validation => 1
  | .generation => 2
  | .emission => 3
  | .cancelled => 4

end Stage

/-- A single report, attributed to a document if one is known. -/
structure Diagnostic where
  stage : Stage
  document : Option String
  message : String
  location : Option Position
  hint : Option String
deriving DecidableEq, Repr

namespace Diagnostic

def ofStage (stage : Stage) (message : String) : Diagnostic := ⟨stage, none, message, none, none⟩

def cancelled : Diagnostic := ofStage .cancelled "run cancelled before completion"

def origin (diagnostic : Diagnostic) : String :=
  let name := diagnostic.document.getD "<run>"
  match diagnostic.location with
  | some location => name ++ " (" ++ location.text ++ ")"
  | none => name

def text (diagnostic : Diagnostic) : String :=
  "[" ++ diagnostic.stage.text ++ "] " ++ diagnostic.origin ++ ": " ++ diagnostic.message

/-- A diagnostic with its hint, indented. -/
def entry (diagnostic : Diagnostic) : String :=
  let hint := match diagnostic.hint with
    | some hint => "    hint: " ++ hint ++ "\n"
    | none => ""
  "  " ++ diagnostic.text ++ "\n" ++ hint

def summary (diagnostics : List Diagnostic) : String :=
  toString diagnostics.length ++ " error(s):\n" ++ String.join (diagnostics.map entry)

def about (name : String) (diagnostics : List Diagnostic) : List Diagnostic :=
  diagnostics.filter fun diagnostic => diagnostic.document == some name

def toJson (diagnostic : Diagnostic) : Json :=
  .object <|
    [("kind", .string diagnostic.stage.text)] ++
    Json.optional "document" (diagnostic.document.map .string) ++
    [("message", .string diagnostic.message)] ++
    Json.optional "location" (diagnostic.location.map fun location =>
      .object [("line", .number (.integer location.line)),
        ("column", .number (.integer location.column))]) ++
    Json.optional "hint" (diagnostic.hint.map .string)

end Diagnostic

end GraphqlStore
