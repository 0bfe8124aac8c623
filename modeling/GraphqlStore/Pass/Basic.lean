import GraphqlStore.Config.Basic
import GraphqlStore.Diagnostic
import GraphqlStore.Fragment.Registry

/-!
Passes over all documents of a run. A pass may revise working copies, report
diagnostics and cancel the run.
-/

set_option autoImplicit false

namespace GraphqlStore

/-- What a pass can consult. -/
structure PassContext where
  config : Config
  /-- The fragments as they stood before the pass. -/
  registry : FragmentRegistry

/-- What a pass leaves. -/
structure PassResult where
  documents : List Document
  errors : List Diagnostic
  /-- Whether the pass cancels the run. -/
  cancels : Bool

/-- A pass over all documents. -/
structure Pass where
  name : String
  run : PassContext → List Document → PassResult

namespace Pass

/-- A pass that reports on each document by itself and changes none. -/
def checking (name : String) (check : PassContext → Document → List Diagnostic) : Pass :=
  ⟨name, fun context documents => ⟨documents, documents.flatMap (check context), false⟩⟩

def revising (name : String) (step : PassContext → Document → Document × List Diagnostic) : Pass :=
  ⟨name, fun context documents =>
    let results := documents.map (step context)
    ⟨results.map Prod.fst, results.flatMap Prod.snd, false⟩⟩

end Pass

/-- What is wrong with a document, and where. -/
structure Fault where
  message : String
  location : Option Position
  hint : Option String
deriving DecidableEq, Repr

def Fault.toDiagnostic (document : String) (fault : Fault) : Diagnostic :=
  ⟨.validation, some document, fault.message, fault.location, fault.hint⟩

def Document.reports (document : Document) (faults : List Fault) : List Diagnostic :=
  faults.map (Fault.toDiagnostic document.name)

end GraphqlStore
