import GraphqlStore.Artifact.Generate
import GraphqlStore.Document.Collection
import GraphqlStore.Output.Store
import GraphqlStore.Pipeline

/-!
A whole run: documents are collected, checked and revised by passes, and
turned into output files. A run succeeds as a whole or not at all. It may be
cancelled at any time: by a pass, or from outside while files are made.
-/

set_option autoImplicit false

namespace GraphqlStore

/-- Sources, and what went wrong when they were read. -/
structure SourceBatch where
  sources : List DocumentSource
  errors : List Diagnostic

/-- What a successful run gives. -/
structure CompileOutput where
  documents : List Document
  artifacts : List Artifact
  files : List OutputFile

namespace Compilation

def unlessCancelled {α : Type} (cancelled : Bool) (next : Except (List Diagnostic) α) :
    Except (List Diagnostic) α :=
  if cancelled then .error [Diagnostic.cancelled] else next

/-- Whether one of the diagnostics says that the run was cancelled. -/
def reportsCancelled (errors : List Diagnostic) : Bool :=
  errors.any fun diagnostic => diagnostic.stage == .cancelled

/-- The names of documents that want a store and an artifact. -/
def storeNames (documents : List Document) : List String :=
  (documents.filter fun document => document.store && document.artifact).map Document.name

/-- Whether a run has been cancelled by the time that its artifacts are generated, and by the time
that its files are written. -/
structure Watch where
  generated : Bool
  written : Bool

def Watch.quiet : Watch := ⟨false, false⟩

/-- Turns checked documents into output files, unless the run is cancelled meanwhile. -/
def emitWatched (config : Config) (watch : Watch) (documents : List Document) :
    Except (List Diagnostic) CompileOutput := do
  let artifacts ← Generation.generateAll config documents
  unlessCancelled watch.generated do
    let files ← Store.emit config.stores (storeNames documents) artifacts
    unlessCancelled watch.written (return ⟨documents, artifacts, files⟩)

def emit (config : Config) (documents : List Document) : Except (List Diagnostic) CompileOutput :=
  emitWatched config .quiet documents

/-- Runs passes on collected documents. Earlier diagnostics come first; a cancelled run reports
nothing else. -/
def check (config : Config) (passes : List Pass) (cancelled : Bool) (earlier : List Diagnostic)
    (documents : List Document) : Except (List Diagnostic) (List Document × Bool) :=
  match Pipeline.run config passes documents cancelled with
  | .error found => .error (if reportsCancelled found then found else earlier ++ found)
  | .ok checked => if earlier.isEmpty then .ok checked else .error earlier

/-- A run on collected documents, after what went wrong when their sources were read. -/
def runOn (config : Config) (passes : List Pass) (cancelled : Bool) (watch : Watch)
    (earlier : List Diagnostic) (collection : Collection) :
    Except (List Diagnostic) CompileOutput :=
  let errors := earlier ++ collection.errors
  if collection.fatal then .error errors
  else unlessCancelled cancelled do
    let (documents, cancelled) ← check config passes cancelled errors collection.documents
    unlessCancelled cancelled (emitWatched config watch documents)

/-- A whole run with the given passes, which may be cancelled while its files are made. -/
def runWatched (config : Config) (passes : List Pass) (cancelled : Bool) (watch : Watch)
    (batch : SourceBatch) : Except Interruption (Except (List Diagnostic) CompileOutput) := do
  return runOn config passes cancelled watch batch.errors (← Collection.collect batch.sources)

def run (config : Config) (passes : List Pass) (cancelled : Bool) (batch : SourceBatch) :
    Except Interruption (Except (List Diagnostic) CompileOutput) :=
  runWatched config passes cancelled .quiet batch

end Compilation

/-- What is told about a run. -/
structure RunReport where
  succeeded : Bool
  documents : List String
  files : List String
  errors : List Diagnostic

namespace RunReport

def ofResult : Except (List Diagnostic) CompileOutput → RunReport
  | .ok output =>
      ⟨true, output.documents.map Document.name, output.files.map OutputFile.path, []⟩
  | .error errors => ⟨false, [], [], errors⟩

def toJson (report : RunReport) : Json :=
  .object [("succeeded", .bool report.succeeded),
    ("documents", .array (report.documents.map .string)),
    ("files", .array (report.files.map .string)),
    ("errors", .array (report.errors.map Diagnostic.toJson))]

end RunReport

end GraphqlStore
