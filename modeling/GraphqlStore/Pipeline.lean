import GraphqlStore.Pass.Conformance
import GraphqlStore.Pass.Directives
import GraphqlStore.Pass.Identity
import GraphqlStore.Pass.Inlining
import GraphqlStore.Pass.Pagination
import GraphqlStore.Pass.ScalarUsage

/-!
Running passes in order. Each sees the fragments as the one before left them.
Diagnostics do not stop a run: it goes on and fails at the end. A run that is
cancelled stops before the next pass and reports nothing else.
-/

set_option autoImplicit false

namespace GraphqlStore

namespace Pass

def builtin : List Pass :=
  [schemaConformance, directiveValidation, scalarUsage, paginationArguments, fragmentInlining,
    identityKeys]

/-- The built-in passes, and further ones after them. -/
def standard (plugins : List Pass) : List Pass := builtin ++ plugins

end Pass

namespace Pipeline

/-- How a run stands between two passes. -/
structure Progress where
  documents : List Document
  errors : List Diagnostic
  /-- Whether the run has been cancelled. -/
  cancelled : Bool

/-- Runs one pass on the fragments and documents at hand. -/
def advance (config : Config) (progress : Progress) (pass : Pass) : Progress :=
  let registry := FragmentRegistry.ofDocuments progress.documents
  let result := pass.run ⟨config, registry⟩ progress.documents
  ⟨result.documents, progress.errors ++ result.errors, progress.cancelled || result.cancels⟩

/-- Runs the passes in order; nothing if the run is cancelled when a pass is about to start. -/
def run? (config : Config) (progress : Progress) : List Pass → Option Progress
  | [] => some progress
  | pass :: rest =>
      if progress.cancelled then none else run? config (advance config progress pass) rest

/-- The documents after all passes, and whether the last one cancelled the run; or what the passes
have reported. -/
def run (config : Config) (passes : List Pass) (documents : List Document) (cancelled : Bool) :
    Except (List Diagnostic) (List Document × Bool) :=
  match run? config ⟨documents, [], cancelled⟩ passes with
  | none => .error [Diagnostic.cancelled]
  | some progress =>
      if progress.errors.isEmpty then .ok (progress.documents, progress.cancelled)
      else .error progress.errors

end Pipeline

end GraphqlStore
