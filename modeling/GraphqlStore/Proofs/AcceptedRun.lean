import GraphqlStore.Pipeline
import GraphqlStore.Proofs.Conformance
import GraphqlStore.Proofs.IdentityTyping
import GraphqlStore.Proofs.InliningTyping
import GraphqlStore.Proofs.PaginationTyping

/-!
Runs of the built-in passes that report nothing. Such a run is the three
revisions one after the other, and each pass has found nothing wrong in the
documents it was given.
-/

set_option autoImplicit false

namespace GraphqlStore

/-! ## The passes of a run -/

namespace Pipeline

def paginated (config : Config) (documents : List Document) : List Document :=
  documents.map fun document => (PaginationCompletion.step config document).1

def inlined (config : Config) (documents : List Document) : List Document :=
  let registry := FragmentRegistry.ofDocuments (paginated config documents)
  (paginated config documents).map fun document => (Inlining.step ⟨config, registry⟩ document).1

def completed (config : Config) (documents : List Document) : List Document :=
  (inlined config documents).map fun document => (IdentityCompletion.step config document).1

/-- No built-in pass has anything to report. -/
structure Accepts (config : Config) (documents : List Document) : Prop where
  conforms : ∀ document ∈ documents,
    Conformance.faults config.schema (FragmentRegistry.ofDocuments documents) document = []
  directives : DirectiveCheck.reports config.schema NameMap.empty documents = []
  scalars : ∀ document ∈ documents, ScalarUsage.faults config document = []
  pages : ∀ document ∈ documents, (PaginationCompletion.step config document).2 = []
  keys : ∀ document ∈ inlined config documents, (IdentityCompletion.step config document).2 = []

private theorem advance_checking (config : Config) (progress : Progress) (name : String)
    (check : PassContext → Document → List Diagnostic) :
    advance config progress (.checking name check) =
      let context := ⟨config, FragmentRegistry.ofDocuments progress.documents⟩
      ⟨progress.documents, progress.errors ++ progress.documents.flatMap (check context),
        progress.cancelled⟩ := by
  simp [advance, Pass.checking]

private theorem advance_revising (config : Config) (progress : Progress) (name : String)
    (step : PassContext → Document → Document × List Diagnostic) :
    advance config progress (.revising name step) =
      let context := ⟨config, FragmentRegistry.ofDocuments progress.documents⟩
      ⟨progress.documents.map fun document => (step context document).1,
        progress.errors ++ progress.documents.flatMap fun document => (step context document).2,
        progress.cancelled⟩ := by
  simp only [advance, Pass.revising, Bool.or_false, List.map_map, List.flatMap_map]
  rfl

private theorem advance_directiveValidation (config : Config) (progress : Progress) :
    advance config progress Pass.directiveValidation =
      ⟨progress.documents,
        progress.errors ++ DirectiveCheck.reports config.schema NameMap.empty progress.documents,
        progress.cancelled⟩ := by
  simp [advance, Pass.directiveValidation]

theorem reports_eq_nil_iff {document : Document} {faults : List Fault} :
    document.reports faults = [] ↔ faults = [] :=
  List.map_eq_nil_iff

private theorem run?_standard (config : Config) (documents : List Document) :
    ∃ errors, run? config ⟨documents, [], false⟩ (Pass.standard []) =
        some ⟨completed config documents, errors, false⟩ ∧
      (errors = [] ↔ Accepts config documents) := by
  simp only [run?, Pass.standard, Pass.builtin, List.cons_append, List.nil_append,
    Pass.schemaConformance, Pass.scalarUsage, Pass.paginationArguments, Pass.fragmentInlining,
    Pass.identityKeys, advance_checking, advance_revising, advance_directiveValidation,
    Bool.false_eq_true, if_false, Option.some.injEq, Progress.mk.injEq, and_true]
  refine ⟨_, ⟨rfl, rfl⟩, ?_⟩
  simp only [List.append_eq_nil_iff, reports_eq_nil_iff, List.flatMap_eq_nil_iff]
  constructor
  · rintro ⟨⟨⟨⟨⟨conforms, directives⟩, scalars⟩, pages⟩, _⟩, keys⟩
    exact ⟨conforms, directives, scalars, pages, keys⟩
  · rintro ⟨conforms, directives, scalars, pages, keys⟩
    exact ⟨⟨⟨⟨⟨conforms, directives⟩, scalars⟩, pages⟩, fun _ _ => rfl⟩, keys⟩

theorem run_standard_eq_ok_iff {config : Config} {documents revised : List Document}
    {cancelled : Bool} :
    run config (Pass.standard []) documents false = .ok (revised, cancelled) ↔
      Accepts config documents ∧ revised = completed config documents ∧ cancelled = false := by
  obtain ⟨errors, ran, silent⟩ := run?_standard config documents
  rw [← silent, run, ran]
  cases errors with
  | nil => simp [eq_comm]
  | cons first rest => simp

/-! ## The selections of a document along a run -/

def inlinedItems (config : Config) (documents : List Document) (document : Document)
    (definition : Definition) : List Selection :=
  Inlining.expand (FragmentRegistry.ofDocuments (paginated config documents)) config.fragmentMasking
    (Inlining.initialStack definition)
    (PaginationCompletion.completedItems config document definition.selections.items)

def revisedItems (config : Config) (documents : List Document) (document : Document)
    (definition : Definition) (root : String) : List Selection :=
  (IdentityCompletion.complete config root
    ⟨definition.selections.opening, inlinedItems config documents document definition⟩).items

theorem mem_inlined {config : Config} {documents : List Document} (collected : Collected documents)
    {document : Document} (member : document ∈ inlined config documents) :
    ∃ source ∈ documents, ∃ definition, source.Defines definition ∧
      document.Defines (definition.withItems (inlinedItems config documents source definition)) := by
  obtain ⟨second, secondMember, rfl⟩ := List.mem_map.1 member
  obtain ⟨source, sourceMember, rfl⟩ := List.mem_map.1 secondMember
  obtain ⟨definition, defines⟩ := collected.defines source sourceMember
  have last := Inlining.step_defines ⟨config, FragmentRegistry.ofDocuments (paginated config documents)⟩
    (PaginationCompletion.step_defines config defines)
  have stack : ∀ items, Inlining.initialStack (definition.withItems items) =
      Inlining.initialStack definition := by
    intro items
    cases definition <;> rfl
  rw [Definition.withItems_withItems, Definition.selections_withItems, stack] at last
  exact ⟨source, sourceMember, definition, defines, last⟩

/-- Every document of an accepted run comes from one that was collected, with the same root type. -/
theorem mem_completed {config : Config} {documents : List Document} (collected : Collected documents)
    (accepts : Accepts config documents) {document : Document}
    (member : document ∈ completed config documents) :
    ∃ source ∈ documents, ∃ definition root, source.Defines definition ∧
      source.rootType? config.schema = some root ∧
      document.Defines (definition.withItems (revisedItems config documents source definition root)) ∧
      document.rootType? config.schema = some root := by
  obtain ⟨middle, middleMember, rfl⟩ := List.mem_map.1 member
  obtain ⟨source, sourceMember, definition, defines, definesMiddle⟩ := mem_inlined collected middleMember
  obtain ⟨root, rooted, _⟩ :=
    Conformance.sound_of_faults defines.definition?_eq (accepts.conforms source sourceMember)
  have rootedMiddle := (defines.rootType?_withItems definesMiddle config.schema).trans rooted
  have last := (IdentityCompletion.step_defines definesMiddle rootedMiddle).1
  rw [Definition.withItems_withItems, Definition.selections_withItems] at last
  exact ⟨source, sourceMember, definition, root, defines, rooted, last,
    (defines.rootType?_withItems last config.schema).trans rooted⟩

/-! ## Runs from texts -/

/-- The schema of some definitions and the documents of the texts after the built-in passes, under
the usual settings; nothing if something is refused or reported. -/
def runTexts? (definitions : List SchemaDefinition) (texts : List String) :
    Option (Schema × List Document) := do
  let schema ← (Schema.ofDefinitions definitions).toOption
  let collection ← (Collection.collect (texts.map fun text => ⟨none, text, true, true⟩)).toOption
  let documents ← collection.toExcept.toOption
  let (revised, _) ← (run (.ofSchema schema) (Pass.standard []) documents false).toOption
  return (schema, revised)

theorem runTexts?_eq_some {definitions : List SchemaDefinition} {texts : List String}
    {schema : Schema} {revised : List Document}
    (ran : runTexts? definitions texts = some (schema, revised)) :
    ∃ sources collection documents cancelled, Schema.ofDefinitions definitions = .ok schema ∧
      Collection.collect sources = .ok collection ∧ collection.toExcept = .ok documents ∧
      run (.ofSchema schema) (Pass.standard []) documents false = .ok (revised, cancelled) := by
  simp only [runTexts?, bind, Option.bind_eq_some_iff, toOption_eq_some_iff, pure,
    Option.some.injEq, Prod.mk.injEq] at ran
  obtain ⟨built, isBuilt, collection, collects, documents, clean, ran⟩ := ran
  obtain ⟨⟨last, cancelled⟩, accepted, rfl, rfl⟩ := ran
  exact ⟨_, collection, documents, cancelled, isBuilt, collects, clean, accepted⟩

/-- Values with keys, behind an interface and in the pages of a list. -/
def catalog : List SchemaDefinition :=
  let named := fun (name type : String) => FieldDef.mk name (.named type) []
  [.type "Node" (.interface [named "id" "ID"]),
    .type "Item" (.object [named "id" "ID", named "title" "String"] ["Node"]),
    .type "Edge" (.object [named "node" "Item", named "cursor" "String"] []),
    .type "PageInfo" (.object [named "hasNextPage" "Boolean", named "endCursor" "String"] []),
    .type "Items" (.object [⟨"edges", .list (.named "Edge"), []⟩, named "pageInfo" "PageInfo"] []),
    .type "Query" (.object [named "node" "Node", ⟨"items", .named "Items",
      [⟨"first", .named "Int", false⟩, ⟨"after", .named "String", false⟩]⟩] [])]

def catalogTexts : List String :=
  ["query Q \x7b items(first: 2) @paginate \x7b edges \x7b node \x7b ...F \x7d \x7d \x7d " ++
      "node \x7b ...F \x7d \x7d",
    "fragment F on Item \x7b title \x7d"]

end Pipeline

end GraphqlStore
