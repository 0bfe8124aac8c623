import GraphqlStore.Compilation
import GraphqlStore.Proofs.AcceptedRun

/-!
When a whole run with the built-in passes succeeds, and what it gives: every
source gives a document, names differ, no pass has anything to report, every
artifact that is wanted can be generated and every store can be written. The
files are those of the artifacts one by one, sorted.
-/

set_option autoImplicit false

namespace GraphqlStore

/-! ## Sources -/

namespace Collection

/-- The document that a source gives, whatever its place among the sources. -/
def document? (source : DocumentSource) : Option Document :=
  match ExecutableDocument.parse source.text with
  | .error _ => none
  | .ok parsed =>
      match ExecutableDocument.classify parsed with
      | .error _ => none
      | .ok (kind, name) => some (.ofSource name kind source parsed)

theorem read_cases (source : DocumentSource) (index : Nat) :
    (document? source = none ∧
      ((∃ cause, read source index = .error cause) ∨
        ∃ found, read source index = .ok ⟨source.label index, .error found⟩)) ∨
    ∃ document, document? source = some document ∧
      read source index = .ok ⟨source.label index, .ok document⟩ := by
  unfold document? read
  cases parsed : ExecutableDocument.parse source.text with
  | error refusal =>
      cases refusal with
      | interrupted cause => exact .inl ⟨rfl, .inl ⟨cause, rfl⟩⟩
      | unexpected position => exact .inl ⟨rfl, .inr ⟨_, rfl⟩⟩
  | ok definitions =>
      cases classified : ExecutableDocument.classify definitions with
      | error reason =>
          refine .inl ⟨?_, .inr ?_⟩
          · simp only [classified]
          · simp only [classified]
            exact ⟨_, rfl⟩
      | ok kindAndName =>
          obtain ⟨kind, name⟩ := kindAndName
          simp only [classified]
          exact .inr ⟨_, rfl, rfl⟩

private theorem source_of_document? {source : DocumentSource} {document : Document}
    (given : document? source = some document) : document.source = source := by
  unfold document? at given
  split at given
  · cases given
  · split at given
    · cases given
    · cases given
      rfl

theorem readFrom_cons {source : DocumentSource} {rest : List DocumentSource} {index : Nat}
    {readings : List Reading} :
    readFrom index (source :: rest) = .ok readings ↔
      ∃ first others, read source index = .ok first ∧ readFrom (index + 1) rest = .ok others ∧
        readings = first :: others := by
  rw [readFrom]
  cases read source index with
  | error cause => simp [bind, Except.bind]
  | ok first =>
      cases readFrom (index + 1) rest with
      | error cause => simp [bind, Except.bind]
      | ok others => simp [bind, Except.bind, pure, Except.pure, eq_comm]

private theorem mem_readFrom {sources : List DocumentSource} {index : Nat} {readings : List Reading}
    (reads : readFrom index sources = .ok readings) {reading : Reading} (member : reading ∈ readings) :
    ∃ source ∈ sources, ∃ place, read source place = .ok reading := by
  induction sources generalizing index readings with
  | nil =>
      cases reads
      cases member
  | cons source rest ih =>
      obtain ⟨first, others, here, later, rfl⟩ := readFrom_cons.1 reads
      rcases List.mem_cons.1 member with rfl | member
      · exact ⟨source, List.mem_cons_self, index, here⟩
      · obtain ⟨other, inRest, found⟩ := ih later member
        exact ⟨other, List.mem_cons_of_mem _ inRest, found⟩

theorem document?_of_mem {sources : List DocumentSource} {collection : Collection}
    (collects : collect sources = .ok collection) {document : Document}
    (member : document ∈ collection.documents) : document? document.source = some document := by
  cases reads : readFrom 0 sources with
  | error cause =>
      rw [collect, reads] at collects
      cases collects
  | ok readings =>
      rw [collect, reads] at collects
      cases collects
      obtain ⟨_, reading, inReadings, result⟩ := (gather_documents _ readings).1 document member
      obtain ⟨source, _, place, here⟩ := mem_readFrom reads inReadings
      rcases read_cases source place with ⟨_, ⟨cause, refused⟩ | ⟨found, refused⟩⟩ | ⟨other, given, same⟩
      · cases refused.symm.trans here
      · cases refused.symm.trans here
        cases result
      · cases same.symm.trans here
        cases result
        rwa [source_of_document? given]

theorem documents_of_errors_eq_nil {sources : List DocumentSource} {index : Nat}
    {seen : NameMap String} {readings : List Reading} (reads : readFrom index sources = .ok readings)
    (silent : (gather seen readings).errors = []) :
    (∀ source ∈ sources, (document? source).isSome) ∧
      (gather seen readings).documents = sources.filterMap document? ∧
      (gather seen readings).fatal = false := by
  induction sources generalizing index seen readings with
  | nil =>
      cases reads
      exact ⟨by simp, rfl, rfl⟩
  | cons source rest ih =>
      obtain ⟨first, others, here, later, rfl⟩ := readFrom_cons.1 reads
      rcases read_cases source index with ⟨_, ⟨cause, refused⟩ | ⟨found, refused⟩⟩ | ⟨document, given, same⟩
      · cases refused.symm.trans here
      · cases refused.symm.trans here
        cases silent
      · cases same.symm.trans here
        rw [List.forall_mem_cons, List.filterMap_cons_some given, given]
        simp only [gather] at silent ⊢
        cases known : seen.find? document.name with
        | some label =>
            rw [known] at silent
            cases silent
        | none =>
            rw [known] at silent
            obtain ⟨each, gathered, usable⟩ := ih later silent
            exact ⟨⟨rfl, each⟩, congrArg (document :: ·) gathered, usable⟩

private theorem gather_of_distinct {sources : List DocumentSource} (index : Nat)
    {seen : NameMap String} (each : ∀ source ∈ sources, (document? source).isSome)
    (distinct : ((sources.filterMap document?).map Document.name).Nodup)
    (fresh : ∀ document ∈ sources.filterMap document?, seen.find? document.name = none) :
    ∃ readings, readFrom index sources = .ok readings ∧ (gather seen readings).errors = [] := by
  induction sources generalizing index seen with
  | nil => exact ⟨[], rfl, rfl⟩
  | cons source rest ih =>
      rw [List.forall_mem_cons] at each
      rcases read_cases source index with ⟨absent, _⟩ | ⟨document, given, here⟩
      · rw [absent] at each
        cases each.1
      · rw [List.filterMap_cons_some given] at distinct fresh
        rw [List.map_cons, List.nodup_cons] at distinct
        rw [List.forall_mem_cons] at fresh
        have freshLater : ∀ other ∈ rest.filterMap document?,
            (seen.insert document.name (source.label index)).find? other.name = none := by
          intro other member
          have different : document.name ≠ other.name := fun same =>
            distinct.1 (List.mem_map.2 ⟨other, member, same.symm⟩)
          rw [NameMap.find?_insert_of_ne _ _ different]
          exact fresh.2 other member
        obtain ⟨others, later, silent⟩ := ih (index + 1) each.2 distinct.2 freshLater
        refine ⟨_, readFrom_cons.2 ⟨_, others, here, later, rfl⟩, ?_⟩
        simp only [gather, fresh.1]
        exact silent

/-- Sources are collected without any report exactly if each gives a document and names differ. -/
theorem collect_clean_iff {sources : List DocumentSource} {documents : List Document} :
    (∃ collection, collect sources = .ok collection ∧ collection.errors = [] ∧
        collection.documents = documents) ↔
      (∀ source ∈ sources, (document? source).isSome) ∧ documents = sources.filterMap document? ∧
        (documents.map Document.name).Nodup := by
  constructor
  · rintro ⟨collection, collects, silent, rfl⟩
    have distinct := (collected_documents collects).distinct
    cases reads : readFrom 0 sources with
    | error cause =>
        rw [collect, reads] at collects
        cases collects
    | ok readings =>
        rw [collect, reads] at collects
        cases collects
        obtain ⟨each, same, _⟩ := documents_of_errors_eq_nil reads silent
        exact ⟨each, same, distinct⟩
  · rintro ⟨each, rfl, distinct⟩
    obtain ⟨readings, reads, silent⟩ := gather_of_distinct 0 each distinct fun document _ =>
      NameMap.find?_empty document.name
    refine ⟨gather NameMap.empty readings, ?_, silent, (documents_of_errors_eq_nil reads silent).2.1⟩
    rw [collect, reads]
    rfl

theorem fatal_of_errors_eq_nil {sources : List DocumentSource} {collection : Collection}
    (collects : collect sources = .ok collection) (silent : collection.errors = []) :
    collection.fatal = false := by
  cases reads : readFrom 0 sources with
  | error cause =>
      rw [collect, reads] at collects
      cases collects
  | ok readings =>
      rw [collect, reads] at collects
      cases collects
      exact (documents_of_errors_eq_nil reads silent).2.2

end Collection

/-! ## Artifacts and files -/

namespace Generation

def artifact? (config : Config) (document : Document) : Option Artifact :=
  if document.artifact then (generate config document).toOption else none

private theorem artifact?_of_generate {config : Config} {document : Document}
    (wanted : document.artifact = true) :
    artifact? config document = (generate config document).toOption :=
  if_pos wanted

theorem generateAll_eq_ok_iff {config : Config} {documents : List Document}
    {artifacts : List Artifact} :
    generateAll config documents = .ok artifacts ↔
      (∀ document ∈ documents, document.artifact = true → (artifact? config document).isSome) ∧
        documents.filterMap (artifact? config) = artifacts := by
  induction documents generalizing artifacts with
  | nil => simp [generateAll]
  | cons document rest ih =>
      rw [List.forall_mem_cons, generateAll]
      by_cases wanted : document.artifact = true
      · rw [if_pos wanted, List.filterMap_cons, artifact?_of_generate wanted]
        cases made : generate config document with
        | error found =>
            cases generateAll config rest <;> simp [Except.toOption, wanted]
        | ok artifact =>
            cases others : generateAll config rest with
            | error found =>
                have refused (each : ∀ document ∈ rest, document.artifact = true →
                    (artifact? config document).isSome = true) : False := by
                  have accepted := ih.2 ⟨each, rfl⟩
                  rw [others] at accepted
                  cases accepted
                simp only [Except.toOption, reduceCtorEq, false_iff]
                exact fun both => refused both.1.2
            | ok tail =>
                obtain ⟨each, same⟩ := ih.1 others
                simp only [Except.toOption, same, Option.isSome_some, Except.ok.injEq, implies_true,
                  true_and]
                exact ⟨fun listed => ⟨each, listed⟩, fun both => both.2⟩
      · have absent : artifact? config document = none := if_neg wanted
        rw [if_neg wanted, ih, List.filterMap_cons_none absent]
        simp [wanted]

theorem name_of_artifact? {config : Config} {document : Document} {artifact : Artifact}
    (made : artifact? config document = some artifact) : artifact.name = document.name := by
  unfold artifact? at made
  split at made
  · unfold generate at made
    split at made
    · simp only at made
      split at made
      · cases made
        rfl
      · cases made
    · cases made
  · cases made

end Generation

theorem Store.filesOf_congr (naming : StoreNaming) {stores others : List String} {artifact : Artifact}
    (same : artifact.name ∈ stores ↔ artifact.name ∈ others) :
    filesOf naming stores artifact = filesOf naming others artifact := by
  have contains : stores.contains artifact.name = others.contains artifact.name := by
    rw [Bool.eq_iff_iff, List.contains_iff_mem, List.contains_iff_mem, same]
  rw [filesOf, filesOf, contains]

theorem Store.emit_eq_ok_iff {naming : StoreNaming} {stores : List String}
    {artifacts : List Artifact} {files : List OutputFile} :
    emit naming stores artifacts = .ok files ↔
      (∀ artifact ∈ artifacts, (filesOf naming stores artifact).2 = []) ∧
        (artifacts.flatMap fun artifact => (filesOf naming stores artifact).1).mergeSort
          OutputFile.le = files := by
  unfold emit
  simp only [List.flatMap_map]
  split
  · rename_i silent
    rw [List.isEmpty_iff, List.flatMap_eq_nil_iff] at silent
    rw [Except.ok.injEq]
    exact ⟨fun same => ⟨silent, same⟩, fun both => both.2⟩
  · rename_i reported
    rw [List.isEmpty_iff, List.flatMap_eq_nil_iff] at reported
    simp only [reduceCtorEq, false_iff]
    exact fun both => reported both.1

/-! ## Whole runs -/

namespace Compilation

theorem unlessCancelled_eq_ok_iff {α : Type} {cancelled : Bool}
    {next : Except (List Diagnostic) α} {value : α} :
    unlessCancelled cancelled next = .ok value ↔ cancelled = false ∧ next = .ok value := by
  cases cancelled <;> simp [unlessCancelled]

/-- Files are made exactly if all artifacts are generated, all files can be written and nobody
cancels the run meanwhile. -/
theorem emitWatched_eq_ok_iff {config : Config} {watch : Watch} {documents : List Document}
    {output : CompileOutput} :
    emitWatched config watch documents = .ok output ↔
      (Generation.generateAll config documents = .ok output.artifacts ∧
        Store.emit config.stores (storeNames documents) output.artifacts = .ok output.files ∧
        output.documents = documents) ∧ watch.generated = false ∧ watch.written = false := by
  unfold emitWatched
  obtain ⟨outputDocuments, artifacts, files⟩ := output
  cases made : Generation.generateAll config documents with
  | error found => simp [bind, Except.bind]
  | ok all =>
      simp only [bind, Except.bind, unlessCancelled_eq_ok_iff, Except.ok.injEq]
      cases written : Store.emit config.stores (storeNames documents) all with
      | error found =>
          simp only [reduceCtorEq, and_false, false_iff]
          rintro ⟨⟨rfl, ok, _⟩, _⟩
          rw [written] at ok
          cases ok
      | ok listed =>
          simp only [unlessCancelled_eq_ok_iff, pure, Except.pure, Except.ok.injEq,
            CompileOutput.mk.injEq]
          constructor
          · rintro ⟨early, late, rfl, rfl, rfl⟩
            exact ⟨⟨rfl, written, rfl⟩, early, late⟩
          · rintro ⟨⟨rfl, ok, rfl⟩, early, late⟩
            rw [written] at ok
            cases ok
            exact ⟨early, late, rfl, rfl, rfl⟩

theorem emit_eq_ok_iff {config : Config} {documents : List Document} {output : CompileOutput} :
    emit config documents = .ok output ↔
      Generation.generateAll config documents = .ok output.artifacts ∧
        Store.emit config.stores (storeNames documents) output.artifacts = .ok output.files ∧
        output.documents = documents := by
  rw [emit, emitWatched_eq_ok_iff]
  simp [Watch.quiet]

theorem check_eq_ok_iff {config : Config} {passes : List Pass} {cancelled : Bool}
    {earlier : List Diagnostic} {documents : List Document} {checked : List Document × Bool} :
    check config passes cancelled earlier documents = .ok checked ↔
      Pipeline.run config passes documents cancelled = .ok checked ∧ earlier = [] := by
  unfold check
  cases Pipeline.run config passes documents cancelled with
  | error found => simp
  | ok given =>
      cases earlier with
      | nil => simp
      | cons first rest => simp

private theorem runOn_standard {config : Config} {collection : Collection} {output : CompileOutput}
    (usable : collection.errors = [] → collection.fatal = false) :
    runOn config (Pass.standard []) false .quiet [] collection = .ok output ↔
      collection.errors = [] ∧ Pipeline.Accepts config collection.documents ∧
        emit config (Pipeline.completed config collection.documents) = .ok output := by
  unfold runOn unlessCancelled emit
  simp only [List.nil_append, Bool.false_eq_true, if_false]
  cases checks : check config (Pass.standard []) false collection.errors collection.documents with
  | error found =>
      have refused (silent : collection.errors = [])
          (accepts : Pipeline.Accepts config collection.documents) : False := by
        have checked := check_eq_ok_iff.2
          ⟨Pipeline.run_standard_eq_ok_iff.2 ⟨accepts, rfl, rfl⟩, silent⟩
        rw [checks] at checked
        cases checked
      cases collection.fatal <;> simpa [bind, Except.bind] using fun silent accepts =>
        (refused silent accepts).elim
  | ok checked =>
      obtain ⟨revised, cancelled⟩ := checked
      obtain ⟨ran, silent⟩ := check_eq_ok_iff.1 checks
      obtain ⟨accepts, rfl, rfl⟩ := Pipeline.run_standard_eq_ok_iff.1 ran
      simp [bind, Except.bind, usable silent, silent, accepts]

/-- A whole run with the built-in passes succeeds exactly if the sources are collected without any
report, no pass has anything to report, and all files can be written. -/
theorem run_standard_eq_ok_iff {config : Config} {sources : List DocumentSource}
    {output : CompileOutput} :
    run config (Pass.standard []) false ⟨sources, []⟩ = .ok (.ok output) ↔
      ∃ documents, (∃ collection, Collection.collect sources = .ok collection ∧
          collection.errors = [] ∧ collection.documents = documents) ∧
        Pipeline.Accepts config documents ∧
        emit config (Pipeline.completed config documents) = .ok output := by
  unfold run runWatched
  cases collects : Collection.collect sources with
  | error cause => simp [bind, Except.bind]
  | ok collection =>
      simp only [bind, Except.bind, pure, Except.pure, Except.ok.injEq, exists_eq_left']
      rw [runOn_standard (Collection.fatal_of_errors_eq_nil collects)]
      constructor
      · rintro ⟨silent, accepts, emits⟩
        exact ⟨_, ⟨silent, rfl⟩, accepts, emits⟩
      · rintro ⟨_, ⟨silent, rfl⟩, accepts, emits⟩
        exact ⟨silent, accepts, emits⟩

/-! ## Runs from texts -/

def textSource (text : String) : DocumentSource := ⟨none, text, true, true⟩

/-- What a whole run gives for texts and the schema of some definitions, under the usual settings. -/
def runTexts? (definitions : List SchemaDefinition) (texts : List String) :
    Option (Schema × CompileOutput) := do
  let schema ← (Schema.ofDefinitions definitions).toOption
  let result ← (run (.ofSchema schema) (Pass.standard []) false ⟨texts.map textSource, []⟩).toOption
  let output ← result.toOption
  return (schema, output)

theorem runTexts?_eq_some {definitions : List SchemaDefinition} {texts : List String}
    {schema : Schema} {output : CompileOutput}
    (ran : runTexts? definitions texts = some (schema, output)) :
    Schema.ofDefinitions definitions = .ok schema ∧
      run (.ofSchema schema) (Pass.standard []) false ⟨texts.map textSource, []⟩ =
        .ok (.ok output) := by
  simp only [runTexts?, bind, Option.bind_eq_some_iff, toOption_eq_some_iff, pure,
    Option.some.injEq, Prod.mk.injEq] at ran
  obtain ⟨built, isBuilt, result, collects, given, succeeds, rfl, rfl⟩ := ran
  rw [succeeds] at collects
  exact ⟨isBuilt, collects⟩

end Compilation

end GraphqlStore
