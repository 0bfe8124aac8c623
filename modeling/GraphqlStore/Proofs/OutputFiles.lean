import GraphqlStore.Proofs.Interference
import GraphqlStore.Proofs.RevisionCounts
import GraphqlStore.Proofs.SourceOrder

/-!
The files of a run. A successful run writes one artifact file for each document
that wants an artifact, one store file for each that wants a store as well, and
nothing else. Passes may set these wishes as they like; as long as they leave
names distinct, no two files share a path, whatever the directories are, because
names are distinct and the two kinds of path end in different letters.
-/

set_option autoImplicit false

namespace GraphqlStore

/-! ## Names along a run -/

theorem map_eq_of_forall₂ {α β γ : Type} {relation : α → β → Prop} {first : α → γ} {second : β → γ}
    (same : ∀ a b, relation a b → second b = first a) {items : List α} {others : List β}
    (all : List.Forall₂ relation items others) : others.map second = items.map first := by
  induction all with
  | nil => rfl
  | cons here _ ih => rw [List.map_cons, List.map_cons, same _ _ here, ih]

/-- A pass that gives documents distinct names if it was given such. -/
def Pass.KeepsDistinct (pass : Pass) : Prop :=
  ∀ context documents, (documents.map Document.name).Nodup →
    ((pass.run context documents).documents.map Document.name).Nodup

theorem Pipeline.History.distinct {config : Config} {documents revised : List Document}
    {turns : List Turn} (history : History config documents turns revised)
    (keeps : ∀ turn ∈ turns, turn.pass.KeepsDistinct) (distinct : (documents.map Document.name).Nodup) :
    (revised.map Document.name).Nodup := by
  induction history with
  | done => exact distinct
  | turn _ given result _ ih =>
      rw [List.forall_mem_cons] at keeps
      refine ih keeps.2 ?_
      rw [result, given]
      exact keeps.1 _ _ distinct

private theorem Pass.keepsDistinct_of_builtin {pass : Pass} (builtin : pass ∈ Pass.builtin) :
    pass.KeepsDistinct := by
  intro context documents distinct
  have same : (pass.run context documents).documents.map Document.name =
      documents.map Document.name :=
    map_eq_of_forall₂ (fun _ _ counts => counts.name) (Pass.builtin_counts builtin context documents)
  rwa [same]

/-- A pass that asks for no store for the documents of some names. -/
def Pass.withoutStores (names : List String) : Pass :=
  ⟨"without_stores", fun _ documents =>
    ⟨documents.map fun document =>
      { document with store := document.store && !names.contains document.name }, [], false⟩⟩

private theorem Pass.keepsDistinct_withoutStores (names : List String) :
    (Pass.withoutStores names).KeepsDistinct := by
  intro context documents distinct
  rwa [Pass.withoutStores, List.map_map]

/-! ## Paths -/

/-- Where the files of documents go: artifacts first, then stores. -/
def outputPaths (naming : StoreNaming) (documents : List Document) : List String :=
  (documents.filter fun document => document.artifact).map
      (fun document => naming.artifactPath document.name) ++
    (documents.filter fun document => document.artifact && document.store).map
      fun document => naming.storePath document.name

theorem nodup_map_filter {key : String → String} (injective : key.Injective) {documents : List Document}
    (distinct : (documents.map Document.name).Nodup) (wanted : Document → Bool) :
    ((documents.filter wanted).map fun document => key document.name).Nodup := by
  have names : ((documents.filter wanted).map Document.name).Nodup :=
    distinct.sublist (List.filter_sublist.map _)
  have mapped := names.map injective
  rwa [List.map_map] at mapped

private theorem outputPaths_nodup (naming : StoreNaming) {documents : List Document}
    (distinct : (documents.map Document.name).Nodup) : (outputPaths naming documents).Nodup := by
  refine List.nodup_append.2 ⟨nodup_map_filter (fun _ _ => StoreNaming.artifactPath_inj) distinct _,
    nodup_map_filter (fun _ _ => StoreNaming.storePath_inj) distinct _, ?_⟩
  intro path artifact other store
  obtain ⟨first, _, rfl⟩ := List.mem_map.1 artifact
  obtain ⟨second, _, rfl⟩ := List.mem_map.1 store
  exact StoreNaming.artifactPath_ne_storePath

/-! ## The files of a document -/

/-- The file holds the artifact of the document. -/
structure ArtifactFileOf (config : Config) (document : Document) (file : OutputFile) : Prop where
  path : file.path = config.stores.artifactPath document.name
  made : ∃ artifact, Generation.generate config document = .ok artifact ∧
    file = Store.artifactFile config.stores artifact

/-- The file holds the module that binds a store to the artifact of the document. -/
structure StoreFileOf (config : Config) (document : Document) (file : OutputFile) : Prop where
  path : file.path = config.stores.storePath document.name
  made : ∃ artifact, Generation.generate config document = .ok artifact ∧
    Store.storeFile config.stores artifact = .ok file

private theorem Store.path_of_storeFile {naming : StoreNaming} {artifact : Artifact}
    {file : OutputFile}
    (written : storeFile naming artifact = .ok file) : file.path = naming.storePath artifact.name := by
  unfold storeFile at written
  split at written
  · cases written
  · cases written
    rfl

private theorem Store.filesOf_of_silent {naming : StoreNaming} {stores : List String}
    {artifact : Artifact} (silent : (filesOf naming stores artifact).2 = []) :
    (artifact.name ∉ stores ∧ (filesOf naming stores artifact).1 = [artifactFile naming artifact]) ∨
      artifact.name ∈ stores ∧ ∃ file, storeFile naming artifact = .ok file ∧
        (filesOf naming stores artifact).1 = [artifactFile naming artifact, file] := by
  unfold filesOf at silent ⊢
  by_cases wanted : artifact.name ∈ stores
  · rw [if_pos (List.contains_iff_mem.2 wanted)] at silent ⊢
    cases written : storeFile naming artifact with
    | ok file => exact .inr ⟨wanted, file, rfl, rfl⟩
    | error found =>
        rw [written] at silent
        cases silent
  · rw [if_neg (mt List.contains_iff_mem.1 wanted)]
    exact .inl ⟨wanted, rfl⟩

private theorem Generation.generate_of_artifact? {config : Config} {document : Document}
    {artifact : Artifact}
    (made : artifact? config document = some artifact) : generate config document = .ok artifact := by
  unfold artifact? at made
  split at made
  · exact toOption_eq_some_iff.1 made
  · cases made

/-! ## The files of all documents -/

section Files

variable {config : Config} {names : List String}

/-- The files of documents one by one are their artifact files and, where a store is wanted, their
store files. -/
theorem exists_files {documents : List Document}
    (each : ∀ document ∈ documents, document.artifact = true →
      (Generation.artifact? config document).isSome)
    (silent : ∀ artifact ∈ documents.filterMap (Generation.artifact? config),
      (Store.filesOf config.stores names artifact).2 = [])
    (wanted : ∀ document ∈ documents, document.artifact = true →
      (document.name ∈ names ↔ document.store = true)) :
    ∃ artifacts stores,
      List.Forall₂ (ArtifactFileOf config) (documents.filter fun document => document.artifact)
        artifacts ∧
      List.Forall₂ (StoreFileOf config)
        (documents.filter fun document => document.artifact && document.store) stores ∧
      ((documents.filterMap (Generation.artifact? config)).flatMap fun artifact =>
        (Store.filesOf config.stores names artifact).1).Perm (artifacts ++ stores) := by
  induction documents with
  | nil => exact ⟨[], [], .nil, .nil, .nil⟩
  | cons document rest ih =>
      rw [List.forall_mem_cons] at each wanted
      cases asked : document.artifact with
      | false =>
          have absent : Generation.artifact? config document = none :=
            if_neg (by rw [asked]; exact Bool.false_ne_true)
          rw [List.filterMap_cons_none absent] at silent ⊢
          rw [List.filter_cons_of_neg (by simp [asked]), List.filter_cons_of_neg (by simp [asked])]
          exact ih each.2 silent wanted.2
      | true =>
          obtain ⟨artifact, made⟩ := Option.isSome_iff_exists.1 (each.1 asked)
          rw [List.filterMap_cons_some made, List.forall_mem_cons] at silent
          obtain ⟨artifacts, stores, areArtifacts, areStores, perm⟩ := ih each.2 silent.2 wanted.2
          have named := Generation.name_of_artifact? made
          have generated := Generation.generate_of_artifact? made
          have here : ArtifactFileOf config document (Store.artifactFile config.stores artifact) :=
            ⟨congrArg config.stores.artifactPath named, artifact, generated, rfl⟩
          rw [List.filterMap_cons_some made, List.flatMap_cons, List.filter_cons_of_pos (by simp [asked])]
          rcases Store.filesOf_of_silent silent.1 with ⟨unwanted, files⟩ | ⟨inNames, file, written, files⟩
          · have noStore : document.store = false := by
              rw [named, wanted.1 asked, Bool.not_eq_true] at unwanted
              exact unwanted
            rw [List.filter_cons_of_neg (by simp [noStore]), files]
            exact ⟨_ :: artifacts, stores, .cons here areArtifacts, areStores, perm.cons _⟩
          · have store : document.store = true := (wanted.1 asked).1 (named ▸ inNames)
            have bound : StoreFileOf config document file :=
              ⟨named ▸ Store.path_of_storeFile written, artifact, generated, written⟩
            rw [List.filter_cons_of_pos (by simp [asked, store]), files]
            refine ⟨_ :: artifacts, file :: stores, .cons here areArtifacts, .cons bound areStores, ?_⟩
            exact (((perm.cons file).trans List.perm_middle.symm).cons _)

theorem wants_store_iff {documents : List Document} (distinct : (documents.map Document.name).Nodup)
    {document : Document} (member : document ∈ documents) (asked : document.artifact = true) :
    document.name ∈ Compilation.storeNames documents ↔ document.store = true := by
  simp only [Compilation.storeNames, List.mem_map, List.mem_filter, Bool.and_eq_true]
  constructor
  · intro found
    obtain ⟨other, ⟨listed, store, _⟩, named⟩ := found
    rwa [List.inj_on_of_nodup_map distinct listed member named] at store
  · intro store
    exact ⟨document, ⟨member, store, asked⟩, rfl⟩

end Files

private theorem OutputFile.pairwise_lt_of_nodup {files : List OutputFile}
    (distinct : (files.map OutputFile.path).Nodup) :
    (files.mergeSort OutputFile.le).Pairwise fun first second => first.path < second.path := by
  have sorted := List.pairwise_mergeSort OutputFile.le_trans OutputFile.le_total files
  have apart : (files.mergeSort OutputFile.le).Pairwise fun first second => first.path ≠ second.path :=
    List.pairwise_map.1 (((List.mergeSort_perm files _).map _).nodup_iff.2 distinct)
  refine (sorted.and apart).imp fun both => ?_
  rcases OutputFile.le_iff.1 both.1 with below | ⟨same, _⟩
  · exact below
  · exact absurd same both.2

/-! ## Runs -/

/-- The files of a run are one artifact file for each document that wants an artifact and one store
file for each that wants both, on paths that strictly increase. -/
structure CompileOutput.WritesExactly (config : Config) (output : CompileOutput) : Prop where
  files : ∃ artifacts stores,
    List.Forall₂ (ArtifactFileOf config)
      (output.documents.filter fun document => document.artifact) artifacts ∧
    List.Forall₂ (StoreFileOf config)
      (output.documents.filter fun document => document.artifact && document.store) stores ∧
    output.files.Perm (artifacts ++ stores)
  paths : (output.files.map OutputFile.path).Perm (outputPaths config.stores output.documents)
  distinct : (output.files.map OutputFile.path).Nodup
  increasing : output.files.Pairwise fun first second => first.path < second.path

namespace Compilation

/-- Every run that succeeds writes exactly the files that its documents want at the end, whatever its
passes did to these wishes and wherever the files go, if its passes keep names distinct. -/
theorem runWatched_writesExactly {config : Config} {passes : List Pass} {cancelled : Bool}
    {watch : Watch} {batch : SourceBatch} {output : CompileOutput}
    (keeps : ∀ pass ∈ passes, pass.KeepsDistinct)
    (ran : runWatched config passes cancelled watch batch = .ok (.ok output)) :
    output.WritesExactly config := by
  obtain ⟨_, collection, turns, collects, _, rfl, history, _, generates, writes, _⟩ :=
    runWatched_eq_ok_iff.1 ran
  have distinct : (output.documents.map Document.name).Nodup :=
    history.distinct (fun turn member => keeps _ (List.mem_map_of_mem member))
      (collected_documents collects).distinct
  obtain ⟨each, listed⟩ := Generation.generateAll_eq_ok_iff.1 generates
  obtain ⟨silent, sorted⟩ := Store.emit_eq_ok_iff.1 writes
  rw [← listed] at silent sorted
  obtain ⟨artifacts, stores, areArtifacts, areStores, perm⟩ :=
    exists_files each silent fun _ member asked => wants_store_iff distinct member asked
  have paths : (artifacts ++ stores).map OutputFile.path =
      outputPaths config.stores output.documents := by
    rw [List.map_append, outputPaths, map_eq_of_forall₂ (fun _ _ placed => placed.path) areArtifacts,
      map_eq_of_forall₂ (fun _ _ placed => placed.path) areStores]
  have apart : ((artifacts ++ stores).map OutputFile.path).Nodup :=
    paths ▸ outputPaths_nodup config.stores distinct
  have written : output.files.Perm (artifacts ++ stores) :=
    sorted ▸ (List.mergeSort_perm _ _).trans perm
  refine ⟨⟨artifacts, stores, areArtifacts, areStores, written⟩, paths ▸ written.map _,
    (written.map _).nodup_iff.2 apart, ?_⟩
  rw [← sorted]
  exact OutputFile.pairwise_lt_of_nodup ((perm.map _).nodup_iff.2 apart)

/-- Both kinds of file go to one directory here, and a pass keeps the fragment from getting a
store. -/
theorem runWatched_writesExactly_shared :
    ∃ schema output, Schema.ofDefinitions Pipeline.catalog = .ok schema ∧
      let config := { Config.ofSchema schema with stores := ⟨"", "runtime", "out", "out"⟩ }
      runWatched config (Pass.standard [.withoutStores ["F"]]) false .quiet
          ⟨Pipeline.catalogTexts.map textSource, []⟩ = .ok (.ok output) ∧
        output.WritesExactly config ∧
        output.files.map OutputFile.path = ["out/F.json", "out/Q.js", "out/Q.json"] := by
  have made : (Schema.ofDefinitions Pipeline.catalog).toOption.any (fun schema =>
      let config := { Config.ofSchema schema with stores := ⟨"", "runtime", "out", "out"⟩ }
      (runWatched config (Pass.standard [.withoutStores ["F"]]) false .quiet
        ⟨Pipeline.catalogTexts.map textSource, []⟩).toOption.any fun result =>
          result.toOption.any fun output =>
            outputPaths config.stores output.documents ==
              ["out/Q.json", "out/F.json", "out/Q.js"]) = true := by
    decide +kernel
  obtain ⟨schema, built, made⟩ := (Option.any_eq_true _ _).1 made
  obtain ⟨result, ran, made⟩ := (Option.any_eq_true _ _).1 made
  obtain ⟨output, succeeds, paths⟩ := (Option.any_eq_true _ _).1 made
  rw [toOption_eq_some_iff] at built ran succeeds
  rw [succeeds] at ran
  have keeps : ∀ pass ∈ Pass.standard [.withoutStores ["F"]], pass.KeepsDistinct := by
    intro pass member
    rcases List.mem_append.1 member with builtin | plugin
    · exact Pass.keepsDistinct_of_builtin builtin
    · rw [List.mem_singleton.1 plugin]
      exact Pass.keepsDistinct_withoutStores ["F"]
  have written := runWatched_writesExactly keeps ran
  refine ⟨schema, output, built, ran, written, ?_⟩
  have perm : (output.files.map OutputFile.path).Perm ["out/F.json", "out/Q.js", "out/Q.json"] := by
    refine written.paths.trans ?_
    rw [beq_iff_eq.1 paths]
    decide
  have increasing : (output.files.map OutputFile.path).Pairwise (· < ·) :=
    List.pairwise_map.2 written.increasing
  refine perm.eq_of_pairwise ?_ increasing (by decide)
  intro first second _ _ one two
  exact absurd two (String.lt_asymm one)

end Compilation

end GraphqlStore
