import GraphqlStore.Output.Store
import GraphqlStore.Proofs.PathPlace

/-!
What a store module imports. The module names its artifact by one step up and
then the path of the artifact below the output directory, wherever the module
itself is. Read from the directory of the module, this leads to the artifact
exactly if that directory is one name below the output directory.
-/

set_option autoImplicit false

namespace GraphqlStore

namespace Store

/-- A text that stands for itself between single quotes. -/
def IsPlain (text : String) : Prop :=
  ∀ character ∈ text.toList, character ∉ ['\'', '\\', '\n', '\r']

instance (text : String) : Decidable (IsPlain text) :=
  List.decidableBAll (fun character => character ∉ ['\'', '\\', '\n', '\r']) text.toList

def importStart : List Char := ("import " ++ artifactBinding ++ " from '").toList

/-- The path in the first line of a module that imports the artifact. -/
def artifactImport? (content : String) : Option String :=
  ((content.toList.splitOn '\n').find? fun line => importStart.isPrefixOf line).map fun line =>
    String.ofList ((line.drop importStart.length).takeWhile (· != '\''))

/-- Where the artifact of a module is imported from, as seen from the output directory. -/
def importedPlace? (file : OutputFile) : Option Path.Place := do
  let specifier ← artifactImport? file.content
  let directory ← (Path.ofText file.path).parent?
  return (directory.join (.ofText specifier)).place

variable {naming : StoreNaming} {artifact : Artifact} {file : OutputFile}

private theorem artifactImport?_of_lines {content : String} {first specifier rest : List Char}
    (lines : content.toList =
      first ++ '\n' :: (importStart ++ (specifier ++ ['\'']) ++ '\n' :: rest))
    (single : '\n' ∉ first) (other : importStart.isPrefixOf first = false)
    (plain : ∀ character ∈ specifier, character ≠ '\'' ∧ character ≠ '\n') :
    artifactImport? content = some (String.ofList specifier) := by
  have unbroken : '\n' ∉ importStart ++ (specifier ++ ['\'']) := by
    have start : '\n' ∉ importStart := by decide
    simpa [start] using fun inside => (plain '\n' inside).2 rfl
  have starts : importStart.isPrefixOf (importStart ++ (specifier ++ ['\''])) = true :=
    List.isPrefixOf_iff_prefix.2 (List.prefix_append _ _)
  have quoted : (specifier ++ ['\'']).takeWhile (· != '\'') = specifier := by
    rw [List.takeWhile_append_of_pos fun character member => bne_iff_ne.2 (plain character member).1]
    simp
  unfold artifactImport?
  rw [lines, List.splitOn_append_cons_self_of_not_mem single,
    List.splitOn_append_cons_self_of_not_mem unbroken, List.find?_cons_of_neg (by simp [other]),
    List.find?_cons_of_pos starts, Option.map_some, List.drop_left, quoted]

theorem IsPlain.append {first second : String} (before : IsPlain first) (after : IsPlain second) :
    IsPlain (first ++ second) := by
  unfold IsPlain
  rw [String.toList_append]
  exact List.forall_mem_append.2 ⟨before, after⟩

private theorem toList_moduleText (naming : StoreNaming) (artifact : Artifact) :
    ∃ rest, (moduleText naming artifact).toList =
      ("import \x7b " ++ constructorName artifact.kind ++ " \x7d from '" ++ naming.runtimePath ++
          "'").toList ++
        '\n' :: (importStart ++ (("../" ++ naming.artifactPath artifact.name).toList ++ ['\'']) ++
          '\n' :: rest) := by
  unfold moduleText importStart
  simp only [String.toList_append, List.append_assoc]
  exact ⟨_, rfl⟩

private theorem artifactImport?_moduleText (runtime : IsPlain naming.runtimePath)
    (directory : IsPlain naming.artifactDirectory) (named : IsPlain artifact.name) :
    artifactImport? (moduleText naming artifact) =
      some ("../" ++ naming.artifactPath artifact.name) := by
  have plain : IsPlain ("../" ++ naming.artifactPath artifact.name) := by
    have up : IsPlain "../" := by decide
    have slash : IsPlain "/" := by decide
    have ending : IsPlain ".json" := by decide
    exact up.append (((directory.append slash).append named).append ending)
  obtain ⟨rest, lines⟩ := toList_moduleText naming artifact
  rw [artifactImport?_of_lines lines ?_ ?_ fun character member => ?_, String.ofList_toList]
  · have constructor : IsPlain (constructorName artifact.kind) := by
      cases artifact.kind with
      | operation kind => cases kind <;> decide
      | fragment => decide
    simp only [String.toList_append, List.mem_append, not_or]
    refine ⟨⟨⟨⟨by decide, fun inside => ?_⟩, by decide⟩, fun inside => ?_⟩, by decide⟩
    · exact constructor '\n' inside (by decide)
    · exact runtime '\n' inside (by decide)
  · simp only [String.toList_append, List.append_assoc]
    rfl
  · have outside := plain character member
    simp only [List.mem_cons, not_or] at outside
    exact ⟨outside.1, outside.2.2.1⟩

/-! ## The directory of a module -/

private theorem exists_directory (artifact : Artifact)
    (stores : Path.IsRelative naming.storeDirectory) :
    ∃ directory front last,
      (Path.ofText (naming.storePath artifact.name)).parent? = some directory ∧
      directory.absolute = false ∧ Path.split artifact.name = front ++ [last] ∧
      directory.place = Path.place ⟨false, Path.split naming.storeDirectory ++ front⟩ := by
  obtain ⟨front, last, before, after⟩ :=
    Path.split_append_of_not_mem artifact.name (by decide : '/' ∉ ".js".toList)
  have named : Path.isBlank (last ++ ".js") = false := by
    have long : 3 ≤ (last ++ ".js").length := by
      rw [String.length_append]
      exact Nat.le_add_left 3 _
    rw [Path.isBlank, Bool.or_eq_false_iff, beq_eq_false_iff_ne, beq_eq_false_iff_ne]
    exact ⟨fun same => absurd (same ▸ long) (by decide), fun same => absurd (same ▸ long) (by decide)⟩
  have path : Path.ofText (naming.storePath artifact.name) =
      ⟨false, Path.split naming.storeDirectory ++ front ++ [last ++ ".js"]⟩ := by
    rw [StoreNaming.storePath, String.append_assoc, (stores.append _).ofText_eq, Path.split_append,
      after, List.append_assoc]
  obtain ⟨directory, found, relative, same⟩ := Path.exists_parent named
  exact ⟨directory, front, last, path ▸ found, relative, before, same⟩

theorem isRelative_artifactPath (artifacts : Path.IsRelative naming.artifactDirectory) (name : String) :
    Path.IsRelative (naming.artifactPath name) := by
  rw [StoreNaming.artifactPath, String.append_assoc]
  exact artifacts.append _

theorem storeFile_eq_ok_iff :
    storeFile naming artifact = .ok file ↔ clash? naming artifact = none ∧
      file = ⟨naming.storePath artifact.name, moduleText naming artifact⟩ := by
  unfold storeFile
  split
  · next found => simp [found]
  · next none => simp [none, eq_comm]

theorem importedPlace?_storeFile (emitted : storeFile naming artifact = .ok file)
    (artifacts : Path.IsRelative naming.artifactDirectory) (runtime : IsPlain naming.runtimePath)
    (plain : IsPlain naming.artifactDirectory) (named : IsPlain artifact.name) {directory : Path}
    (found : (Path.ofText (naming.storePath artifact.name)).parent? = some directory)
    (relative : directory.absolute = false) :
    importedPlace? file = some (directory.place.andThen (.andThen ⟨false, 1, []⟩
      (Path.ofText (naming.artifactPath artifact.name)).place)) := by
  obtain ⟨specified, up⟩ := Path.place_up (isRelative_artifactPath artifacts artifact.name)
  obtain ⟨_, rfl⟩ := storeFile_eq_ok_iff.1 emitted
  unfold importedPlace?
  rw [artifactImport?_moduleText runtime plain named]
  simp only [bind, Option.bind_some, found, pure]
  rw [Path.place_join relative specified.2, up]

/-- A module imports the artifact of its own document exactly if its directory is one name below
what its path and that of the artifact are relative to. For a document whose name has no slash this
is so exactly if the directory for stores has one name. -/
theorem storeFile_imports_iff {naming : StoreNaming} {artifact : Artifact} {file : OutputFile}
    (emitted : storeFile naming artifact = .ok file)
    (stores : Path.IsRelative naming.storeDirectory)
    (artifacts : Path.IsRelative naming.artifactDirectory) (runtime : IsPlain naming.runtimePath)
    (plain : IsPlain naming.artifactDirectory) (named : IsPlain artifact.name) :
    (∃ directory, (Path.ofText file.path).parent? = some directory ∧
      (importedPlace? file = some (Path.ofText (artifactFile naming artifact).path).place ↔
        directory.place.names.length = directory.place.ups + 1 ∧
          directory.place.ups ≤ (Path.ofText (artifactFile naming artifact).path).place.ups)) ∧
    ((Path.ofText naming.storeDirectory).climbs = false → '/' ∉ artifact.name.toList →
      (importedPlace? file = some (Path.ofText (artifactFile naming artifact).path).place ↔
        (Path.ofText naming.storeDirectory).names.length = 1)) := by
  obtain ⟨directory, front, last, found, relative, segments, placed⟩ :=
    exists_directory artifact stores
  have imported := importedPlace?_storeFile emitted artifacts runtime plain named found relative
  have resolves : importedPlace? file =
        some (Path.ofText (artifactFile naming artifact).path).place ↔
      directory.place.names.length = directory.place.ups + 1 ∧
        directory.place.ups ≤ (Path.ofText (artifactFile naming artifact).path).place.ups := by
    rw [imported, Option.some.injEq]
    exact Path.Place.andThen_up_eq_iff (directory.absolute_place.trans relative)
      ((Path.absolute_place _).trans (isRelative_artifactPath artifacts artifact.name).2)
  refine ⟨⟨directory, ?_, resolves⟩, fun flat single => ?_⟩
  · rw [(storeFile_eq_ok_iff.1 emitted).2]
    exact found
  · have whole : front = [] := by
      rw [Path.split_of_not_mem single] at segments
      exact (List.append_eq_singleton_iff.1 segments.symm).elim (·.1) fun other => by cases other.2
    subst whole
    have place : directory.place = ⟨false, 0, (Path.ofText naming.storeDirectory).names⟩ := by
      rw [stores.ofText_eq] at flat ⊢
      rw [placed, List.append_nil]
      exact Path.Place.walk_of_not_mem (by simpa [Path.climbs] using flat)
    rw [resolves, place]
    simp

def bareArtifact (name : String) : Artifact :=
  ⟨name, .operation .query, "", "", "", SelectionShape.empty, none, PaginationInfo.none,
    NameMap.empty, none, none⟩

/-- A directory for stores with one name, among segments that lead nowhere. -/
def flatNaming : StoreNaming := ⟨"", "$storegen/runtime/stores", "web/./artifacts", "./stores/"⟩

theorem storeFile_imports_iff_flat :
    ∃ file, storeFile flatNaming (bareArtifact "Q") = .ok file ∧ file.path = "./stores//Q.js" ∧
      importedPlace? file = some ⟨false, 0, ["web", "artifacts", "Q.json"]⟩ := by
  have emitted := storeFile_eq_ok_iff.2 ⟨(by decide : clash? flatNaming (bareArtifact "Q") = none), rfl⟩
  have imports := (storeFile_imports_iff emitted ⟨by decide, rfl⟩ ⟨by decide, rfl⟩ (by decide)
    (by decide) (by decide)).2 (by decide) (by decide)
  have placed : (Path.ofText (artifactFile flatNaming (bareArtifact "Q")).path).place =
      ⟨false, 0, ["web", "artifacts", "Q.json"]⟩ := by
    decide +kernel
  rw [placed] at imports
  exact ⟨_, emitted, by decide, imports.2 (by decide)⟩

def nestedNaming : StoreNaming := ⟨"", "$storegen/runtime/stores", "gen/artifacts", "gen/stores"⟩

/-- From a directory with two names the import leads below the first of them. -/
theorem import_misses_artifact :
    ∃ file, storeFile nestedNaming (bareArtifact "A") = .ok file ∧
      importedPlace? file = some ⟨false, 0, ["gen", "gen", "artifacts", "A.json"]⟩ ∧
      (Path.ofText (artifactFile nestedNaming (bareArtifact "A")).path).place =
        ⟨false, 0, ["gen", "artifacts", "A.json"]⟩ := by
  have emitted := storeFile_eq_ok_iff.2
    ⟨(by decide : clash? nestedNaming (bareArtifact "A") = none), rfl⟩
  have found : (Path.ofText (nestedNaming.storePath (bareArtifact "A").name)).parent? =
      some ⟨false, ["gen", "stores"]⟩ := by
    decide +kernel
  have placed : (Path.ofText (nestedNaming.artifactPath (bareArtifact "A").name)).place =
      ⟨false, 0, ["gen", "artifacts", "A.json"]⟩ := by
    decide +kernel
  have imported := importedPlace?_storeFile emitted ⟨by decide, rfl⟩ (by decide) (by decide)
    (by decide) found rfl
  rw [placed] at imported
  exact ⟨_, emitted, imported, placed⟩

end Store

end GraphqlStore
