import GraphqlStore.Proofs.RefusedRequests

/-!
Output files are first written to a staging directory, which lies in a scratch
directory of its own. Main statements: while files are staged, only the scratch
directory changes, and what is staged are the given files, the last of those
with the same names; to list the staging directory is to list their names, in
order and once each.
-/

set_option autoImplicit false

namespace GraphqlStore

namespace Publication

open Volume

/-! ## What is written -/

/-- The first names of the places of output files. -/
def firstNames (files : List OutputFile) : List String :=
  files.filterMap fun file => (Path.ofText file.path).names.head?

/-- What the last of the files with the given names holds. -/
def lastGiven? (files : List OutputFile) (names : List String) : Option ByteArray :=
  (files.reverse.find? fun file => decide ((Path.ofText file.path).names = names)).map
    fun file => file.content.toUTF8

theorem lastGiven?_append (files : List OutputFile) (file : OutputFile) (names : List String) :
    lastGiven? (files ++ [file]) names =
      if (Path.ofText file.path).names = names then some file.content.toUTF8
      else lastGiven? files names := by
  rw [lastGiven?, List.reverse_concat, List.find?_cons]
  by_cases same : (Path.ofText file.path).names = names
  · simp [same]
  · simp [same, lastGiven?]

theorem isSome_lastGiven? {files : List OutputFile} {names : List String} :
    (lastGiven? files names).isSome = true ↔ ∃ file ∈ files, (Path.ofText file.path).names = names := by
  rw [lastGiven?, Option.isSome_map, List.find?_isSome]
  simp

/-- The names of the given files, in order and once each. -/
structure Listed (files : List OutputFile) (listed : List (List String)) : Prop where
  ordered : listed.Pairwise fun first second => FileTree.namesLe first second = true
  nodup : listed.Nodup
  mem_iff : ∀ names, names ∈ listed ↔ ∃ file ∈ files, (Path.ofText file.path).names = names

/-- Names that lead on from a directory. -/
structure Plain (names : List String) : Prop where
  nonempty : names ≠ []
  proper : ∀ name ∈ names, Path.isBlank name = false
  noUp : ".." ∉ names

theorem Plain.names_eq {names : List String} (plain : Plain names) :
    (Path.ofNames names).names = names := by
  rw [Path.names, Path.ofNames, List.filter_eq_self]
  intro name member
  rw [plain.proper name member]
  rfl

theorem Plain.cons {names : List String} (plain : Plain names) {name : String}
    (proper : Path.isBlank name = false) (noUp : name ≠ "..") : Plain (name :: names) := by
  refine ⟨List.cons_ne_nil _ _, ?_, ?_⟩
  · rw [List.forall_mem_cons]
    exact ⟨proper, plain.proper⟩
  · rw [List.mem_cons, not_or]
    exact ⟨Ne.symm noUp, plain.noUp⟩

private theorem plain_singleton {name : String} (proper : Path.isBlank name = false)
    (noUp : name ≠ "..") :
    Plain [name] := by
  refine ⟨List.cons_ne_nil _ _, ?_, ?_⟩
  · simpa using proper
  · simpa using Ne.symm noUp

/-! ## Sessions -/

/-- The writing of output files below a root: the place of the root, the name of the scratch
directory in it, and the volume before that directory was made. -/
structure Session where
  root : Path
  place : List String
  scratch : String
  origin : Volume
  reaches : Reaches origin root place
  leads : Leads origin (root.join (.ofNames [scratch])) (place ++ [scratch])
  absent : origin.entryAt? (place ++ [scratch]) = none
  proper : Path.isBlank scratch = false
  noUp : scratch ≠ ".."

namespace Session

variable (session : Session)

def path (names : List String) : Path := session.root.join (.ofNames names)

def scratchPlace : List String := session.place ++ [session.scratch]

def within (part : String) (names : List String) : List String := session.scratch :: part :: names

abbrev stagedNames (names : List String) : List String := session.within "staging" names

abbrev backupNames (names : List String) : List String := session.within "backup" names

section Parts

variable (part : String) (names : List String)

theorem within_ne_nil : session.within part names ≠ [] := List.cons_ne_nil _ _

theorem place_within :
    session.place ++ session.within part names = session.scratchPlace ++ part :: names := by
  simp [within, scratchPlace]

theorem place_within_append :
    session.place ++ session.within part [] ++ names = session.place ++ session.within part names := by
  simp [within]

theorem scratchPlace_above_within :
    session.scratchPlace <+: session.place ++ session.within part names := by
  rw [place_within]
  exact List.prefix_append _ _

variable {part names}

theorem plain_within (plain : Plain (part :: names)) : Plain (session.within part names) :=
  plain.cons session.proper session.noUp

theorem path_join_within (nonblank : part ≠ "") (nonempty : names ≠ []) :
    (session.path (session.within part [])).join (.ofNames names) =
      session.path (session.within part names) :=
  @Path.join_join session.root [session.scratch] names part nonblank nonempty

end Parts

theorem entryAt?_origin (rest : List String) :
    session.origin.entryAt? (session.scratchPlace ++ rest) = none := by
  by_cases here : rest = []
  · rw [here, List.append_nil, scratchPlace, session.absent]
  · apply FileTree.entryAt?_below _ here
    rw [scratchPlace, session.absent]
    exact fun same => by cases same

theorem contentAt?_origin (rest : List String) :
    session.origin.contentAt? (session.scratchPlace ++ rest) = none := by
  rw [FileTree.contentAt?_eq, session.entryAt?_origin]
  rfl

/-- The scratch directory stands, and so do all directories from before. -/
structure Open (volume : Volume) : Prop where
  grows : Grows session.origin volume
  directory : volume.isDirectoryAt session.scratchPlace = true

/-- Only below the scratch directory are there other files than before. -/
structure Unchanged (volume : Volume) : Prop extends session.Open volume where
  others : ∀ names, ¬ session.scratchPlace <+: names →
    volume.contentAt? names = session.origin.contentAt? names

variable {session}

namespace Open

variable {volume : Volume}

theorem of_grows {after : Volume} (grows : Grows volume after) (isOpen : session.Open volume) :
    session.Open after :=
  ⟨fun place directory => grows place (isOpen.grows place directory), grows _ isOpen.directory⟩

theorem reaches (isOpen : session.Open volume) : Reaches volume session.root session.place :=
  session.reaches.of_grows isOpen.grows

theorem leads (isOpen : session.Open volume) :
    Leads volume (session.path [session.scratch]) session.scratchPlace :=
  session.leads.of_grows isOpen.grows

theorem eq_of_locate (isOpen : session.Open volume) {names reached : List String}
    (plain : Plain names) (located : volume.locate (session.path names) = .ok reached) :
    reached = session.place ++ names := by
  rw [isOpen.reaches.eq_of_locate plain.nonempty plain.noUp located, plain.names_eq]

theorem eq_of_leads (isOpen : session.Open volume) {names reached : List String}
    (plain : Plain names) (leads : Leads volume (session.path names) reached) :
    reached = session.place ++ names := by
  rw [(isOpen.reaches.eq_of_leads plain.nonempty plain.noUp leads).1, plain.names_eq]

theorem leads_of_locate (isOpen : session.Open volume) {names reached : List String}
    (plain : Plain names) (located : volume.locate (session.path names) = .ok reached) :
    Leads volume (session.path names) (session.place ++ names) := by
  cases isOpen.eq_of_locate plain located
  obtain ⟨above, last, rfl⟩ := (List.eq_nil_or_concat' names).resolve_left plain.nonempty
  have segments : (session.path (above ++ [last])).segments = (session.root.stem ++ above) ++ [last] := by
    rw [path, Path.join_eq _ (by simp), List.append_assoc]
  apply Leads.of_locate segments _ _ located
  · exact plain.proper last (by simp)
  · intro up
    exact plain.noUp (by simp [up])

end Open

namespace Unchanged

variable {volume : Volume}

theorem of_grown {after : Volume} (unchanged : session.Unchanged volume) (grown : Grown volume after) :
    session.Unchanged after := by
  refine ⟨unchanged.toOpen.of_grows grown.grows, ?_⟩
  rw [grown.contentAt?_eq]
  exact unchanged.others

theorem contentAt?_removeTree (unchanged : session.Unchanged volume) :
    (volume.removeTree (session.path [session.scratch])).contentAt? = session.origin.contentAt? := by
  obtain ⟨below, others⟩ := removeTree_of_leads unchanged.leads unchanged.directory
  funext names
  by_cases inside : session.scratchPlace <+: names
  · obtain ⟨rest, rfl⟩ := inside
    rw [below, session.contentAt?_origin]
  · rw [← unchanged.others names inside, FileTree.contentAt?_eq, others names inside,
      FileTree.contentAt?_eq]

end Unchanged

/-! ## Staging -/

variable (session)

/-- The files below the staging directory are the given ones, and nothing else has changed. -/
structure Staged (files : List OutputFile) (volume : Volume) : Prop
    extends session.Unchanged volume where
  staged : ∀ names, volume.contentAt? (session.place ++ session.stagedNames names) =
    lastGiven? files names
  distinct : volume.DistinctAt session.scratchPlace
  plain : ∀ file ∈ files, Plain (Path.ofText file.path).names
  valid : files ≠ [] → checkPath (session.path (session.stagedNames [])) = .ok ()

theorem scratch_ne_empty : session.scratch ≠ "" := by
  intro empty
  have proper := session.proper
  rw [empty] at proper
  cases proper

variable {session} {volume : Volume} {files : List OutputFile}

theorem Staged.of_grown {after : Volume} (staged : session.Staged files volume)
    (grown : Grown volume after) : session.Staged files after := by
  refine ⟨staged.toUnchanged.of_grown grown, ?_, grown.distinctAt staged.distinct, staged.plain,
    staged.valid⟩
  rw [grown.contentAt?_eq]
  exact staged.staged

variable {σ : Type} [FileSystem (StateM σ)] {view : σ → Volume} {used : List String}

private theorem names_stagedNames (segments : List String) :
    (Path.ofNames (session.stagedNames segments)).names =
      session.stagedNames (Path.ofNames segments).names := by
  have staging : Path.isBlank "staging" = false := by decide
  simp [Path.names, Path.ofNames, within, session.proper, staging]

theorem names_ne_nil {segments : List String} {last : String} (ends : segments.getLast? = some last)
    (proper : Path.isBlank last = false) : (Path.ofNames segments).names ≠ [] := by
  have member : last ∈ (Path.ofNames segments).names := by
    rw [Path.names, List.mem_filter, proper]
    exact ⟨List.mem_of_getLast? ends, rfl⟩
  exact List.ne_nil_of_mem member

private theorem Open.eq_of_leads_staged (isOpen : session.Open volume) {path : Path}
    {reached : List String} (relative : path.absolute = false) (noClimb : path.climbs = false)
    (leads : Leads volume ((session.path (session.stagedNames [])).join path) reached) :
    reached = session.place ++ session.stagedNames path.names ∧ Plain path.names ∧
      checkPath (session.path (session.stagedNames [])) = .ok () := by
  obtain ⟨absolute, segments⟩ := path
  cases relative
  by_cases some : segments = []
  · have closed := leads.endsOpen_eq
    rw [some, Session.path, Path.join_eq _ (session.within_ne_nil _ [])] at closed
    simp [Path.join, Path.endsOpen, within] at closed
  have noUp : ".." ∉ segments := by simpa [Path.climbs] using noClimb
  have stagedNoUp : ".." ∉ session.stagedNames segments := by
    simpa [within] using ⟨Ne.symm session.noUp, noUp⟩
  change Leads _ (Path.join _ (.ofNames segments)) _ at leads
  rw [session.path_join_within (by decide) some] at leads
  obtain ⟨same, last, ends, proper⟩ :=
    isOpen.reaches.eq_of_leads (session.within_ne_nil _ segments) stagedNoUp leads
  rw [within, List.getLast?_cons_cons, List.getLast?_cons_of_ne_nil some] at ends
  refine ⟨?_, ⟨names_ne_nil ends proper, ?_, ?_⟩, ?_⟩
  · rw [same, names_stagedNames]
    rfl
  · intro name member
    simpa using (List.mem_filter.1 member).2
  · exact fun member => noUp (List.mem_filter.1 member).1
  · have valid := leads.checkPath_eq
    rw [Session.path, Path.join_eq _ (session.within_ne_nil _ _)] at valid ⊢
    apply checkPath_of_append (by simp [within])
    rw [List.append_assoc]
    exact valid

theorem Staged.write {file : OutputFile} {after : Volume} (staged : session.Staged files volume)
    (relative : (Path.ofText file.path).absolute = false)
    (noClimb : (Path.ofText file.path).climbs = false)
    (written : volume.write ((session.path (session.stagedNames [])).join (Path.ofText file.path))
      file.content.toUTF8 = .ok after) : session.Staged (files ++ [file]) after := by
  obtain ⟨reached, leads, free, rfl⟩ := write_eq_ok_iff.1 written
  obtain ⟨rfl, plain, valid⟩ := staged.eq_of_leads_staged relative noClimb leads
  obtain ⟨contents, directories⟩ := leads.puts_insert free file.content.toUTF8
  refine ⟨⟨staged.toOpen.of_grows (grows_of_eq directories), ?_⟩, ?_, ?_, ?_, fun _ => valid⟩
  · intro names outside
    have other : names ≠ session.place ++ session.stagedNames (Path.ofText file.path).names :=
      fun same => outside (same ▸ session.scratchPlace_above_within _ _)
    rw [contents, Function.update_of_ne other, staged.others names outside]
  · intro names
    rw [contents, lastGiven?_append]
    by_cases same : (Path.ofText file.path).names = names
    · rw [if_pos same, same, Function.update_self]
    · have other : session.place ++ session.stagedNames names ≠
          session.place ++ session.stagedNames (Path.ofText file.path).names := by
        simpa [within] using Ne.symm same
      rw [if_neg same, Function.update_of_ne other, staged.staged names]
  · obtain ⟨above, name, place, parent⟩ := leads.exists_parent
    rw [place]
    exact staged.distinct.insert parent (.file _)
  · rw [List.forall_mem_append]
    exact ⟨staged.plain, by simpa using plain⟩

theorem ensures_stage (system : Refusing view used) (file : OutputFile) :
    Ensures view (session.Staged files)
      (stage (m := StateM σ) (session.path (session.stagedNames [])) file).run
      (EndsIn (fun _ => session.Staged (files ++ [file])) session.Unchanged) := by
  unfold stage
  dsimp only
  split
  · exact Ensures.throw fun _ staged => staged.toUnchanged
  next inside =>
  rw [Bool.or_eq_true, not_or, Bool.not_eq_true, Bool.not_eq_true] at inside
  have parent := system.ensures_makeParent
    ((session.path (session.stagedNames [])).join (Path.ofText file.path))
    fun _ _ (staged : session.Staged files _) grown => staged.of_grown grown
  have written := @Refusing.ensures_write σ view (session.Staged files) _ used system
    ((session.path (session.stagedNames [])).join (Path.ofText file.path)) file.content.toUTF8
    (session.Staged (files ++ [file])) fun _ _ staged granted => staged.write inside.1 inside.2 granted
  refine (parent.weaken fun _ staged => staged.toUnchanged).andThen fun _ => ?_
  exact Ensures.request (written.weaken fun _ staged => staged.toUnchanged)

/-! ## Listing -/

theorem Staged.isDirectory (staged : session.Staged files volume) (some : files ≠ []) :
    volume.isDirectory (session.path (session.stagedNames [])) = true := by
  obtain ⟨file, member⟩ := List.exists_mem_of_ne_nil files some
  have held : (lastGiven? files (Path.ofText file.path).names).isSome = true :=
    isSome_lastGiven?.2 ⟨file, member, rfl⟩
  rw [← staged.staged, ← session.place_within_append, FileTree.contentAt?_eq] at held
  have directory : volume.isDirectoryAt (session.place ++ session.stagedNames []) = true := by
    apply FileTree.isDirectoryAt_of_below _ (staged.plain file member).nonempty
    intro absent
    rw [absent] at held
    cases held
  have followed := staged.leads.follow_eq (FileTree.isSome_of_isDirectoryAt staged.directory)
  rw [Session.path, Path.join_eq _ (List.cons_ne_nil _ _)] at followed
  have segments : (session.path (session.stagedNames [])).segments =
      (session.root.stem ++ [session.scratch]) ++ ["staging"] := by
    rw [Session.path, Path.join_eq _ (session.within_ne_nil _ []), List.append_assoc]
    rfl
  have leads : Leads volume (session.path (session.stagedNames [])) (session.scratchPlace ++ ["staging"]) :=
    .intro segments (staged.valid some) followed staged.directory (by decide) (by decide) (by decide)
  rw [← session.place_within] at leads
  rw [isDirectory_of_locate (leads.locate_eq (FileTree.isSome_of_isDirectoryAt directory)), directory]

theorem Staged.listing (staged : session.Staged files volume) {tree : FileTree Unit}
    (found : volume.listing (session.path (session.stagedNames [])) = .ok tree) :
    Listed files (tree.orderedFiles.map Prod.fst) := by
  rw [Volume.listing] at found
  cases located : volume.locate (session.path (session.stagedNames [])) with
  | error reason =>
    rw [located] at found
    cases found
  | ok reached =>
    rw [located] at found
    cases staged.eq_of_locate (session.plain_within (plain_singleton (by decide) (by decide))) located
    dsimp only at found
    cases leads : volume.find? (session.place ++ session.stagedNames []) with
    | none =>
      rw [leads] at found
      cases found
    | some inner =>
      rw [leads] at found
      cases found
      have distinct : inner.Distinct := by
        rw [session.place_within, FileTree.find?_append] at leads
        obtain ⟨scratch, found, below⟩ := Option.bind_eq_some_iff.1 leads
        exact (staged.distinct scratch found).find? below
      obtain ⟨ordered, nodup, mem_iff⟩ := (distinct.map fun _ => ()).orderedFiles
      refine ⟨ordered, nodup, fun names => ?_⟩
      have held : inner.contentAt? names = lastGiven? files names := by
        rw [← staged.staged names, ← session.place_within_append, FileTree.contentAt?,
          FileTree.contentAt?, FileTree.find?_append, leads]
        rfl
      rw [mem_iff, FileTree.contentAt?_map, Option.isSome_map, held, isSome_lastGiven?]

theorem ensures_filesBelow (system : Refusing view used) :
    Ensures view (session.Staged files)
      (FileSystem.filesBelow (m := StateM σ) (session.path (session.stagedNames [])))
      (EndsIn (fun listed volume => Listed files listed ∧ session.Staged files volume)
        session.Unchanged) := by
  have asked : Ensures view (session.Staged files)
      (FileSystem.isDirectory (m := StateM σ) (session.path (session.stagedNames [])))
      (fun answer volume => session.Staged files volume ∧
        answer = volume.isDirectory (session.path (session.stagedNames []))) :=
    ensures_of_mirrored (system.isDirectory _) fun _ staged => ⟨staged, rfl⟩
  rw [FileSystem.filesBelow]
  refine asked.bind fun answer => ?_
  cases answer with
  | false =>
    refine Ensures.pure fun volume holds => ?_
    obtain ⟨staged, no⟩ := holds
    have none : files = [] := by
      by_contra some
      rw [staged.isDirectory some] at no
      cases no
    subst none
    exact ⟨⟨List.Pairwise.nil, List.nodup_nil, by simp⟩, staged⟩
  | true =>
    have listed : Ensures view
        (fun volume => session.Staged files volume ∧
          true = volume.isDirectory (session.path (session.stagedNames [])))
        (FileSystem.listing (m := StateM σ) (session.path (session.stagedNames [])))
        (EndsIn (fun tree volume => Listed files (tree.orderedFiles.map Prod.fst) ∧
          session.Staged files volume) session.Unchanged) := by
      apply ensures_of_refusing (system.listing _)
      · intro volume holds
        change EndsIn _ _ (volume.listing (session.path (session.stagedNames []))) volume
        cases found : volume.listing (session.path (session.stagedNames [])) with
        | error reason => exact holds.1.toUnchanged
        | ok tree => exact ⟨holds.1.listing found, holds.1⟩
      · exact fun _ holds => holds.1.toUnchanged
    refine listed.bind fun result => ?_
    cases result with
    | error reason => exact Ensures.pure fun _ holds => holds
    | ok tree => exact Ensures.pure fun _ holds => holds

end Session

end Publication

end GraphqlStore
