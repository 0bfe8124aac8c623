import GraphqlStore.Proofs.Rollback

/-!
Output files are written as a whole or not at all, on every file system that
answers requests as a volume does or refuses them. While staged files are moved
to their places, the changes made so far can be taken back at every moment.
Main statements: after a failure every file holds what it held before; after a
success the files hold what they held before, but for the given ones.
-/

set_option autoImplicit false

namespace GraphqlStore

namespace Publication

open Volume

namespace Session

variable {session : Session} {names : List String} {placed : List (List String)} {change : Change}
  {done : List Change} {files : List OutputFile} {volume after : Volume} {σ : Type}
  [FileSystem (StateM σ)] {view : σ → Volume} {used : List String}

/-! ## Placing -/

variable (session)

/-- Files are given for all names, and each is placed once. -/
structure Schedule (files : List OutputFile) (placed rest : List (List String)) : Prop where
  given : ∀ names ∈ placed ++ rest, (lastGiven? files names).isSome = true
  targets : ∀ names ∈ placed ++ rest, session.IsTarget names
  unplaced : ∀ names ∈ rest, names ∉ placed
  nodup : rest.Nodup

/-- Some of the listed files are in their places, and the rest are staged. -/
structure Placing (files : List OutputFile) (placed rest : List (List String)) (done : List Change)
    (volume : Volume) : Prop extends session.Restorable placed done volume where
  schedule : session.Schedule files placed rest
  filled : ∀ names ∈ placed, volume.contentAt? (session.place ++ names) = lastGiven? files names
  waiting : ∀ names ∈ rest, volume.contentAt? (session.place ++ session.stagedNames names) =
    lastGiven? files names

/-- There is room for the next file: the change that places it can be taken back, or is announced
and its path leads nowhere. -/
structure Room (files : List OutputFile) (placed rest : List (List String)) (done : List Change)
    (names : List String) (change : Change) (volume : Volume) : Prop where
  schedule : session.Schedule files placed (names :: rest)
  target_eq : change.target = session.path names
  filled : ∀ other ∈ placed, volume.contentAt? (session.place ++ other) = lastGiven? files other
  waiting : ∀ other ∈ names :: rest,
    volume.contentAt? (session.place ++ session.stagedNames other) = lastGiven? files other
  restores : session.Restorable (names :: placed) (change :: done) volume ∨
    change = .created (session.path names) ∧ session.Restorable placed done volume ∧
      ∀ reached, volume.locate (session.path names) ≠ .ok reached

variable {session} {rest : List (List String)}

theorem Schedule.next (schedule : session.Schedule files placed (names :: rest)) :
    session.Schedule files (names :: placed) rest := by
  obtain ⟨given, targets, unplaced, nodup⟩ := schedule
  have reordered : ∀ other ∈ names :: placed ++ rest, other ∈ placed ++ names :: rest := by
    intro other member
    simpa [or_left_comm] using member
  rw [List.forall_mem_cons] at unplaced
  rw [List.nodup_cons] at nodup
  refine ⟨fun other member => given other (reordered other member),
    fun other member => targets other (reordered other member), fun other member => ?_, nodup.2⟩
  · rw [List.mem_cons, not_or]
    refine ⟨?_, unplaced.2 other member⟩
    intro same
    exact nodup.1 (same ▸ member)

theorem Schedule.apart (schedule : session.Schedule files placed (names :: rest)) :
    ∀ other ∈ placed, other ≠ names :=
  fun _ member same => schedule.unplaced names List.mem_cons_self (same ▸ member)

theorem Placing.of_grown (placing : session.Placing files placed rest done volume)
    (grown : Grown volume after) : session.Placing files placed rest done after := by
  have same := grown.contentAt?_eq
  refine ⟨placing.toRestorable.transfer grown.grows ?_ ?_ ?_, placing.schedule, ?_, ?_⟩
  · exact fun names _ _ => congrFun same names
  · exact fun names _ => congrFun same _
  · intro names member _
    have given := placing.schedule.given names (List.mem_append_left _ member)
    rw [← placing.filled names member, ← same] at given
    obtain ⟨content, held⟩ := Option.isSome_iff_exists.1 given
    exact FileTree.isDirectoryAt_of_contentAt? held
  · rw [same]
    exact placing.filled
  · rw [same]
    exact placing.waiting

private theorem Placing.announce
    (placing : session.Placing files placed (names :: rest) done volume)
    (absent : volume.isPresent (session.path names) = false) :
    session.Room files placed rest done names (.created (session.path names)) volume := by
  refine ⟨placing.schedule, rfl, placing.filled, placing.waiting, .inr ⟨rfl, placing.toRestorable, ?_⟩⟩
  intro reached located
  have present := isSome_of_locate located
  rw [Volume.isPresent, Volume.at?, located, FileTree.isSome_find?, present] at absent
  cases absent

/-! A file at its target, its backup and its staged file stand in three places, and those of other
files in others. -/

theorem place_append_ne {first second : List String} (different : first ≠ second) :
    session.place ++ first ≠ session.place ++ second := by
  simpa using different

theorem IsTarget.ne_of_inside (target : session.IsTarget names) {other : List String}
    (inside : session.scratchPlace <+: other) : other ≠ session.place ++ names :=
  fun same => target.outside (same ▸ inside)

theorem staged_ne_backup (first second : List String) :
    session.place ++ session.stagedNames first ≠ session.place ++ session.backupNames second := by
  simp [within]

theorem Placing.backUp (placing : session.Placing files placed (names :: rest) done volume)
    (moved : volume.move (session.path names) (session.path (session.backupNames names)) = .ok after) :
    session.Room files placed rest done names
      (.replaced (session.path names) (session.path (session.backupNames names))) after := by
  have target := placing.schedule.targets names (by simp)
  have apart := placing.schedule.apart
  obtain ⟨start, finish, content, located, held, leadsBackup, freeBackup, rfl⟩ := move_eq_ok_iff.1 moved
  have leads := placing.leads_of_locate target.toPlain located
  cases placing.eq_of_locate target.toPlain located
  cases placing.eq_of_leads (session.plain_within (target.toPlain.cons (by decide) (by decide))) leadsBackup
  have moves := moves_of_leads held leadsBackup freeBackup
  refine ⟨placing.schedule, rfl, ?_, ?_, .inl ?_⟩
  · intro other member
    rw [moves.contentAt?_of_ne (place_append_ne (apart other member)), placing.filled other member]
    exact ((placing.targets other member).ne_of_inside (session.scratchPlace_above_within _ names)).symm
  · intro other member
    rw [moves.contentAt?_of_ne (target.ne_of_inside (session.scratchPlace_above_within _ other))
      (staged_ne_backup other names), placing.waiting other member]
  · apply placing.toRestorable.step target (placing.schedule.unplaced names List.mem_cons_self)
      moves.directories
    · intro other outside different
      apply moves.contentAt?_of_ne different
      exact fun same => outside (same ▸ session.scratchPlace_above_within _ names)
    · intro other member
      apply moves.contentAt?_of_ne (target.ne_of_inside (session.scratchPlace_above_within _ other))
      simpa [within] using apart other member
    · have grows := grows_of_eq moves.directories
      have before := placing.others _ target.outside
        fun other member => place_append_ne (apart other member).symm
      refine .replaced (before.symm.trans held) ?_ (leads.of_grows grows) (leadsBackup.of_grows grows) ?_
      · rw [moves.contents, Function.update_self]
      · rw [moves.directories]
        exact FileTree.isDirectoryAt_of_contentAt? held

theorem Room.isOpen (room : session.Room files placed rest done names change volume) :
    session.Open volume := by
  cases room.restores with
  | inl restorable => exact restorable.toOpen
  | inr announced => exact announced.2.1.toOpen

theorem Room.undoable (room : session.Room files placed rest done names change volume) :
    session.Restores (change :: done) volume := by
  cases room.restores with
  | inl restorable => exact .inl ⟨_, restorable⟩
  | inr announced =>
    obtain ⟨rfl, restorable, nowhere⟩ := announced
    exact .inr ⟨_, placed, done, rfl, restorable, nowhere⟩

theorem Room.publish (room : session.Room files placed rest done names change volume)
    (moved : volume.move (session.path (session.stagedNames names)) (session.path names) = .ok after) :
    session.Placing files (names :: placed) rest (change :: done) after := by
  have target := room.schedule.targets names (by simp)
  have apart := room.schedule.apart
  obtain ⟨start, finish, content, located, held, leads, free, rfl⟩ := move_eq_ok_iff.1 moved
  cases room.isOpen.eq_of_locate (session.plain_within (target.toPlain.cons (by decide) (by decide))) located
  cases room.isOpen.eq_of_leads target.toPlain leads
  have moves := moves_of_leads held leads free
  have grows := grows_of_eq moves.directories
  have outsideKept : ∀ other, ¬ session.scratchPlace <+: other → other ≠ session.place ++ names → _ :=
    fun other outside => moves.contentAt?_of_ne
      fun same => outside (same ▸ session.scratchPlace_above_within _ names)
  have backupsKept : ∀ other, _ := fun other =>
    moves.contentAt?_of_ne (staged_ne_backup names other).symm
      (target.ne_of_inside (session.scratchPlace_above_within _ other))
  refine ⟨?_, room.schedule.next, ?_, ?_⟩
  · cases room.restores with
    | inl restorable =>
      apply restorable.transfer grows
      · intro other outside notPlaced
        exact outsideKept other outside (notPlaced names List.mem_cons_self)
      · exact fun other _ => backupsKept other
      · rw [moves.directories]
        exact fun _ _ => id
    | inr announced =>
      obtain ⟨rfl, restorable, nowhere⟩ := announced
      apply restorable.step target (room.schedule.unplaced names List.mem_cons_self) moves.directories
        outsideKept fun other _ => backupsKept other
      refine .created ?_ (leads.of_grows grows)
      rw [← restorable.others _ target.outside
        fun other member => place_append_ne (apart other member).symm]
      by_contra present
      obtain ⟨content, present⟩ := Option.ne_none_iff_exists'.1 present
      exact nowhere _ (leads.locate_eq (FileTree.isSome_of_contentAt? present))
  · rw [List.forall_mem_cons]
    constructor
    · rw [moves.contents, Function.update_self, ← held, room.waiting names List.mem_cons_self]
    · intro other member
      have otherTarget := room.schedule.targets other (List.mem_append_left _ member)
      rw [moves.contentAt?_of_ne _ (place_append_ne (apart other member)), room.filled other member]
      exact (otherTarget.ne_of_inside (session.scratchPlace_above_within _ names)).symm
  · intro other member
    have different : other ≠ names := by
      intro same
      exact (List.nodup_cons.1 room.schedule.nodup).1 (same ▸ member)
    rw [moves.contentAt?_of_ne _ (target.ne_of_inside (session.scratchPlace_above_within _ other)),
      room.waiting other (List.mem_cons_of_mem _ member)]
    simpa [within] using different

private theorem ensures_makeRoom (system : Refusing view used) :
    Ensures view (session.Placing files placed (names :: rest) done)
      (makeRoom (m := StateM σ) (session.path (session.backupNames [])) session.root names).run
      (EndsIn (session.Room files placed rest done names) (session.Restores done)) := by
  have restores : ∀ volume, session.Placing files placed (names :: rest) done volume →
      session.Restores done volume := fun _ placing => .inl ⟨placed, placing.toRestorable⟩
  have parent : ∀ path, Ensures view (session.Placing files placed (names :: rest) done)
      (makeParent (m := StateM σ) path).run
      (EndsIn (fun _ => session.Placing files placed (names :: rest) done) (session.Restores done)) :=
    fun path => (system.ensures_makeParent path fun _ _ placing grown => placing.of_grown grown).weaken
      restores
  have isDirectory : Ensures view (session.Placing files placed (names :: rest) done)
      (FileSystem.isDirectory (m := StateM σ) (session.path names))
      (fun _ => session.Placing files placed (names :: rest) done) :=
    ensures_of_mirrored (system.isDirectory _) fun _ placing => placing
  have isPresent : Ensures view (session.Placing files placed (names :: rest) done)
      (FileSystem.isPresent (m := StateM σ) (session.path names))
      (fun answer volume => session.Placing files placed (names :: rest) done volume ∧
        answer = volume.isPresent (session.path names)) :=
    ensures_of_mirrored (system.isPresent _) fun _ placing => ⟨placing, rfl⟩
  have backedUp : Ensures view (session.Placing files placed (names :: rest) done)
      (FileSystem.move (m := StateM σ) (session.path names) (session.path (session.backupNames names)))
      (EndsIn (fun _ => session.Room files placed rest done names
          (.replaced (session.path names) (session.path (session.backupNames names))))
        (session.Restores done)) :=
    (system.ensures_move fun _ _ placing moved => placing.backUp moved).weaken restores
  refine Ensures.assuming (fun _ placing => placing.schedule) fun schedule => ?_
  have nonempty := (schedule.targets names (by simp)).nonempty
  unfold makeRoom
  rw [session.path_join_within (by decide) nonempty]
  refine isDirectory.lift.andThen fun occupied => ?_
  cases occupied with
  | true => exact Ensures.throw restores
  | false =>
    refine (parent _).andThen fun _ => isPresent.lift.andThen fun present => ?_
    cases present with
    | false => exact Ensures.pure fun _ holds => holds.1.announce holds.2.symm
    | true =>
      refine ((parent _).of_imp fun _ holds => holds.1).andThen fun _ => ?_
      exact backedUp.request.andThen fun _ => Ensures.pure fun _ room => room

/-- The changes made by the end: all files are in their places, or what was done can be undone. -/
def Ended (session : Session) (files : List OutputFile) (listed : List (List String)) :
    List Change × Option PublishError → Volume → Prop
  | (changes, none), volume =>
      ∃ placed, placed.reverse = listed ∧ session.Placing files placed [] changes volume
  | (changes, some _), volume => session.Restores changes volume

private theorem ensures_placeAll (system : Refusing view used) (placed rest : List (List String))
    (done : List Change) :
    Ensures view (session.Placing files placed rest done)
      (placeAll (m := StateM σ) (session.path (session.stagedNames []))
        (session.path (session.backupNames [])) session.root done rest)
      (session.Ended files (placed.reverse ++ rest)) := by
  -- `Placing` is the invariant: what is in its place can be taken back, and the rest is staged.
  induction rest generalizing placed done with
  | nil =>
    refine Ensures.pure fun volume placing => ⟨placed, ?_, placing⟩
    rw [List.append_nil]
  | cons names rest ih =>
    refine Ensures.assuming (fun _ placing => placing.schedule) fun schedule => ?_
    have nonempty := (schedule.targets names (by simp)).nonempty
    rw [placeAll, session.path_join_within (by decide) nonempty]
    refine (ensures_makeRoom system).bind fun result => ?_
    cases result with
    | error reason => exact Ensures.pure fun _ restores => restores
    | ok change =>
      refine Ensures.assuming (fun _ room => Room.target_eq room) fun target => ?_
      dsimp only
      rw [target]
      have moved : Ensures view (session.Room files placed rest done names change)
          (FileSystem.move (m := StateM σ) (session.path (session.stagedNames names))
            (session.path names))
          (EndsIn (fun _ => session.Placing files (names :: placed) rest (change :: done))
            (session.Restores (change :: done))) :=
        (system.ensures_move fun _ _ room moved => room.publish moved).weaken
          fun _ room => room.undoable
      refine moved.bind fun result => ?_
      cases result with
      | error reason => exact Ensures.pure fun _ restores => restores
      | ok _ =>
        have later := ih (names :: placed) (change :: done)
        rwa [List.reverse_cons, List.append_assoc, List.singleton_append] at later

/-! ## The whole work -/

theorem Staged.placing (staged : session.Staged files volume) {listed : List (List String)}
    (isListed : Listed files listed) (fresh : session.scratch ∉ firstNames files) :
    session.Placing files [] listed [] volume := by
  have restorable : session.Restorable [] [] volume :=
    ⟨staged.toOpen, fun names outside _ => staged.others names outside, .nil, List.nodup_nil, by simp⟩
  refine ⟨restorable, ⟨?_, ?_, by simp, isListed.nodup⟩, by simp, fun names _ => staged.staged names⟩
  · intro names member
    exact isSome_lastGiven?.2 ((isListed.mem_iff names).1 member)
  · intro names member
    obtain ⟨file, given, rfl⟩ := (isListed.mem_iff names).1 member
    refine ⟨staged.plain file given, fun first => fresh ?_⟩
    exact List.mem_filterMap.2 ⟨file, given, first⟩

/-- All files are in their places, which are listed in order. -/
def Published (session : Session) (files : List OutputFile) (published : List Path)
    (volume : Volume) : Prop :=
  ∃ placed changes, Listed files placed.reverse ∧ published = placed.reverse.map session.path ∧
    session.Placing files placed [] changes volume

private theorem Restorable.map_target (restorable : session.Restorable placed done volume) :
    done.map Change.target = placed.map session.path := by
  have changes := restorable.changes
  clear restorable
  induction changes with
  | nil => rfl
  | cons undoable _ ih => rw [List.map_cons, List.map_cons, undoable.target_eq, ih]

private theorem ensures_publish (system : Refusing view used)
    (fresh : session.scratch ∉ firstNames files) :
    Ensures view (session.Staged files)
      (publish (m := StateM σ) (session.path (session.stagedNames []))
        (session.path (session.backupNames [])) session.root).run
      (EndsIn (session.Published files) session.Unchanged) := by
  unfold publish
  refine (ensures_filesBelow system).request.andThen fun listed => ?_
  refine Ensures.assuming (fun _ holds => holds.1) fun isListed => ?_
  have placed : Ensures view (fun volume => Listed files listed ∧ session.Staged files volume)
      (placeAll (m := StateM σ) (session.path (session.stagedNames []))
        (session.path (session.backupNames [])) session.root [] listed)
      (session.Ended files listed) :=
    (ensures_placeAll system [] listed []).of_imp fun _ holds => holds.2.placing isListed fresh
  refine placed.bind fun result => ?_
  obtain ⟨changes, failure⟩ := result
  cases failure with
  | none =>
    refine Ensures.pure fun volume ended => ?_
    obtain ⟨placed, same, placing⟩ := ended
    refine ⟨placed, changes, same ▸ isListed, ?_, placing⟩
    rw [placing.map_target, List.map_reverse]
  | some reason =>
    refine (ensures_undo_restores system changes).bind fun _ => ?_
    exact Ensures.pure fun _ unchanged => unchanged

private theorem lastGiven?_eq_none {files : List OutputFile} {scratch : String}
    (fresh : scratch ∉ firstNames files) (rest : List String) :
    lastGiven? files (scratch :: rest) = none := by
  by_contra given
  obtain ⟨file, member, same⟩ := isSome_lastGiven?.1 (Option.isSome_iff_ne_none.2 given)
  apply fresh
  rw [firstNames, List.mem_filterMap]
  exact ⟨file, member, by rw [same]; rfl⟩

theorem Published.contentAt?_removeTree {published : List Path}
    (isPublished : session.Published files published volume)
    (fresh : session.scratch ∉ firstNames files) (names : List String) :
    (volume.removeTree (session.path [session.scratch])).contentAt? (session.place ++ names) =
      (lastGiven? files names).or (session.origin.contentAt? (session.place ++ names)) := by
  obtain ⟨placed, changes, isListed, _, placing⟩ := isPublished
  obtain ⟨below, others⟩ := removeTree_of_leads placing.leads placing.directory
  by_cases inside : session.scratchPlace <+: session.place ++ names
  · have absent : session.origin.contentAt? (session.place ++ names) = none := by
      obtain ⟨rest, same⟩ := inside
      rw [← same, session.contentAt?_origin]
    obtain ⟨rest, rfl⟩ : [session.scratch] <+: names := by
      rwa [scratchPlace, List.prefix_append_right_inj] at inside
    rw [List.singleton_append] at absent ⊢
    rw [absent, lastGiven?_eq_none fresh]
    have removed := below rest
    rwa [scratchPlace, List.append_assoc, List.singleton_append] at removed
  · rw [FileTree.contentAt?_eq, others _ inside, ← FileTree.contentAt?_eq]
    by_cases member : names ∈ placed
    · have given := placing.schedule.given names (List.mem_append_left _ member)
      obtain ⟨content, given⟩ := Option.isSome_iff_exists.1 given
      rw [placing.filled names member, given, Option.some_or]
    · have notGiven : lastGiven? files names = none := by
        by_contra given
        have listed := (isListed.mem_iff names).2
          (isSome_lastGiven?.1 (Option.isSome_iff_ne_none.2 given))
        exact member (List.mem_reverse.1 listed)
      rw [notGiven, Option.none_or]
      apply placing.others _ inside
      intro target placed same
      rw [List.append_cancel_left_eq] at same
      exact member (same ▸ placed)

private theorem Published.contentAt?_other {published : List Path}
    (isPublished : session.Published files published volume) {names : List String}
    (outside : ¬ session.place <+: names) :
    (volume.removeTree (session.path [session.scratch])).contentAt? names =
      session.origin.contentAt? names := by
  obtain ⟨placed, changes, _, _, placing⟩ := isPublished
  obtain ⟨_, others⟩ := removeTree_of_leads placing.leads placing.directory
  have apart : ¬ session.scratchPlace <+: names :=
    fun inside => outside ((List.prefix_append _ _).trans inside)
  rw [FileTree.contentAt?_eq, others names apart, ← FileTree.contentAt?_eq]
  apply placing.others names apart
  intro target _ same
  exact outside (same ▸ List.prefix_append _ _)

private theorem Open.reaches_removeTree (isOpen : session.Open volume) :
    Reaches (volume.removeTree (session.path [session.scratch])) session.root session.place := by
  apply session.reaches.of_grows
  intro place directory
  obtain ⟨_, others⟩ := removeTree_of_leads isOpen.leads isOpen.directory
  have apart : ¬ session.scratchPlace <+: place := by
    intro inside
    obtain ⟨rest, rfl⟩ := inside
    rw [FileTree.isDirectoryAt_iff, session.entryAt?_origin] at directory
    cases directory
  rw [FileTree.isDirectoryAt_iff, others place apart, ← FileTree.isDirectoryAt_iff]
  exact isOpen.grows place directory

theorem path_join_scratch (name : String) :
    (session.path [session.scratch]).join (.ofNames [name]) = session.path [session.scratch, name] :=
  @Path.join_join session.root [] [name] session.scratch session.scratch_ne_empty
    (List.cons_ne_nil _ _)

/-- The given files are below the root, every other file is as before, and the places of the given
files are listed in order. -/
structure Written (root : Path) (files : List OutputFile) (before : List String → Option ByteArray)
    (published : List Path) (place : List String) (listed : List (List String)) (volume : Volume) :
    Prop where
  located : follow volume [] root.segments = .ok place
  given : ∀ names, volume.contentAt? (place ++ names) =
    (lastGiven? files names).or (before (place ++ names))
  others : ∀ names, ¬ place <+: names → volume.contentAt? names = before names
  isListed : Listed files listed
  published_eq : published = listed.map fun names => root.join (.ofNames names)

private theorem ensures_session (system : Refusing view used)
    (fresh : session.scratch ∉ firstNames files) :
    Ensures view (session.Staged [])
      (removing (m := StateM σ) (session.path [session.scratch]) do
        files.forM (stage ((session.path [session.scratch]).join (.ofNames ["staging"])))
        publish ((session.path [session.scratch]).join (.ofNames ["staging"]))
          ((session.path [session.scratch]).join (.ofNames ["backup"])) session.root).run
      (EndsIn (fun published volume => ∃ place listed,
          Written session.root files session.origin.contentAt? published place listed volume)
        (fun volume => volume.contentAt? = session.origin.contentAt?)) := by
  rw [path_join_scratch, path_join_scratch]
  have staged : Ensures view (session.Staged [])
      (files.forM (stage (m := StateM σ) (session.path (session.stagedNames [])))).run
      (EndsIn (fun _ => session.Staged files) session.Unchanged) :=
    Ensures.forM (fun _ => ensures_stage system) [] files
  have worked := staged.andThen fun _ => ensures_publish system fresh
  refine worked.bind fun result => ?_
  cases result with
  | ok published =>
    have removed : Ensures view (session.Published files published)
        (FileSystem.removeScratch (m := StateM σ) (session.path [session.scratch]))
        (fun _ volume => ∃ place listed,
          Written session.root files session.origin.contentAt? published place listed volume) := by
      refine ensures_of_mirrored (system.removeScratch _) fun volume isPublished => ?_
      have given := isPublished.contentAt?_removeTree fresh
      have others := fun names (outside : ¬ session.place <+: names) =>
        isPublished.contentAt?_other outside
      obtain ⟨placed, changes, isListed, same, placing⟩ := isPublished
      exact ⟨session.place, placed.reverse, placing.reaches_removeTree.follow_segments, given, others,
        isListed, same⟩
    exact removed.bind fun _ => Ensures.pure fun _ written => written
  | error reason =>
    have removed : Ensures view session.Unchanged
        (FileSystem.removeScratch (m := StateM σ) (session.path [session.scratch]))
        (fun _ volume => volume.contentAt? = session.origin.contentAt?) :=
      ensures_of_mirrored (system.removeScratch _) fun _ unchanged => unchanged.contentAt?_removeTree
    exact removed.bind fun _ => Ensures.pure fun _ same => same

end Session

/-! ## Main statements -/

section

variable {σ : Type} [FileSystem (StateM σ)] {view : σ → Volume} {root : Path} {files : List OutputFile}

theorem proper_scratch (ending : String) : Path.isBlank (scratchStart ++ ending) = false := by
  rw [Path.isBlank, Bool.or_eq_false_iff, beq_eq_false_iff_ne, beq_eq_false_iff_ne]
  constructor
  · intro same
    have characters := congrArg String.toList same
    simp [scratchStart] at characters
  · intro same
    have characters := congrArg String.toList same
    simp [scratchStart] at characters

private theorem scratch_ne_up (ending : String) : scratchStart ++ ending ≠ ".." := by
  intro same
  have characters := congrArg String.toList same
  simp [scratchStart] at characters

private theorem exists_session {volume made : Volume} {ending : String}
    (granted : volume.makeDirectory (root.join (.ofNames [scratchStart ++ ending])) = .ok made) :
    ∃ session : Session, session.root = root ∧ session.scratch = scratchStart ++ ending ∧
      session.origin = volume ∧ session.Staged [] made := by
  obtain ⟨place, reaches, leads, absent, rfl⟩ :=
    reaches_of_makeDirectory (proper_scratch ending) granted
  have grown : Grown volume (volume.insert (place ++ [scratchStart ++ ending]) (.directory [])) :=
    .step .refl reaches.directory absent
  let session : Session := ⟨root, place, scratchStart ++ ending, volume, reaches, leads, absent,
    proper_scratch ending, scratch_ne_up ending⟩
  refine ⟨session, rfl, rfl, rfl, ⟨⟨⟨grown.grows, ?_⟩, ?_⟩, ?_, grown.distinctAt ?_, by simp, by simp⟩⟩
  · rw [FileTree.isDirectoryAt_iff, FileTree.entryAt?_insert_directory reaches.directory absent]
    exact Function.update_self _ _ _
  · exact fun names _ => congrFun grown.contentAt?_eq names
  · intro names
    rw [grown.contentAt?_eq, session.place_within]
    exact session.contentAt?_origin _
  · intro found leads
    rw [FileTree.entryAt?] at absent
    rw [Session.scratchPlace] at leads
    rw [leads] at absent
    cases absent

private theorem ensures_writeAll (system : Refusing view (firstNames files))
    (before : List String → Option ByteArray) :
    Ensures view (fun volume => volume.contentAt? = before)
      (writeAll (m := StateM σ) root files).run
      (EndsIn (fun published volume => ∃ place listed,
          Session.Written root files before published place listed volume)
        (fun volume => volume.contentAt? = before)) := by
  have made : Ensures view (fun volume => volume.contentAt? = before)
      (FileSystem.makeDirectories (m := StateM σ) root)
      (EndsIn (fun _ volume => volume.contentAt? = before)
        (fun volume => volume.contentAt? = before)) :=
    system.ensures_makeDirectories root fun _ _ same grown => grown.contentAt?_eq.trans same
  have scratch : Ensures view (fun volume => volume.contentAt? = before)
      (FileSystem.makeScratch (m := StateM σ) root scratchStart)
      (EndsIn (fun path volume => ∃ session : Session, session.root = root ∧
          path = session.path [session.scratch] ∧ session.origin.contentAt? = before ∧
          session.scratch ∉ firstNames files ∧ session.Staged [] volume)
        (fun volume => volume.contentAt? = before)) := by
    refine system.ensures_makeScratch fun volume made ending same fresh granted => ?_
    obtain ⟨session, rfl, name, rfl, staged⟩ := exists_session granted
    refine ⟨session, rfl, ?_, same, name ▸ fresh, staged⟩
    rw [name]
    rfl
  unfold writeAll
  refine made.request.andThen fun _ => scratch.request.andThen fun path => ?_
  intro state holds
  obtain ⟨session, rfl, rfl, rfl, fresh, staged⟩ := holds
  exact Session.ensures_session system fresh state staged

/-- If output files are not written, every file holds what it held before, and there is no other
file. Requests may be refused at any moment. -/
theorem contents_of_failed (system : Refusing view (firstNames files)) {start finish : σ}
    {reason : PublishError}
    (failed : (writeAll (m := StateM σ) root files).run start = (.error reason, finish)) :
    ∀ names, (view finish).contentAt? names = (view start).contentAt? names := by
  have ensured := @ensures_writeAll σ _ view root files system (view start).contentAt? start rfl
  rw [failed] at ensured
  exact congrFun ensured

/-- A volume with one file below the root and one beside it. -/
def earlier : Volume :=
  .directory [("out", .directory [("b", .directory [("c.txt", .file "old".toUTF8)])]),
    ("notes.txt", .file "kept".toUTF8)]

def respelled : List OutputFile := [⟨"b/c.txt", "first"⟩, ⟨"b//./c.txt", "last"⟩]

private theorem scratch_unused (ending : String) :
    scratchStart ++ ending ∉ firstNames respelled := by
  have names : firstNames respelled = ["b", "b"] := by decide +kernel
  rw [names]
  intro used
  have characters : (scratchStart ++ ending).toList = ['b'] := by
    simp only [List.mem_cons, List.not_mem_nil, or_false, or_self] at used
    rw [used]
    rfl
  simp [scratchStart] at characters

/-- The move to the place is refused after the old file has become a backup. -/
theorem contents_of_failed_respelled :
    let work := (writeAll (m := StateM PlannedVolume) (.ofNames ["out"]) respelled).run
    let start : PlannedVolume := ⟨earlier, List.replicate 10 none ++ [some (.other "full")]⟩
    (work start).1 = .error (.publish (.ofNames ["out", "b", "c.txt"]) (.other "full")) ∧
      ∀ names, (work start).2.volume.contentAt? names = earlier.contentAt? names := by
  intro work start
  have failed : (work start).1 = .error (.publish (.ofNames ["out", "b", "c.txt"]) (.other "full")) := by
    decide +kernel
  exact ⟨failed, contents_of_failed (PlannedVolume.refusing scratch_unused) (Prod.ext failed rfl)⟩

/-- If output files are written, the last of the files with some names stands at these names below
the root, and every other file is as before. The result lists the places of the files once each and
in order. -/
theorem contents_of_written (system : Refusing view (firstNames files)) {start finish : σ}
    {published : List Path}
    (written : (writeAll (m := StateM σ) root files).run start = (.ok published, finish)) :
    ∃ (place : List String) (listed : List (List String)),
      follow (view finish) [] root.segments = .ok place ∧
      (∀ names, (view finish).contentAt? (place ++ names) =
        (lastGiven? files names).or ((view start).contentAt? (place ++ names))) ∧
      (∀ names, ¬ place <+: names → (view finish).contentAt? names = (view start).contentAt? names) ∧
      published = listed.map (fun names => root.join (.ofNames names)) ∧
      listed.Pairwise (fun first second => FileTree.namesLe first second = true) ∧ listed.Nodup ∧
      ∀ names, names ∈ listed ↔ ∃ file ∈ files, (Path.ofText file.path).names = names := by
  have ensured := @ensures_writeAll σ _ view root files system (view start).contentAt? start rfl
  rw [written] at ensured
  obtain ⟨place, listed, located, given, others, isListed, same⟩ := ensured
  exact ⟨place, listed, located, given, others, same, isListed.ordered, isListed.nodup,
    isListed.mem_iff⟩

theorem contents_of_written_respelled :
    let work := (writeAll (m := StateM Volume) (.ofNames ["out"]) respelled).run
    (work earlier).1 = .ok [.ofNames ["out", "b", "c.txt"]] ∧
      (work earlier).2.contentAt? ["out", "b", "c.txt"] = some "last".toUTF8 ∧
      (work earlier).2.contentAt? ["notes.txt"] = some "kept".toUTF8 := by
  intro work
  have written : (work earlier).1 = .ok [.ofNames ["out", "b", "c.txt"]] := by decide +kernel
  have found : follow (work earlier).2 [] ["out"] = .ok ["out"] := by decide +kernel
  have last : lastGiven? respelled ["b", "c.txt"] = some "last".toUTF8 := by decide +kernel
  have kept : earlier.contentAt? ["notes.txt"] = some "kept".toUTF8 := by decide +kernel
  obtain ⟨place, listed, located, given, others, -⟩ :=
    contents_of_written (Volume.refusing scratch_unused) (Prod.ext written rfl)
  obtain rfl : ["out"] = place := Except.ok.inj (found.symm.trans located)
  refine ⟨written, ?_, ?_⟩
  · exact (given ["b", "c.txt"]).trans (by rw [last]; rfl)
  · exact (others ["notes.txt"] (by decide)).trans kept

end

end Publication

end GraphqlStore
