import GraphqlStore.Files.Volume
import GraphqlStore.Proofs.Sequences
import GraphqlStore.Proofs.TreeEntries

/-!
What requests do to a volume. A path that ends with a name leads to a place in
a directory. Requests that are granted change what one file holds, or make
directories, and nothing else; where a path leads hangs on directories only.
-/

set_option autoImplicit false

namespace GraphqlStore

namespace Volume

/-! ## Following segments -/

theorem follow_cons_eq_ok_iff {volume : Volume} {place reached : List String} {segment : String}
    {rest : List String} :
    follow volume place (segment :: rest) = .ok reached ↔
      volume.isDirectoryAt place = true ∧
        if Path.isBlank segment = true then follow volume place rest = .ok reached
        else if segment = ".." then follow volume place.dropLast rest = .ok reached
        else checkName segment = .ok () ∧ (volume.entryAt? (place ++ [segment])).isSome = true ∧
          follow volume (place ++ [segment]) rest = .ok reached := by
  rw [follow, checkDirectory, FileTree.isSome_find?]
  cases volume.isDirectoryAt place with
  | false => simp [bind, Except.bind]
  | true =>
    simp only [if_true, true_and, bind, Except.bind]
    split
    · rfl
    split
    · rfl
    cases checkName segment with
    | error reason => simp
    | ok checked =>
      cases (volume.entryAt? (place ++ [segment])).isSome <;> simp

theorem follow_append_eq_ok_iff {volume : Volume} {place reached first second : List String} :
    follow volume place (first ++ second) = .ok reached ↔
      ∃ between, follow volume place first = .ok between ∧
        follow volume between second = .ok reached := by
  induction first generalizing place with
  | nil => simp [follow]
  | cons segment rest ih =>
    rw [List.cons_append]
    simp only [follow_cons_eq_ok_iff, ih]
    split
    · simp [and_assoc]
    split
    · simp [and_assoc]
    · simp [and_assoc]

private theorem isSome_of_follow {volume : Volume} {place reached segments : List String}
    (followed : follow volume place segments = .ok reached)
    (present : (volume.entryAt? place).isSome = true) :
    (volume.entryAt? reached).isSome = true := by
  induction segments generalizing place with
  | nil =>
    cases followed
    exact present
  | cons segment rest ih =>
    obtain ⟨directory, followed⟩ := follow_cons_eq_ok_iff.1 followed
    split at followed
    · exact ih followed present
    split at followed
    · apply ih followed
      cases List.eq_nil_or_concat' place with
      | inl empty => rwa [empty] at present ⊢
      | inr split =>
        obtain ⟨above, name, rfl⟩ := split
        rw [List.dropLast_concat]
        have aboveDirectory := FileTree.isDirectoryAt_of_below
          (Option.isSome_iff_ne_none.1 present) (List.cons_ne_nil name [])
        exact FileTree.isSome_of_isDirectoryAt aboveDirectory
    · exact ih followed.2.2 followed.2.1

private theorem isDirectoryAt_of_follow {volume : Volume} {place reached segments : List String}
    (followed : follow volume place segments = .ok reached)
    (directory : volume.isDirectoryAt reached = true) : volume.isDirectoryAt place = true := by
  cases segments with
  | nil =>
    cases followed
    exact directory
  | cons segment rest => exact (follow_cons_eq_ok_iff.1 followed).1

/-- Every directory of the first volume is one of the second. -/
def Grows (before after : Volume) : Prop :=
  ∀ place, before.isDirectoryAt place = true → after.isDirectoryAt place = true

theorem grows_of_eq {before after : Volume} (same : after.isDirectoryAt = before.isDirectoryAt) :
    Grows before after := by
  intro place directory
  rwa [same]

theorem follow_of_grows {before after : Volume} (grows : Grows before after)
    {place reached segments : List String} (followed : follow before place segments = .ok reached)
    (directory : before.isDirectoryAt reached = true) :
    follow after place segments = .ok reached := by
  induction segments generalizing place with
  | nil => exact followed
  | cons segment rest ih =>
    rw [follow_cons_eq_ok_iff] at followed ⊢
    obtain ⟨here, followed⟩ := followed
    refine ⟨grows place here, ?_⟩
    split at followed
    · next blank =>
      rw [if_pos blank]
      exact ih followed
    next noBlank =>
    rw [if_neg noBlank]
    split at followed
    · next up =>
      rw [if_pos up]
      exact ih followed
    · next noUp =>
      rw [if_neg noUp]
      obtain ⟨short, _, later⟩ := followed
      have next := grows _ (isDirectoryAt_of_follow later directory)
      exact ⟨short, FileTree.isSome_of_isDirectoryAt next, ih later⟩

private theorem eq_of_follow {volume : Volume} {place reached segments : List String}
    (noUp : ".." ∉ segments) (followed : follow volume place segments = .ok reached) :
    reached = place ++ segments.filter fun segment => !Path.isBlank segment := by
  induction segments generalizing place with
  | nil =>
    cases followed
    rw [List.filter_nil, List.append_nil]
  | cons segment rest ih =>
    obtain ⟨_, followed⟩ := follow_cons_eq_ok_iff.1 followed
    obtain ⟨here, later⟩ := not_or.1 (mt List.mem_cons.2 noUp)
    split at followed
    · next blank =>
      rw [ih later followed, List.filter_cons_of_neg (by simp [blank])]
    next noBlank =>
    rw [if_neg (Ne.symm here)] at followed
    rw [ih later followed.2.2, List.filter_cons_of_pos (by simp [noBlank]), List.append_assoc,
      List.singleton_append]

/-! ## Paths that end with a name -/

/-- A path leads to a place in a directory. Nothing need stand there. -/
inductive Leads (volume : Volume) (path : Path) : List String → Prop where
  | intro {before parent : List String} {name : String} (segments : path.segments = before ++ [name])
      (valid : checkPath path = .ok ()) (followed : follow volume [] before = .ok parent)
      (directory : volume.isDirectoryAt parent = true) (proper : Path.isBlank name = false)
      (noUp : name ≠ "..") (short : checkName name = .ok ()) : Leads volume path (parent ++ [name])

namespace Leads

variable {volume : Volume} {path : Path} {place : List String}

theorem of_grows {after : Volume} (grows : Grows volume after) (leads : Leads volume path place) :
    Leads after path place := by
  obtain ⟨segments, valid, followed, directory, proper, noUp, short⟩ := leads
  exact .intro segments valid (follow_of_grows grows followed directory) (grows _ directory) proper
    noUp short

theorem checkPath_eq (leads : Leads volume path place) : checkPath path = .ok () := by
  obtain ⟨_, valid, _, _, _, _, _⟩ := leads
  exact valid

theorem exists_parent (leads : Leads volume path place) :
    ∃ above name, place = above ++ [name] ∧ volume.isDirectoryAt above = true := by
  obtain ⟨_, _, _, directory, _, _, _⟩ := leads
  exact ⟨_, _, rfl, directory⟩

theorem follow_eq (leads : Leads volume path place)
    (present : (volume.entryAt? place).isSome = true) : follow volume [] path.segments = .ok place := by
  obtain ⟨segments, _, followed, directory, proper, noUp, short⟩ := leads
  rw [segments, follow_append_eq_ok_iff]
  refine ⟨_, followed, ?_⟩
  rw [follow_cons_eq_ok_iff, if_neg (by simp [proper]), if_neg noUp]
  exact ⟨directory, short, present, rfl⟩

theorem locate_eq (leads : Leads volume path place)
    (present : (volume.entryAt? place).isSome = true) : volume.locate path = .ok place := by
  rw [locate, leads.checkPath_eq]
  exact leads.follow_eq present

theorem endsOpen_eq (leads : Leads volume path place) : path.endsOpen = false := by
  obtain ⟨segments, _, _, _, proper, _, _⟩ := leads
  rw [Path.endsOpen, segments, List.getLast?_concat]
  cases same : (some _ == some "") with
  | false => rfl
  | true =>
    rw [beq_iff_eq, Option.some.injEq] at same
    rw [same] at proper
    cases proper

end Leads

theorem isDirectory_of_locate {volume : Volume} {path : Path} {place : List String}
    (located : volume.locate path = .ok place) :
    volume.isDirectory path = volume.isDirectoryAt place := by
  rw [isDirectory, at?, located]
  rfl

theorem isSome_of_locate {volume : Volume} {path : Path} {place : List String}
    (located : volume.locate path = .ok place) : (volume.entryAt? place).isSome = true := by
  rw [locate] at located
  cases valid : checkPath path with
  | error reason =>
    rw [valid] at located
    cases located
  | ok checked =>
    rw [valid] at located
    exact isSome_of_follow located rfl

theorem checkDirectory_eq_ok_iff {volume : Volume} {place : List String} {checked : Unit} :
    volume.checkDirectory place = .ok checked ↔ volume.isDirectoryAt place = true := by
  rw [checkDirectory]
  cases volume.isDirectoryAt place <;> simp

theorem Leads.of_locate {volume : Volume} {path : Path} {before place : List String} {name : String}
    (segments : path.segments = before ++ [name]) (proper : Path.isBlank name = false)
    (noUp : name ≠ "..") (located : volume.locate path = .ok place) : Leads volume path place := by
  rw [locate, bind_eq_ok_iff, segments] at located
  obtain ⟨_, valid, followed⟩ := located
  obtain ⟨parent, first, second⟩ := follow_append_eq_ok_iff.1 followed
  rw [follow_cons_eq_ok_iff, if_neg (by simp [proper]), if_neg noUp] at second
  obtain ⟨directory, short, _, same⟩ := second
  cases same
  exact .intro segments valid first directory proper noUp short

theorem slot_eq_ok_iff {volume : Volume} {path : Path} {parent : List String} {name : String}
    (closed : path.endsOpen = false) :
    volume.slot path = .ok (parent, some name) ↔ Leads volume path (parent ++ [name]) := by
  constructor
  · intro found
    rw [slot, bind_eq_ok_iff] at found
    obtain ⟨_, valid, found⟩ := found
    cases List.eq_nil_or_concat' path.segments with
    | inl none =>
      rw [none] at found
      cases found
    | inr split =>
      obtain ⟨before, last, segments⟩ := split
      have named : (last == "") = false := by
        rw [Path.endsOpen, segments, List.getLast?_concat] at closed
        simpa using closed
      rw [segments, List.reverse_concat, List.dropWhile_cons_of_neg (by simp [named])] at found
      dsimp only at found
      rw [List.reverse_reverse, bind_eq_ok_iff] at found
      obtain ⟨place, followed, found⟩ := found
      rw [bind_eq_ok_iff] at found
      obtain ⟨_, directory, found⟩ := found
      split at found
      · cases found
      · next noDots =>
        rw [bind_eq_ok_iff] at found
        obtain ⟨_, short, same⟩ := found
        cases same
        rw [Bool.or_eq_true, decide_eq_true_eq, decide_eq_true_eq, not_or] at noDots
        have proper : Path.isBlank name = false := by
          rw [Path.isBlank, named, Bool.false_or]
          simpa using noDots.1
        exact .intro segments valid followed (checkDirectory_eq_ok_iff.1 directory) proper noDots.2 short
  · intro leads
    generalize same : parent ++ [name] = place at leads
    obtain ⟨segments, valid, followed, directory, proper, noUp, short⟩ := leads
    obtain ⟨rfl, rfl⟩ := List.append_singleton_inj.1 same
    rw [Path.isBlank, Bool.or_eq_false_iff] at proper
    rw [slot, valid, segments, List.reverse_concat, List.dropWhile_cons_of_neg (by simp [proper.1])]
    dsimp only
    rw [List.reverse_reverse, followed]
    simp [bind, Except.bind, checkDirectory, directory, noUp, short, pure, Except.pure,
      beq_eq_false_iff_ne.1 proper.2]

/-! ## Effects -/

/-- One file of a volume comes to hold something else, or is no more there. -/
structure Puts (before after : Volume) (place : List String) (content : Option ByteArray) : Prop where
  contents : after.contentAt? = Function.update before.contentAt? place content
  directories : after.isDirectoryAt = before.isDirectoryAt

theorem puts_of_entryAt? {before after : Volume} {place : List String} {content : Option ByteArray}
    (free : before.isDirectoryAt place = false)
    (changed : after.entryAt? = Function.update before.entryAt? place (content.map some)) :
    Puts before after place content := by
  constructor
  · funext names
    rw [FileTree.contentAt?_eq, changed]
    by_cases same : names = place
    · subst same
      rw [Function.update_self, Function.update_self]
      cases content <;> rfl
    · rw [Function.update_of_ne same, Function.update_of_ne same, FileTree.contentAt?_eq]
  · funext names
    rw [Bool.eq_iff_iff, FileTree.isDirectoryAt_iff, changed]
    by_cases same : names = place
    · subst same
      rw [Function.update_self, free]
      cases content <;> simp
    · rw [Function.update_of_ne same, FileTree.isDirectoryAt_iff]

theorem Leads.puts_insert {volume : Volume} {path : Path} {place : List String}
    (leads : Leads volume path place) (free : volume.isDirectoryAt place = false)
    (content : ByteArray) : Puts volume (volume.insert place (.file content)) place (some content) := by
  obtain ⟨above, name, rfl, directory⟩ := leads.exists_parent
  exact puts_of_entryAt? free (FileTree.entryAt?_insert_file directory free content)

theorem puts_erase {volume : Volume} {place : List String} {content : ByteArray}
    (directory : volume.isDirectoryAt [] = true) (held : volume.contentAt? place = some content) :
    Puts volume (volume.erase place) place none := by
  have entry := FileTree.contentAt?_eq_some_iff.1 held
  have free := FileTree.isDirectoryAt_of_contentAt? held
  cases List.eq_nil_or_concat' place with
  | inl top =>
    rw [top, directory] at free
    cases free
  | inr split =>
    obtain ⟨above, name, rfl⟩ := split
    have parent : volume.isDirectoryAt above = true :=
      FileTree.isDirectoryAt_of_below (by rw [entry]; simp) (List.cons_ne_nil name [])
    exact puts_of_entryAt? free (FileTree.entryAt?_erase parent free)

theorem write_eq_ok_iff {volume after : Volume} {path : Path} {content : ByteArray} :
    volume.write path content = .ok after ↔
      ∃ place, Leads volume path place ∧ volume.isDirectoryAt place = false ∧
        after = volume.insert place (.file content) := by
  constructor
  · intro written
    rw [write, bind_eq_ok_iff] at written
    obtain ⟨⟨parent, name?⟩, slot, written⟩ := written
    cases name? with
    | none => cases written
    | some name =>
      dsimp only at written
      split at written
      · cases written
      · next free =>
        cases written
        rw [Bool.or_eq_true, not_or, Bool.not_eq_true, Bool.not_eq_true] at free
        exact ⟨_, (slot_eq_ok_iff free.1).1 slot, free.2, rfl⟩
  · intro found
    obtain ⟨place, leads, free, rfl⟩ := found
    have closed := leads.endsOpen_eq
    obtain ⟨above, name, rfl, _⟩ := leads.exists_parent
    rw [write, (slot_eq_ok_iff closed).2 leads]
    simp [bind, Except.bind, closed, free, pure, Except.pure]

theorem read_eq_ok_iff {volume : Volume} {path : Path} {content : ByteArray} :
    volume.read path = .ok content ↔
      ∃ place, volume.locate path = .ok place ∧ volume.contentAt? place = some content := by
  rw [read, bind_eq_ok_iff]
  apply exists_congr
  intro place
  cases volume.contentAt? place with
  | none => simp [throw, throwThe, MonadExceptOf.throw]
  | some held => simp [pure, Except.pure]

private theorem Leads.isDirectoryAt_top {volume : Volume} {path : Path} {place : List String}
    (leads : Leads volume path place) : volume.isDirectoryAt [] = true := by
  obtain ⟨above, name, rfl, directory⟩ := leads.exists_parent
  cases above with
  | nil => exact directory
  | cons first rest =>
    apply @FileTree.isDirectoryAt_of_below _ volume [] (first :: rest) _ (List.cons_ne_nil _ _)
    rw [List.nil_append, FileTree.isDirectoryAt_iff.1 directory]
    exact Option.some_ne_none _

private theorem isDirectoryAt_erase {volume : Volume} {place : List String} {content : ByteArray}
    (held : volume.contentAt? place = some content) :
    (volume.erase place).isDirectoryAt = volume.isDirectoryAt := by
  cases List.eq_nil_or_concat' place with
  | inl top =>
    rw [top, FileTree.erase]
  | inr split =>
    obtain ⟨above, name, rfl⟩ := split
    have directory : volume.isDirectoryAt [] = true := by
      apply @FileTree.isDirectoryAt_of_below _ volume [] (above ++ [name]) _ (by simp)
      rw [List.nil_append, FileTree.contentAt?_eq_some_iff.1 held]
      exact Option.some_ne_none _
    exact (puts_erase directory held).directories

theorem move_eq_ok_iff {volume after : Volume} {source target : Path} :
    volume.move source target = .ok after ↔
      ∃ start finish content, volume.locate source = .ok start ∧
        volume.contentAt? start = some content ∧ Leads volume target finish ∧
        volume.isDirectoryAt finish = false ∧
        after = (volume.erase start).insert finish (.file content) := by
  have same : ∀ start content, volume.contentAt? start = some content →
      ∀ place, (Leads (volume.erase start) target place ↔ Leads volume target place) := by
    intro start content held place
    have directories := isDirectoryAt_erase held
    constructor
    · exact Leads.of_grows (grows_of_eq directories.symm)
    · exact Leads.of_grows (grows_of_eq directories)
  constructor
  · intro moved
    rw [move, bind_eq_ok_iff] at moved
    obtain ⟨content, held, moved⟩ := moved
    obtain ⟨start, located, held⟩ := read_eq_ok_iff.1 held
    rw [located] at moved
    obtain ⟨finish, leads, free, rfl⟩ := write_eq_ok_iff.1 moved
    rw [isDirectoryAt_erase held] at free
    exact ⟨start, finish, content, located, held, (same start content held finish).1 leads, free, rfl⟩
  · intro found
    obtain ⟨start, finish, content, located, held, leads, free, rfl⟩ := found
    rw [move, bind_eq_ok_iff]
    refine ⟨content, read_eq_ok_iff.2 ⟨start, located, held⟩, ?_⟩
    rw [located]
    apply write_eq_ok_iff.2
    refine ⟨finish, (same start content held finish).2 leads, ?_, rfl⟩
    rw [isDirectoryAt_erase held]
    exact free

/-- The files and directories after a file was moved. -/
structure Moves (before after : Volume) (start finish : List String) (content : ByteArray) : Prop where
  contents : after.contentAt? =
    Function.update (Function.update before.contentAt? start none) finish (some content)
  directories : after.isDirectoryAt = before.isDirectoryAt

theorem Moves.contentAt?_of_ne {before after : Volume} {start finish : List String}
    {content : ByteArray} (moves : Moves before after start finish content) {names : List String}
    (notStart : names ≠ start) (notFinish : names ≠ finish) :
    after.contentAt? names = before.contentAt? names := by
  rw [moves.contents, Function.update_of_ne notFinish, Function.update_of_ne notStart]

theorem moves_of_leads {volume : Volume} {path : Path} {start finish : List String}
    {content : ByteArray} (held : volume.contentAt? start = some content)
    (leads : Leads volume path finish) (free : volume.isDirectoryAt finish = false) :
    Moves volume ((volume.erase start).insert finish (.file content)) start finish content := by
  have erased := puts_erase leads.isDirectoryAt_top held
  have leads : Leads (volume.erase start) path finish :=
    leads.of_grows (grows_of_eq erased.directories)
  have inserted := leads.puts_insert (by rw [erased.directories]; exact free) content
  constructor
  · rw [inserted.contents, erased.contents]
  · rw [inserted.directories, erased.directories]

theorem puts_discard {volume : Volume} {path : Path} {place : List String}
    (only : ∀ located, volume.locate path = .ok located → located = place)
    (found : volume.contentAt? place ≠ none → Leads volume path place) :
    Puts volume (volume.discard path) place none := by
  have unchanged : volume.contentAt? place = none → Puts volume volume place none := by
    intro absent
    constructor
    · rw [← absent, Function.update_eq_self]
    · rfl
  rw [discard]
  cases located : volume.locate path with
  | error reason =>
    apply unchanged
    by_contra held
    obtain ⟨content, held⟩ := Option.ne_none_iff_exists'.1 held
    have leads := found (by rw [held]; exact Option.some_ne_none _)
    cases located.symm.trans (leads.locate_eq (FileTree.isSome_of_contentAt? held))
  | ok reached =>
    cases only reached located
    dsimp only
    split
    · next directory =>
      apply unchanged
      rw [FileTree.contentAt?_eq, FileTree.isDirectoryAt_iff.1 directory]
      rfl
    · next free =>
      obtain ⟨entry, present⟩ := Option.isSome_iff_exists.1 (isSome_of_locate located)
      cases entry with
      | none => exact absurd (FileTree.isDirectoryAt_iff.2 present) free
      | some content =>
        have held := FileTree.contentAt?_eq_some_iff.2 present
        have leads := found (by rw [held]; exact Option.some_ne_none _)
        exact puts_erase leads.isDirectoryAt_top held

theorem removeTree_of_leads {volume : Volume} {path : Path} {place : List String}
    (leads : Leads volume path place) (directory : volume.isDirectoryAt place = true) :
    (∀ rest, (volume.removeTree path).contentAt? (place ++ rest) = none) ∧
      ∀ names, ¬ place <+: names →
        (volume.removeTree path).entryAt? names = volume.entryAt? names := by
  have located := leads.locate_eq (FileTree.isSome_of_isDirectoryAt directory)
  obtain ⟨above, name, rfl, parent⟩ := leads.exists_parent
  rw [removeTree, located]
  constructor
  · intro rest
    rw [FileTree.contentAt?_eq, FileTree.entryAt?_erase_below parent]
    rfl
  · intro names apart
    exact FileTree.entryAt?_erase_other parent apart

/-! ## Making directories -/

/-- Directories are made one after the other. -/
inductive Grown (start : Volume) : Volume → Prop where
  | refl : Grown start start
  | step {volume : Volume} {above : List String} {name : String} (grown : Grown start volume)
      (parent : volume.isDirectoryAt above = true) (absent : volume.entryAt? (above ++ [name]) = none) :
      Grown start (volume.insert (above ++ [name]) (.directory []))

namespace Grown

variable {start finish : Volume}

theorem trans {between : Volume} (first : Grown start between) (second : Grown between finish) :
    Grown start finish := by
  induction second with
  | refl => exact first
  | step _ parent absent ih => exact .step ih parent absent

theorem contentAt?_eq (grown : Grown start finish) : finish.contentAt? = start.contentAt? := by
  induction grown with
  | refl => rfl
  | @step volume above name _ parent absent ih =>
    rw [← ih]
    funext names
    rw [FileTree.contentAt?_eq, FileTree.entryAt?_insert_directory parent absent]
    by_cases same : names = above ++ [name]
    · subst same
      rw [Function.update_self, FileTree.contentAt?_eq, absent]
      rfl
    · rw [Function.update_of_ne same, FileTree.contentAt?_eq]

theorem grows (grown : Grown start finish) : Grows start finish := by
  induction grown with
  | refl => exact fun _ directory => directory
  | @step volume above name _ parent absent ih =>
    intro place directory
    rw [FileTree.isDirectoryAt_iff, FileTree.entryAt?_insert_directory parent absent]
    by_cases same : place = above ++ [name]
    · rw [same, Function.update_self]
    · rw [Function.update_of_ne same]
      exact FileTree.isDirectoryAt_iff.1 (ih place directory)

theorem distinctAt (grown : Grown start finish) {place : List String}
    (distinct : start.DistinctAt place) : finish.DistinctAt place := by
  induction grown with
  | refl => exact distinct
  | step _ parent _ ih => exact ih.insert parent (.directory (by simp) (by simp))

end Grown

private theorem isDirectoryAt_of_slot {volume : Volume} {path : Path} {parent : List String}
    {name : String}
    (found : volume.slot path = .ok (parent, some name)) : volume.isDirectoryAt parent = true := by
  rw [slot, bind_eq_ok_iff] at found
  obtain ⟨_, _, found⟩ := found
  split at found
  · cases found
  rw [bind_eq_ok_iff] at found
  obtain ⟨place, _, found⟩ := found
  rw [bind_eq_ok_iff] at found
  obtain ⟨_, directory, found⟩ := found
  split at found
  · cases found
  rw [bind_eq_ok_iff] at found
  obtain ⟨_, _, same⟩ := found
  cases same
  exact checkDirectory_eq_ok_iff.1 directory

theorem makeDirectory_eq_ok {volume after : Volume} {path : Path}
    (made : volume.makeDirectory path = .ok after) :
    ∃ above name, volume.slot path = .ok (above, some name) ∧
      volume.isDirectoryAt above = true ∧ volume.entryAt? (above ++ [name]) = none ∧
      after = volume.insert (above ++ [name]) (.directory []) := by
  rw [makeDirectory, bind_eq_ok_iff] at made
  obtain ⟨⟨above, name?⟩, slot, made⟩ := made
  cases name? with
  | none => cases made
  | some name =>
    dsimp only at made
    cases found : volume.find? (above ++ [name]) with
    | some present =>
      rw [found] at made
      cases made
    | none =>
      rw [found] at made
      cases made
      refine ⟨above, name, slot, isDirectoryAt_of_slot slot, ?_, rfl⟩
      rw [FileTree.entryAt?, found]
      rfl

private theorem grown_of_makeDirectory {volume after : Volume} {path : Path}
    (made : volume.makeDirectory path = .ok after) : Grown volume after := by
  obtain ⟨above, name, _, parent, absent, rfl⟩ := makeDirectory_eq_ok made
  exact .step .refl parent absent

/-- Work that makes directories and changes nothing else. -/
def Growing {α : Type} (work : StateM Volume α) : Prop := ∀ volume, Grown volume (work volume).2

namespace Growing

variable {α β : Type}

theorem pure (value : α) : Growing (pure value) := fun _ => .refl

theorem bind {work : StateM Volume α} {next : α → StateM Volume β} (first : Growing work)
    (second : ∀ value, Growing (next value)) : Growing (work >>= next) :=
  fun volume => (first volume).trans (second _ _)

theorem isDirectory (path : Path) :
    Growing (fun volume => (volume.isDirectory path, volume) : StateM Volume Bool) := fun _ => .refl

theorem makeDirectory (path : Path) : Growing (change () fun volume => volume.makeDirectory path) := by
  intro volume
  rw [change]
  cases made : volume.makeDirectory path with
  | ok after => exact grown_of_makeDirectory made
  | error reason => exact .refl

theorem ensureDirectory (path : Path) :
    Growing (FileSystem.ensureDirectory (fun path volume => (volume.isDirectory path, volume))
      (fun path => change () fun volume => volume.makeDirectory path) path) := by
  apply (makeDirectory path).bind
  intro result
  cases result with
  | ok done => exact .pure _
  | error reason =>
    apply (isDirectory path).bind
    intro present
    cases present with
    | true => exact .pure _
    | false => exact .pure _

theorem makeDirectories (path : Path) : Growing (Volume.makeDirectories path) := by
  rw [Volume.makeDirectories, FileSystem.makeStepwise]
  generalize path.ancestors = above
  induction above generalizing path with
  | nil =>
    rw [FileSystem.makeBelow]
    split
    · exact .pure _
    · exact ensureDirectory path
  | cons parent above ih =>
    rw [FileSystem.makeBelow]
    apply (ensureDirectory path).bind
    intro result
    split
    · apply (ih parent).bind
      intro result
      cases result with
      | ok done => exact ensureDirectory path
      | error reason => exact .pure _
    · exact .pure _

end Growing

end Volume

/-! ## Paths below a root -/

namespace Path

/-- The segments of a path without the empty one after a slash at its end. -/
def stem (path : Path) : List String :=
  if path.endsOpen then path.segments.dropLast else path.segments

theorem join_eq (root : Path) {segments : List String} (some : segments ≠ []) :
    root.join (.ofNames segments) = ⟨root.absolute, root.stem ++ segments⟩ := by
  have more : segments.isEmpty = false := by simpa using some
  obtain ⟨absolute, written⟩ := root
  rw [join, stem, ofNames, more]
  cases absolute with
  | true => simp
  | false =>
    cases written with
    | nil => simp [endsOpen]
    | cons first rest => simp

theorem join_join (root : Path) {segments more : List String} {last : String}
    (named : last ≠ "") (some : more ≠ []) :
    (root.join (.ofNames (segments ++ [last]))).join (.ofNames more) =
      root.join (.ofNames (segments ++ [last] ++ more)) := by
  have closed : (root.join (.ofNames (segments ++ [last]))).endsOpen = false := by
    rw [join_eq root (by simp), endsOpen, ← List.append_assoc, List.getLast?_concat]
    simpa using named
  rw [join_eq _ some, stem, closed, join_eq root (by simp), join_eq root (by simp)]
  simp

end Path

namespace Volume

theorem checkPath_of_append {absolute : Bool} {first second : List String} (some : first ≠ [])
    (valid : checkPath ⟨absolute, first ++ second⟩ = .ok ()) :
    checkPath ⟨absolute, first⟩ = .ok () := by
  have shorter : (Path.text ⟨absolute, first⟩).utf8ByteSize ≤
      (Path.text ⟨absolute, first ++ second⟩).utf8ByteSize := by
    by_cases none : second = []
    · rw [none, List.append_nil]
    · rw [Path.text, Path.text, String.intercalate_append_of_ne_nil some none]
      simp only [String.utf8ByteSize_append]
      omega
  rw [checkPath, List.any_append] at valid
  rw [checkPath]
  split at valid
  · cases valid
  next plain =>
  rw [Bool.or_eq_true, not_or] at plain
  rw [if_neg plain.1]
  split at valid
  · cases valid
  next within =>
  rw [if_neg (by omega)]
  simp [some]

/-- A path leads to a directory. -/
structure Reaches (volume : Volume) (root : Path) (place : List String) : Prop where
  followed : follow volume [] root.stem = .ok place
  directory : volume.isDirectoryAt place = true

namespace Reaches

variable {volume : Volume} {root : Path} {place : List String}

theorem of_grows {after : Volume} (grows : Grows volume after) (reaches : Reaches volume root place) :
    Reaches after root place :=
  ⟨follow_of_grows grows reaches.followed reaches.directory, grows place reaches.directory⟩

theorem follow_segments (reaches : Reaches volume root place) :
    follow volume [] root.segments = .ok place := by
  have followed := reaches.followed
  rw [Path.stem] at followed
  split at followed
  · next endsOpen =>
    rw [Path.endsOpen, beq_iff_eq] at endsOpen
    obtain ⟨init, segments⟩ := List.getLast?_eq_some_iff.1 endsOpen
    rw [segments, List.dropLast_concat] at followed
    rw [segments, follow_append_eq_ok_iff]
    refine ⟨place, followed, ?_⟩
    rw [follow_cons_eq_ok_iff]
    exact ⟨reaches.directory, rfl⟩
  · exact followed

theorem of_locate (located : volume.locate root = .ok place)
    (directory : volume.isDirectoryAt place = true) : Reaches volume root place := by
  obtain ⟨_, _, followed⟩ := bind_eq_ok_iff.1 located
  refine ⟨?_, directory⟩
  rw [Path.stem]
  split
  · next endsOpen =>
    rw [Path.endsOpen, beq_iff_eq] at endsOpen
    obtain ⟨init, segments⟩ := List.getLast?_eq_some_iff.1 endsOpen
    rw [segments, follow_append_eq_ok_iff] at followed
    obtain ⟨between, first, second⟩ := followed
    cases (follow_cons_eq_ok_iff.1 second).2
    rwa [segments, List.dropLast_concat]
  · exact followed

theorem eq_of_leads (reaches : Reaches volume root place) {segments : List String}
    (some : segments ≠ []) (noUp : ".." ∉ segments) {reached : List String}
    (leads : Leads volume (root.join (.ofNames segments)) reached) :
    reached = place ++ (Path.ofNames segments).names ∧
      ∃ last, segments.getLast? = .some last ∧ Path.isBlank last = false := by
  obtain ⟨split, _, followed, _, proper, _, _⟩ := leads
  next before parent name =>
  rw [Path.join_eq root some] at split
  obtain ⟨init, last, rfl⟩ := (List.eq_nil_or_concat' segments).resolve_left some
  rw [← List.append_assoc] at split
  obtain ⟨rfl, rfl⟩ := List.append_singleton_inj.1 split
  obtain ⟨between, first, second⟩ := follow_append_eq_ok_iff.1 followed
  cases first.symm.trans reaches.followed
  have noUp : ".." ∉ init := fun member => noUp (List.mem_append_left _ member)
  refine ⟨?_, last, List.getLast?_concat, proper⟩
  rw [eq_of_follow noUp second]
  simp [Path.names, Path.ofNames, proper]

theorem eq_of_locate (reaches : Reaches volume root place) {segments : List String}
    (some : segments ≠ []) (noUp : ".." ∉ segments) {reached : List String}
    (located : volume.locate (root.join (.ofNames segments)) = .ok reached) :
    reached = place ++ (Path.ofNames segments).names := by
  rw [locate, bind_eq_ok_iff, Path.join_eq root some] at located
  obtain ⟨_, _, followed⟩ := located
  obtain ⟨between, first, second⟩ := follow_append_eq_ok_iff.1 followed
  cases first.symm.trans reaches.followed
  exact eq_of_follow noUp second

end Reaches

theorem reaches_of_makeDirectory {volume after : Volume} {root : Path} {name : String}
    (proper : Path.isBlank name = false)
    (made : volume.makeDirectory (root.join (.ofNames [name])) = .ok after) :
    ∃ place, Reaches volume root place ∧ Leads volume (root.join (.ofNames [name])) (place ++ [name]) ∧
      volume.entryAt? (place ++ [name]) = none ∧
      after = volume.insert (place ++ [name]) (.directory []) := by
  obtain ⟨above, last, slot, directory, absent, rfl⟩ := makeDirectory_eq_ok made
  have closed : (root.join (.ofNames [name])).endsOpen = false := by
    rw [Path.isBlank, Bool.or_eq_false_iff] at proper
    rw [Path.join_eq root (by simp), Path.endsOpen, List.getLast?_concat]
    simpa using proper.1
  have leads := (slot_eq_ok_iff closed).1 slot
  generalize same : above ++ [last] = place at leads
  obtain ⟨split, valid, followed, parent, named, noUp, short⟩ := leads
  obtain ⟨rfl, rfl⟩ := List.append_singleton_inj.1 same
  rw [Path.join_eq root (by simp)] at split
  obtain ⟨rfl, rfl⟩ := List.append_singleton_inj.1 split
  refine ⟨above, ⟨followed, parent⟩, ?_, absent, rfl⟩
  exact (slot_eq_ok_iff closed).1 slot

end Volume

end GraphqlStore
