import GraphqlStore.Proofs.Staging

/-!
Changes to the output files can be taken back, the latest first, as long as
each has put a new file where there was none, or keeps the old one as a
backup. Main statement: once they are taken back, only the scratch directory
differs from what was before.
-/

set_option autoImplicit false

namespace GraphqlStore

namespace Publication

open Volume

namespace Session

variable {session : Session} {volume : Volume} {σ : Type} [FileSystem (StateM σ)]
  {view : σ → Volume} {used : List String}

/-! ## Changes that can be taken back -/

variable (session)

/-- Names of a place outside the scratch directory. -/
structure IsTarget (names : List String) : Prop extends Plain names where
  apart : names.head? ≠ some session.scratch

/-- A change to the file at the given names can be taken back: a new file stands where there was
none, or the old content is in the backup. -/
inductive Undoable (volume : Volume) (names : List String) : Change → Prop where
  | created (absent : session.origin.contentAt? (session.place ++ names) = none)
      (leads : Leads volume (session.path names) (session.place ++ names)) :
      Undoable volume names (.created (session.path names))
  | replaced {content : ByteArray}
      (before : session.origin.contentAt? (session.place ++ names) = some content)
      (held : volume.contentAt? (session.place ++ session.backupNames names) = some content)
      (leads : Leads volume (session.path names) (session.place ++ names))
      (backup : Leads volume (session.path (session.backupNames names))
        (session.place ++ session.backupNames names))
      (free : volume.isDirectoryAt (session.place ++ names) = false) :
      Undoable volume names
        (.replaced (session.path names) (session.path (session.backupNames names)))

/-- All that differs outside the scratch directory are changes that can be taken back. -/
structure Restorable (placed : List (List String)) (done : List Change) (volume : Volume) : Prop
    extends session.Open volume where
  others : ∀ names, ¬ session.scratchPlace <+: names →
    (∀ target ∈ placed, names ≠ session.place ++ target) →
    volume.contentAt? names = session.origin.contentAt? names
  changes : List.Forall₂ (session.Undoable volume) placed done
  nodup : placed.Nodup
  targets : ∀ names ∈ placed, session.IsTarget names

variable {session} {names : List String} {placed : List (List String)} {change : Change}
  {done : List Change} {after : Volume}

theorem IsTarget.outside (target : session.IsTarget names) :
    ¬ session.scratchPlace <+: session.place ++ names := by
  rw [scratchPlace, List.prefix_append_right_inj]
  intro first
  obtain ⟨rest, rfl⟩ := first
  exact target.apart rfl

theorem Undoable.target_eq (undoable : session.Undoable volume names change) :
    change.target = session.path names := by
  cases undoable <;> rfl

theorem Undoable.transfer (undoable : session.Undoable volume names change)
    (grows : Grows volume after)
    (backup : after.contentAt? (session.place ++ session.backupNames names) =
      volume.contentAt? (session.place ++ session.backupNames names))
    (free : volume.isDirectoryAt (session.place ++ names) = false →
      after.isDirectoryAt (session.place ++ names) = false) :
    session.Undoable after names change := by
  cases undoable with
  | created absent leads => exact .created absent (leads.of_grows grows)
  | replaced before held leads leadsBackup noDirectory =>
    exact .replaced before (backup.trans held) (leads.of_grows grows) (leadsBackup.of_grows grows)
      (free noDirectory)

theorem forall₂_imp_of_mem {α β : Type} {first second : α → β → Prop} {items : List α}
    {others : List β} (related : List.Forall₂ first items others)
    (imp : ∀ item ∈ items, ∀ other, first item other → second item other) :
    List.Forall₂ second items others := by
  have both : List.Forall₂ (fun item other => item ∈ items ∧ first item other) items others :=
    (List.forall₂_and_left items others).2 ⟨fun _ member => member, related⟩
  exact both.imp fun item other holds => imp item holds.1 other holds.2

namespace Restorable

theorem transfer (restorable : session.Restorable placed done volume) (grows : Grows volume after)
    (others : ∀ names, ¬ session.scratchPlace <+: names →
      (∀ target ∈ placed, names ≠ session.place ++ target) →
      after.contentAt? names = volume.contentAt? names)
    (backups : ∀ names ∈ placed, after.contentAt? (session.place ++ session.backupNames names) =
      volume.contentAt? (session.place ++ session.backupNames names))
    (free : ∀ names ∈ placed, volume.isDirectoryAt (session.place ++ names) = false →
      after.isDirectoryAt (session.place ++ names) = false) :
    session.Restorable placed done after := by
  refine ⟨restorable.toOpen.of_grows grows, ?_, ?_, restorable.nodup, restorable.targets⟩
  · intro names outside unplaced
    rw [others names outside unplaced, restorable.others names outside unplaced]
  · apply forall₂_imp_of_mem restorable.changes
    intro names member change undoable
    exact undoable.transfer grows (backups names member) (free names member)

theorem step (restorable : session.Restorable placed done volume) (target : session.IsTarget names)
    (unplaced : names ∉ placed) (directories : after.isDirectoryAt = volume.isDirectoryAt)
    (others : ∀ other, ¬ session.scratchPlace <+: other → other ≠ session.place ++ names →
      after.contentAt? other = volume.contentAt? other)
    (backups : ∀ other ∈ placed, after.contentAt? (session.place ++ session.backupNames other) =
      volume.contentAt? (session.place ++ session.backupNames other))
    (undoable : session.Undoable after names change) :
    session.Restorable (names :: placed) (change :: done) after := by
  have grows := grows_of_eq directories
  refine ⟨restorable.toOpen.of_grows grows, ?_, .cons undoable ?_,
    List.nodup_cons.2 ⟨unplaced, restorable.nodup⟩, List.forall_mem_cons.2 ⟨target, restorable.targets⟩⟩
  · intro other outside unplaced
    rw [List.forall_mem_cons] at unplaced
    rw [others other outside unplaced.1, restorable.others other outside unplaced.2]
  · apply forall₂_imp_of_mem restorable.changes
    intro other member change undoable
    apply undoable.transfer grows (backups other member)
    rw [directories]
    exact id

theorem tail (restorable : session.Restorable (names :: placed) (change :: done) volume)
    (directories : after.isDirectoryAt = volume.isDirectoryAt)
    (restored : after.contentAt? (session.place ++ names) =
      session.origin.contentAt? (session.place ++ names))
    (others : ∀ other, other ≠ session.place ++ names →
      other ≠ session.place ++ session.backupNames names →
      after.contentAt? other = volume.contentAt? other) :
    session.Restorable placed done after := by
  have grows := grows_of_eq directories
  obtain ⟨unplaced, nodup⟩ := List.nodup_cons.1 restorable.nodup
  obtain ⟨target, targets⟩ := List.forall_mem_cons.1 restorable.targets
  obtain ⟨_, changes⟩ := List.forall₂_cons.1 restorable.changes
  refine ⟨restorable.toOpen.of_grows grows, ?_, ?_, nodup, targets⟩
  · intro other outside notPlaced
    by_cases same : other = session.place ++ names
    · rw [same, restored]
    · have noBackup : other ≠ session.place ++ session.backupNames names :=
        fun backup => outside (backup ▸ session.scratchPlace_above_within _ names)
      rw [others other same noBackup]
      exact restorable.others other outside (List.forall_mem_cons.2 ⟨same, notPlaced⟩)
  · apply forall₂_imp_of_mem changes
    intro other member change undoable
    apply undoable.transfer grows
    · apply others
      · exact fun same => target.outside (same ▸ session.scratchPlace_above_within _ other)
      · intro same
        have equal : other = names := by simpa [within] using same
        exact unplaced (equal ▸ member)
    · rw [directories]
      exact id

end Restorable

/-! ## Undoing -/

theorem Restorable.discard {target : Path}
    (restorable : session.Restorable (names :: placed) (.created target :: done) volume) :
    session.Restorable placed done (volume.discard target) := by
  obtain ⟨undoable, _⟩ := List.forall₂_cons.1 restorable.changes
  have plain := (restorable.targets names List.mem_cons_self).toPlain
  cases undoable with
  | created absent leads =>
    have discarded := puts_discard
      (fun located found => restorable.eq_of_locate plain found) fun _ => leads
    apply restorable.tail discarded.directories
    · rw [discarded.contents, Function.update_self, absent]
    · intro other different _
      rw [discarded.contents, Function.update_of_ne different]

theorem Restorable.restore {target backup : Path}
    (restorable : session.Restorable (names :: placed) (.replaced target backup :: done) volume) :
    session.Restorable placed done ((volume.move backup target).toOption.getD volume) := by
  obtain ⟨undoable, _⟩ := List.forall₂_cons.1 restorable.changes
  cases undoable with
  | @replaced content before held leads leadsBackup free =>
    have located := leadsBackup.locate_eq (FileTree.isSome_of_contentAt? held)
    have moves := moves_of_leads held leads free
    rw [move_eq_ok_iff.2 ⟨_, _, content, located, held, leads, free, rfl⟩]
    change session.Restorable placed done ((volume.erase _).insert _ _)
    apply restorable.tail moves.directories
    · rw [moves.contents, Function.update_self, before]
    · intro other different noBackup
      exact moves.contentAt?_of_ne noBackup different

theorem ensures_undo (system : Refusing view used) (placed : List (List String)) (done : List Change) :
    Ensures view (session.Restorable placed done) (undo (m := StateM σ) done)
      (fun _ => session.Unchanged) := by
  induction done generalizing placed with
  | nil =>
    refine Ensures.pure fun volume restorable => ⟨restorable.toOpen, fun names outside => ?_⟩
    cases restorable.changes
    exact restorable.others names outside (by simp)
  | cons change earlier ih =>
    cases placed with
    | nil =>
      intro state restorable
      cases restorable.changes
    | cons names placed =>
      cases change with
      | created target =>
        have discarded : Ensures view (session.Restorable (names :: placed) (.created target :: earlier))
            (FileSystem.discard (m := StateM σ) target)
            (fun _ => session.Restorable placed earlier) :=
          ensures_of_mirrored (system.discard target) fun _ restorable => restorable.discard
        exact discarded.bind fun _ => ih placed
      | replaced target backup =>
        have restored : Ensures view
            (session.Restorable (names :: placed) (.replaced target backup :: earlier))
            (FileSystem.restore (m := StateM σ) backup target)
            (fun _ => session.Restorable placed earlier) :=
          ensures_of_mirrored (system.restore backup target) fun _ restorable => restorable.restore
        exact restored.bind fun _ => ih placed

variable (session)

/-- Changes can be taken back, though the latest may have been announced only. -/
def Restores (changes : List Change) (volume : Volume) : Prop :=
  (∃ placed, session.Restorable placed changes volume) ∨
    ∃ target placed earlier, changes = .created target :: earlier ∧
      session.Restorable placed earlier volume ∧ ∀ reached, volume.locate target ≠ .ok reached

variable {session}

theorem ensures_undo_restores (system : Refusing view used) (changes : List Change) :
    Ensures view (session.Restores changes) (undo (m := StateM σ) changes)
      (fun _ => session.Unchanged) := by
  intro state restores
  cases restores with
  | inl complete =>
    obtain ⟨placed, restorable⟩ := complete
    exact ensures_undo system placed changes state restorable
  | inr announced =>
    obtain ⟨target, placed, earlier, rfl, restorable, nowhere⟩ := announced
    have discarded : Ensures view
        (fun volume => session.Restorable placed earlier volume ∧
          ∀ reached, volume.locate target ≠ .ok reached)
        (FileSystem.discard (m := StateM σ) target) (fun _ => session.Restorable placed earlier) := by
      refine ensures_of_mirrored (system.discard target) fun volume holds => ?_
      change session.Restorable placed earlier (volume.discard target)
      rw [Volume.discard]
      cases located : volume.locate target with
      | ok reached => exact absurd located (holds.2 reached)
      | error reason => exact holds.1
    exact (discarded.bind fun _ => ensures_undo system placed earlier) state ⟨restorable, nowhere⟩

end Session

end Publication

end GraphqlStore
