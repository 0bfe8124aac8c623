import GraphqlStore.Proofs.DirectoryWalk
import Mathlib.Data.List.Infix
import Mathlib.Data.List.Nodup
import Mathlib.Logic.Function.Basic

/-!
What stands where in a tree of files. A tree is seen as a function from names
to what they lead to, and to insert or to erase is to change that function in
one place. Main statement: a tree whose directories list each name once lists
each of its files once.
-/

set_option autoImplicit false

namespace GraphqlStore

namespace FileTree

variable {α β : Type}

/-- What names lead to: nothing, a directory, or a file and what it holds. -/
def entryAt? (tree : FileTree α) (names : List String) : Option (Option α) :=
  (tree.find? names).map content?

theorem contentAt?_eq (tree : FileTree α) (names : List String) :
    tree.contentAt? names = (tree.entryAt? names).join := by
  rw [contentAt?, entryAt?]
  cases tree.find? names <;> rfl

theorem contentAt?_eq_some_iff {tree : FileTree α} {names : List String} {content : α} :
    tree.contentAt? names = some content ↔ tree.entryAt? names = some (some content) := by
  rw [contentAt?_eq, Option.join_eq_some_iff]

theorem isDirectoryAt_iff {tree : FileTree α} {names : List String} :
    tree.isDirectoryAt names = true ↔ tree.entryAt? names = some none := by
  rw [isDirectoryAt, entryAt?]
  cases tree.find? names with
  | none => simp
  | some found => cases found <;> simp [isDirectory, content?]

theorem isDirectoryAt_iff_find? {tree : FileTree α} {names : List String} :
    tree.isDirectoryAt names = true ↔ ∃ entries, tree.find? names = some (.directory entries) := by
  rw [isDirectoryAt]
  cases tree.find? names with
  | none => simp
  | some found => cases found <;> simp [isDirectory]

theorem isSome_find? (tree : FileTree α) (names : List String) :
    (tree.find? names).isSome = (tree.entryAt? names).isSome := by
  rw [entryAt?, Option.isSome_map]

theorem isSome_of_contentAt? {tree : FileTree α} {names : List String} {content : α}
    (held : tree.contentAt? names = some content) : (tree.entryAt? names).isSome = true := by
  rw [contentAt?_eq_some_iff.1 held]
  rfl

theorem isSome_of_isDirectoryAt {tree : FileTree α} {names : List String}
    (directory : tree.isDirectoryAt names = true) : (tree.entryAt? names).isSome = true := by
  rw [isDirectoryAt_iff.1 directory]
  rfl

theorem isDirectoryAt_of_contentAt? {tree : FileTree α} {names : List String} {content : α}
    (held : tree.contentAt? names = some content) : tree.isDirectoryAt names = false := by
  rw [Bool.eq_false_iff, ne_eq, isDirectoryAt_iff, contentAt?_eq_some_iff.1 held]
  simp

theorem find?_append (tree : FileTree α) (first second : List String) :
    tree.find? (first ++ second) = (tree.find? first).bind fun found => found.find? second := by
  induction first generalizing tree with
  | nil => simp [find?]
  | cons name rest ih =>
    cases tree with
    | file content => simp [find?]
    | directory entries =>
      rw [List.cons_append, find?, find?, Option.bind_assoc]
      congr
      funext found
      exact ih found

theorem entryAt?_append (tree : FileTree α) (first second : List String) :
    tree.entryAt? (first ++ second) = (tree.find? first).bind fun found => found.entryAt? second := by
  rw [entryAt?, find?_append]
  cases tree.find? first <;> rfl

theorem entryAt?_below {tree : FileTree α} {names : List String} (no : tree.entryAt? names ≠ some none)
    {rest : List String} (further : rest ≠ []) : tree.entryAt? (names ++ rest) = none := by
  rw [entryAt?] at no
  rw [entryAt?_append]
  cases found : tree.find? names with
  | none => rfl
  | some inner =>
    cases inner with
    | directory entries => simp [found, content?] at no
    | file content =>
      cases rest with
      | nil => exact absurd rfl further
      | cons name rest => rfl

theorem isDirectoryAt_of_below {tree : FileTree α} {names rest : List String}
    (present : tree.entryAt? (names ++ rest) ≠ none) (further : rest ≠ []) :
    tree.isDirectoryAt names = true := by
  rw [isDirectoryAt_iff]
  by_contra no
  exact present (entryAt?_below no further)

/-! ## Changes to one directory -/

/-- The tree with the entries of a directory changed. -/
def alter (change : List (String × FileTree α) → List (String × FileTree α)) :
    FileTree α → List String → FileTree α
  | .file content, _ => .file content
  | .directory entries, [] => .directory (change entries)
  | .directory entries, name :: rest =>
      match child? name entries with
      | some tree => .directory (setChild name (alter change tree rest) entries)
      | none => .directory entries

theorem insert_eq_alter (tree : FileTree α) (above : List String) (name : String)
    (added : FileTree α) :
    tree.insert (above ++ [name]) added = alter (setChild name added) tree above := by
  induction above generalizing tree with
  | nil => cases tree <;> simp [insert, alter]
  | cons first rest ih =>
    cases tree with
    | file content => simp [insert, alter]
    | directory entries =>
      rw [List.cons_append, alter, insert]
      · cases child? first entries with
        | none => rfl
        | some inner => simp only [ih inner]
      · simp

theorem erase_eq_alter (tree : FileTree α) (above : List String) (name : String) :
    tree.erase (above ++ [name]) = alter (eraseChild name) tree above := by
  induction above generalizing tree with
  | nil => cases tree <;> simp [erase, alter]
  | cons first rest ih =>
    cases tree with
    | file content => simp [erase, alter]
    | directory entries =>
      rw [List.cons_append, alter, erase]
      · cases child? first entries with
        | none => rfl
        | some inner => simp only [ih inner]
      · simp

section Alter

variable {change : List (String × FileTree α) → List (String × FileTree α)}

private theorem find?_alter (tree : FileTree α) (above below : List String) :
    (alter change tree (above ++ below)).find? above =
      (tree.find? above).map fun found => alter change found below := by
  induction above generalizing tree with
  | nil => simp [find?]
  | cons name rest ih =>
    cases tree with
    | file content => simp [find?, alter]
    | directory entries =>
      rw [List.cons_append, alter, find?]
      cases found : child? name entries with
      | none => simp [find?, found]
      | some inner => simp [find?, child?_setChild, ih inner]

private theorem find?_alter_of_diverging {tree : FileTree α} {altered names : List String}
    (notBelow : ¬ altered <+: names) (notAbove : ¬ names <+: altered) :
    (alter change tree altered).find? names = tree.find? names := by
  induction altered generalizing tree names with
  | nil => exact absurd List.nil_prefix notBelow
  | cons name rest ih =>
    cases names with
    | nil => exact absurd List.nil_prefix notAbove
    | cons other later =>
      cases tree with
      | file content => rfl
      | directory entries =>
        rw [alter]
        cases found : child? name entries with
        | none => rfl
        | some inner =>
          by_cases same : other = name
          · subst same
            rw [List.prefix_cons_inj] at notBelow notAbove
            simp [find?, child?_setChild, found, ih notBelow notAbove]
          · simp [find?, child?_setChild, same]

variable {tree : FileTree α} {above : List String} {name : String}
  {entries : List (String × FileTree α)}

private theorem find?_alter_below (found : tree.find? above = some (.directory entries))
    (rest : List String) :
    (alter change tree above).find? (above ++ name :: rest) =
      (child? name (change entries)).bind fun inner => inner.find? rest := by
  have altered := @find?_alter α change tree above []
  rw [List.append_nil, found, Option.map_some, alter] at altered
  rw [find?_append, altered, Option.bind_some, find?]

private theorem entryAt?_alter_below (found : tree.find? above = some (.directory entries))
    (rest : List String) :
    (alter change tree above).entryAt? (above ++ name :: rest) =
      (child? name (change entries)).bind fun inner => inner.entryAt? rest := by
  rw [entryAt?, find?_alter_below found]
  cases child? name (change entries) <;> rfl

private theorem entryAt?_alter_above (further : List String) (names : List String) :
    (alter change tree (names ++ further)).entryAt? names = tree.entryAt? names := by
  rw [entryAt?, find?_alter, entryAt?, Option.map_map]
  congr
  funext inner
  cases inner with
  | file content => rw [Function.comp_apply, alter]
  | directory inner =>
    cases further with
    | nil => rfl
    | cons first rest =>
      rw [Function.comp_apply, alter]
      cases child? first inner <;> rfl

private theorem entryAt?_alter_other (found : tree.find? above = some (.directory entries))
    (others : ∀ other, other ≠ name → child? other (change entries) = child? other entries)
    {names : List String} (apart : ¬ above ++ [name] <+: names) :
    (alter change tree above).entryAt? names = tree.entryAt? names := by
  by_cases higher : names <+: above
  · obtain ⟨rest, rfl⟩ := higher
    exact entryAt?_alter_above rest names
  by_cases below : above <+: names
  · obtain ⟨rest, rfl⟩ := below
    cases rest with
    | nil => exact absurd (by simp) higher
    | cons other later =>
      have different : other ≠ name := by
        intro same
        apply apart
        rw [same, List.prefix_append_right_inj]
        exact ⟨later, rfl⟩
      rw [entryAt?_alter_below found, others other different, entryAt?_append, found,
        Option.bind_some, entryAt?, find?]
      cases child? other entries <;> rfl
  · rw [entryAt?, find?_alter_of_diverging below higher, entryAt?]

end Alter

section Places

variable {tree : FileTree α} {above : List String} {name : String}

private theorem entryAt?_insert_other (parent : tree.isDirectoryAt above = true)
    (added : FileTree α) {names : List String} (apart : ¬ above ++ [name] <+: names) :
    (tree.insert (above ++ [name]) added).entryAt? names = tree.entryAt? names := by
  obtain ⟨entries, found⟩ := isDirectoryAt_iff_find?.1 parent
  rw [insert_eq_alter]
  apply entryAt?_alter_other found _ apart
  intro other different
  rw [child?_setChild, if_neg different]

private theorem entryAt?_insert_below (parent : tree.isDirectoryAt above = true)
    (added : FileTree α) (rest : List String) :
    (tree.insert (above ++ [name]) added).entryAt? (above ++ [name] ++ rest) = added.entryAt? rest := by
  obtain ⟨entries, found⟩ := isDirectoryAt_iff_find?.1 parent
  rw [insert_eq_alter, List.append_assoc, List.singleton_append, entryAt?_alter_below found,
    child?_setChild, if_pos rfl, Option.bind_some]

private theorem entryAt?_eq_update {changed : FileTree α} {place : List String}
    {entry : Option (Option α)}
    (free : tree.isDirectoryAt place = false) (at_ : changed.entryAt? place = entry)
    (below : ∀ rest, rest ≠ [] → changed.entryAt? (place ++ rest) = none)
    (other : ∀ names, ¬ place <+: names → changed.entryAt? names = tree.entryAt? names) :
    changed.entryAt? = Function.update tree.entryAt? place entry := by
  have noDirectory : tree.entryAt? place ≠ some none := by
    intro directory
    rw [isDirectoryAt_iff.2 directory] at free
    cases free
  funext names
  by_cases same : names = place
  · rw [same, Function.update_self, at_]
  rw [Function.update_of_ne same]
  by_cases extended : place <+: names
  · obtain ⟨rest, rfl⟩ := extended
    have further : rest ≠ [] := by
      intro none
      exact same (by rw [none, List.append_nil])
    rw [below rest further, entryAt?_below noDirectory further]
  · exact other names extended

private theorem entryAt?_insert (parent : tree.isDirectoryAt above = true)
    (free : tree.isDirectoryAt (above ++ [name]) = false) {added : FileTree α}
    (single : ∀ rest, rest ≠ [] → added.entryAt? rest = none) :
    (tree.insert (above ++ [name]) added).entryAt? =
      Function.update tree.entryAt? (above ++ [name]) (some added.content?) := by
  apply entryAt?_eq_update free
  · have inserted := @entryAt?_insert_below α tree above name parent added []
    rwa [List.append_nil] at inserted
  · intro rest further
    rw [entryAt?_insert_below parent, single rest further]
  · intro names apart
    exact entryAt?_insert_other parent added apart

theorem entryAt?_insert_file (parent : tree.isDirectoryAt above = true)
    (free : tree.isDirectoryAt (above ++ [name]) = false) (content : α) :
    (tree.insert (above ++ [name]) (.file content)).entryAt? =
      Function.update tree.entryAt? (above ++ [name]) (some (some content)) := by
  apply entryAt?_insert parent free
  intro rest further
  cases rest with
  | nil => exact absurd rfl further
  | cons first rest => rfl

theorem entryAt?_insert_directory (parent : tree.isDirectoryAt above = true)
    (absent : tree.entryAt? (above ++ [name]) = none) :
    (tree.insert (above ++ [name]) (.directory [])).entryAt? =
      Function.update tree.entryAt? (above ++ [name]) (some none) := by
  have free : tree.isDirectoryAt (above ++ [name]) = false := by
    rw [Bool.eq_false_iff, ne_eq, isDirectoryAt_iff, absent]
    exact fun same => by cases same
  apply entryAt?_insert parent free
  intro rest further
  cases rest with
  | nil => exact absurd rfl further
  | cons first rest => rfl

theorem entryAt?_erase_below (parent : tree.isDirectoryAt above = true) (rest : List String) :
    (tree.erase (above ++ [name])).entryAt? (above ++ [name] ++ rest) = none := by
  obtain ⟨entries, found⟩ := isDirectoryAt_iff_find?.1 parent
  rw [erase_eq_alter, List.append_assoc, List.singleton_append, entryAt?_alter_below found,
    child?_eraseChild, if_pos rfl]
  rfl

theorem entryAt?_erase_other (parent : tree.isDirectoryAt above = true) {names : List String}
    (apart : ¬ above ++ [name] <+: names) :
    (tree.erase (above ++ [name])).entryAt? names = tree.entryAt? names := by
  obtain ⟨entries, found⟩ := isDirectoryAt_iff_find?.1 parent
  rw [erase_eq_alter]
  apply entryAt?_alter_other found _ apart
  intro other different
  rw [child?_eraseChild, if_neg different]

theorem entryAt?_erase (parent : tree.isDirectoryAt above = true)
    (free : tree.isDirectoryAt (above ++ [name]) = false) :
    (tree.erase (above ++ [name])).entryAt? =
      Function.update tree.entryAt? (above ++ [name]) none := by
  have erased := @entryAt?_erase_below α tree above name parent
  apply entryAt?_eq_update free
  · have here := erased []
    rwa [List.append_nil] at here
  · intro rest _
    exact erased rest
  · intro names apart
    exact entryAt?_erase_other parent apart

end Places

/-! ## Directories that list each name once -/

/-- Every directory lists each name once. -/
inductive Distinct : FileTree α → Prop where
  | file (content : α) : Distinct (.file content)
  | directory {entries : List (String × FileTree α)} (names : (entries.map Prod.fst).Nodup)
      (each : ∀ entry ∈ entries, Distinct entry.2) : Distinct (.directory entries)

theorem mem_of_child? {name : String} {tree : FileTree α} {entries : List (String × FileTree α)}
    (found : child? name entries = some tree) : (name, tree) ∈ entries := by
  induction entries with
  | nil => cases found
  | cons entry rest ih =>
    rw [child?] at found
    split at found
    · next same =>
      cases found
      exact same ▸ List.mem_cons_self
    · exact List.mem_cons_of_mem _ (ih found)

theorem child?_of_mem {name : String} {tree : FileTree α} {entries : List (String × FileTree α)}
    (names : (entries.map Prod.fst).Nodup) (member : (name, tree) ∈ entries) :
    child? name entries = some tree := by
  induction entries with
  | nil => cases member
  | cons entry rest ih =>
    rw [List.map_cons, List.nodup_cons] at names
    rw [child?]
    cases List.mem_cons.1 member with
    | inl same => rw [← same, if_pos rfl]
    | inr later =>
      have different : entry.1 ≠ name := by
        intro same
        exact names.1 (same ▸ List.mem_map_of_mem later)
      rw [if_neg different, ih names.2 later]

theorem isSome_child?_iff {name : String} {entries : List (String × FileTree α)} :
    (child? name entries).isSome = true ↔ name ∈ entries.map Prod.fst := by
  induction entries with
  | nil => simp [child?]
  | cons entry rest ih =>
    rw [child?, List.map_cons, List.mem_cons, ← ih]
    by_cases same : entry.1 = name
    · simp [same]
    · simp [same, Ne.symm same]

private theorem names_setChild (name : String) (tree : FileTree α)
    (entries : List (String × FileTree α)) :
    (setChild name tree entries).map Prod.fst =
      if name ∈ entries.map Prod.fst then entries.map Prod.fst else entries.map Prod.fst ++ [name] := by
  induction entries with
  | nil => simp [setChild]
  | cons entry rest ih =>
    rw [setChild]
    by_cases same : entry.1 = name
    · simp [same]
    · rw [if_neg same, List.map_cons, ih, List.map_cons]
      by_cases listed : name ∈ rest.map Prod.fst
      · rw [if_pos listed, if_pos (List.mem_cons_of_mem _ listed)]
      · have absent : name ∉ entry.1 :: rest.map Prod.fst := by
          rw [List.mem_cons]
          exact not_or.2 ⟨Ne.symm same, listed⟩
        rw [if_neg listed, if_neg absent, List.cons_append]

private theorem mem_setChild {name : String} {tree : FileTree α}
    {entries : List (String × FileTree α)}
    {entry : String × FileTree α} (member : entry ∈ setChild name tree entries) :
    entry = (name, tree) ∨ entry ∈ entries := by
  induction entries with
  | nil => exact .inl (List.mem_singleton.1 member)
  | cons first rest ih =>
    rw [setChild] at member
    split at member
    · cases List.mem_cons.1 member with
      | inl same => exact .inl same
      | inr later => exact .inr (List.mem_cons_of_mem _ later)
    · cases List.mem_cons.1 member with
      | inl same => exact .inr (same ▸ List.mem_cons_self)
      | inr later =>
        cases ih later with
        | inl same => exact .inl same
        | inr later => exact .inr (List.mem_cons_of_mem _ later)

theorem Distinct.setChild {name : String} {tree : FileTree α} (added : tree.Distinct)
    {entries : List (String × FileTree α)} (distinct : Distinct (.directory entries)) :
    Distinct (.directory (setChild name tree entries)) := by
  cases distinct with
  | directory names each =>
    constructor
    · rw [names_setChild]
      split
      · exact names
      · next absent =>
        rw [List.nodup_append]
        refine ⟨names, List.nodup_singleton name, ?_⟩
        intro first listed second same
        rw [List.mem_singleton.1 same]
        exact fun equal => absent (equal ▸ listed)
    · intro entry member
      cases mem_setChild member with
      | inl same => exact same ▸ added
      | inr listed => exact each entry listed

theorem Distinct.find? {tree found : FileTree α} (distinct : tree.Distinct) {names : List String}
    (leads : tree.find? names = some found) : found.Distinct := by
  induction names generalizing tree with
  | nil =>
    cases leads
    exact distinct
  | cons name rest ih =>
    cases distinct with
    | file content => cases leads
    | directory names each =>
      obtain ⟨inner, entry, below⟩ := Option.bind_eq_some_iff.1 leads
      exact ih (each _ (mem_of_child? entry)) below

theorem Distinct.alter {added : FileTree α} (addedDistinct : added.Distinct) (name : String)
    {tree : FileTree α} (distinct : tree.Distinct) (above : List String) :
    (alter (FileTree.setChild name added) tree above).Distinct := by
  induction above generalizing tree with
  | nil =>
    cases tree with
    | file content => exact .file content
    | directory entries => exact addedDistinct.setChild distinct
  | cons first rest ih =>
    cases tree with
    | file content => exact .file content
    | directory entries =>
      rw [FileTree.alter]
      cases found : child? first entries with
      | none => exact distinct
      | some inner =>
        have leads : (FileTree.directory entries).find? [first] = some inner := by
          rw [FileTree.find?, found]
          rfl
        have innerDistinct := distinct.find? leads
        exact (ih innerDistinct).setChild distinct

/-- What stands at a place, if anything does, lists each name once in every directory. -/
def DistinctAt (tree : FileTree α) (place : List String) : Prop :=
  ∀ found, tree.find? place = some found → found.Distinct

theorem DistinctAt.insert {tree : FileTree α} {place : List String} (distinct : tree.DistinctAt place)
    {above : List String} {name : String} (parent : tree.isDirectoryAt above = true)
    {added : FileTree α} (addedDistinct : added.Distinct) :
    (tree.insert (above ++ [name]) added).DistinctAt place := by
  rw [insert_eq_alter]
  intro found leads
  obtain ⟨entries, directory⟩ := isDirectoryAt_iff_find?.1 parent
  by_cases higher : place <+: above
  · obtain ⟨rest, rfl⟩ := higher
    rw [find?_alter] at leads
    obtain ⟨inner, before, rfl⟩ := Option.map_eq_some_iff.1 leads
    exact addedDistinct.alter name (distinct inner before) rest
  by_cases below : above <+: place
  · obtain ⟨rest, rfl⟩ := below
    cases rest with
    | nil => exact absurd (by simp) higher
    | cons other later =>
      rw [find?_alter_below directory, child?_setChild] at leads
      by_cases same : other = name
      · rw [if_pos same] at leads
        exact addedDistinct.find? leads
      · rw [if_neg same] at leads
        apply distinct found
        rw [find?_append, directory]
        exact leads
  · rw [find?_alter_of_diverging below higher] at leads
    exact distinct found leads

/-! ## The files of a tree -/

@[elab_as_elim]
theorem induction {motive : FileTree α → Prop} (file : ∀ content, motive (.file content))
    (directory : ∀ entries, (∀ entry ∈ entries, motive entry.2) → motive (.directory entries))
    (tree : FileTree α) : motive tree :=
  @FileTree.rec α motive (fun entries => ∀ entry ∈ entries, motive entry.2)
    (fun entry => motive entry.2) file directory (by simp)
    (fun _ _ first rest => List.forall_mem_cons.2 ⟨first, rest⟩) (fun _ _ below => below) tree

theorem entryFiles_eq (entries : List (String × FileTree α)) :
    entryFiles entries = entries.flatMap fun entry =>
      entry.2.files.map fun found => (entry.1 :: found.1, found.2) := by
  induction entries with
  | nil => rw [entryFiles, List.flatMap_nil]
  | cons entry rest ih => rw [entryFiles, ih, List.flatMap_cons]

theorem mem_files_iff {tree : FileTree α} (distinct : tree.Distinct) {names : List String}
    {content : α} : (names, content) ∈ tree.files ↔ tree.contentAt? names = some content := by
  induction distinct generalizing names with
  | file held =>
    cases names with
    | nil => simp [files, contentAt?, find?, content?, eq_comm]
    | cons name rest => simp [files, contentAt?, find?]
  | @directory entries listed each ih =>
    rw [files, entryFiles_eq, List.mem_flatMap]
    constructor
    · intro found
      obtain ⟨entry, member, within⟩ := found
      obtain ⟨inner, innerMember, same⟩ := List.mem_map.1 within
      cases same
      have held := (ih entry member).1 innerMember
      rw [contentAt?, find?, child?_of_mem listed member]
      exact held
    · intro held
      cases names with
      | nil => cases held
      | cons name rest =>
        obtain ⟨found, leads, content⟩ := Option.bind_eq_some_iff.1 held
        obtain ⟨inner, entry, below⟩ := Option.bind_eq_some_iff.1 leads
        have member := mem_of_child? entry
        refine ⟨(name, inner), member, List.mem_map.2 ⟨(rest, _), (ih _ member).2 ?_, rfl⟩⟩
        rw [contentAt?, below]
        exact content

private theorem Distinct.nodup_files {tree : FileTree α} (distinct : tree.Distinct) :
    (tree.files.map Prod.fst).Nodup := by
  induction distinct with
  | file content => simp [files]
  | @directory entries listed each ih =>
    rw [files, entryFiles_eq, List.map_flatMap, List.nodup_flatMap]
    constructor
    · intro entry member
      rw [List.map_map]
      have below := (ih entry member).map (List.cons_injective (a := entry.1))
      rwa [List.map_map] at below
    · rw [List.Nodup, List.pairwise_map] at listed
      apply listed.imp
      intro first second different names inFirst inSecond
      obtain ⟨_, one, rfl⟩ := List.mem_map.1 inFirst
      obtain ⟨_, two, same⟩ := List.mem_map.1 inSecond
      obtain ⟨_, _, rfl⟩ := List.mem_map.1 one
      obtain ⟨_, _, rfl⟩ := List.mem_map.1 two
      exact different (List.cons.inj same).1.symm

private theorem namesLe_total (first second : List String) :
    (namesLe first second || namesLe second first) = true := by
  induction first generalizing second with
  | nil => simp [namesLe]
  | cons name rest ih =>
    cases second with
    | nil => simp [namesLe]
    | cons other later =>
      rw [namesLe, namesLe]
      by_cases same : name = other
      · rw [if_pos same, if_pos same.symm]
        exact ih later
      · rw [if_neg same, if_neg (Ne.symm same)]
        rw [Bool.or_eq_true, decide_eq_true_eq, decide_eq_true_eq]
        by_contra neither
        rw [not_or, String.not_lt, String.not_lt] at neither
        exact same (String.le_antisymm neither.2 neither.1)

theorem namesLe_trans {first second third : List String} (before : namesLe first second = true)
    (after : namesLe second third = true) : namesLe first third = true := by
  induction first generalizing second third with
  | nil => rw [namesLe]
  | cons name rest ih =>
    cases second with
    | nil => cases before
    | cons other later =>
      cases third with
      | nil => cases after
      | cons last further =>
        rw [namesLe] at before after ⊢
        by_cases same : name = other
        · subst same
          rw [if_pos rfl] at before
          by_cases equal : name = last
          · rw [if_pos equal] at after ⊢
            exact ih before after
          · rw [if_neg equal] at after ⊢
            exact after
        · rw [if_neg same, decide_eq_true_eq] at before
          by_cases equal : other = last
          · subst equal
            rw [if_neg same, decide_eq_true_eq]
            exact before
          · rw [if_neg equal, decide_eq_true_eq] at after
            have smaller := String.lt_trans before after
            have different : name ≠ last := fun same => String.lt_irrefl name (same ▸ smaller)
            rw [if_neg different, decide_eq_true_eq]
            exact smaller

private theorem pairwise_orderedFiles (tree : FileTree α) :
    tree.orderedFiles.Pairwise fun first second => namesLe first.1 second.1 = true := by
  cases tree with
  | file content => exact List.pairwise_singleton _ _
  | directory entries =>
      apply List.pairwise_mergeSort
      · exact fun _ _ _ => namesLe_trans
      · exact fun first second => namesLe_total first.1 second.1

theorem Distinct.orderedFiles {tree : FileTree α} (distinct : tree.Distinct) :
    let names := tree.orderedFiles.map Prod.fst
    names.Pairwise (fun first second => namesLe first second = true) ∧ names.Nodup ∧
      ∀ listed, listed ∈ names ↔ (tree.contentAt? listed).isSome := by
  have found := (orderedFiles_perm tree).map Prod.fst
  refine ⟨List.pairwise_map.2 (pairwise_orderedFiles _), found.nodup_iff.2 distinct.nodup_files, ?_⟩
  intro listed
  rw [found.mem_iff, List.mem_map, Option.isSome_iff_exists]
  constructor
  · intro found
    obtain ⟨entry, member, rfl⟩ := found
    exact ⟨entry.2, (mem_files_iff distinct).1 member⟩
  · intro held
    obtain ⟨content, held⟩ := held
    exact ⟨_, (mem_files_iff distinct).2 held, rfl⟩

/-! ## Other contents -/

private theorem mapEntries_eq (change : α → β) (entries : List (String × FileTree α)) :
    mapEntries change entries = entries.map fun entry => (entry.1, entry.2.map change) := by
  induction entries with
  | nil => rw [mapEntries, List.map_nil]
  | cons entry rest ih => rw [mapEntries, ih, List.map_cons]

private theorem child?_mapEntries (change : α → β) (name : String)
    (entries : List (String × FileTree α)) :
    child? name (mapEntries change entries) = (child? name entries).map (map change) := by
  induction entries with
  | nil => rfl
  | cons entry rest ih =>
    simp only [mapEntries, child?, ih]
    split <;> rfl

private theorem find?_map (change : α → β) (tree : FileTree α) (names : List String) :
    (tree.map change).find? names = (tree.find? names).map (map change) := by
  induction names generalizing tree with
  | nil => simp [find?]
  | cons name rest ih =>
    cases tree with
    | file content => rfl
    | directory entries =>
      simp only [map, find?, child?_mapEntries]
      cases child? name entries with
      | none => rfl
      | some inner => exact ih inner

theorem contentAt?_map (change : α → β) (tree : FileTree α) (names : List String) :
    (tree.map change).contentAt? names = (tree.contentAt? names).map change := by
  simp only [contentAt?, find?_map]
  cases tree.find? names with
  | none => rfl
  | some found => cases found <;> rfl

theorem Distinct.map {tree : FileTree α} (distinct : tree.Distinct) (change : α → β) :
    (tree.map change).Distinct := by
  induction distinct with
  | file content => exact .file (change content)
  | directory names each ih =>
    rw [FileTree.map, mapEntries_eq]
    constructor
    · rwa [List.map_map]
    · intro entry member
      obtain ⟨inner, listed, rfl⟩ := List.mem_map.1 member
      exact ih inner listed

end FileTree

end GraphqlStore
