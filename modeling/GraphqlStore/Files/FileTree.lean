/-!
Trees of files. A directory lists its entries in any order. The files of a
tree are found by listing one directory after the other, and then ordered by
the names that lead to them from the top. Main statements: which entry a name
has after one is written or removed.
-/

set_option autoImplicit false

namespace GraphqlStore

/-- A file, or a directory of named entries. -/
inductive FileTree (α : Type) where
  | file (content : α)
  | directory (entries : List (String × FileTree α))

namespace FileTree

variable {α β : Type}

instance : Inhabited (FileTree α) := ⟨.directory []⟩

def isDirectory : FileTree α → Bool
  | .file _ => false
  | .directory _ => true

def content? : FileTree α → Option α
  | .file content => some content
  | .directory _ => none

mutual

def map (change : α → β) : FileTree α → FileTree β
  | .file content => .file (change content)
  | .directory entries => .directory (mapEntries change entries)

def mapEntries (change : α → β) : List (String × FileTree α) → List (String × FileTree β)
  | [] => []
  | (name, tree) :: rest => (name, map change tree) :: mapEntries change rest

end

/-- Whether the first names are not after the second: the first name that differs decides, and a
list comes before its continuations. -/
def namesLe : List String → List String → Bool
  | [], _ => true
  | _ :: _, [] => false
  | first :: firstRest, second :: secondRest =>
      if first = second then namesLe firstRest secondRest else decide (first < second)

/-! ## Walking through directories -/

mutual

def directories : FileTree α → Nat
  | .file _ => 0
  | .directory entries => entryDirectories entries + 1

/-- How many directories the entries of a directory have. -/
def entryDirectories : List (String × FileTree α) → Nat
  | [] => 0
  | (_, tree) :: rest => directories tree + entryDirectories rest

end

/-- A walk through directories: those that are still to be listed, the next one first, and the
files that have been found, the last one first. -/
structure Walk (α : Type) where
  pending : List (List String × List (String × FileTree α))
  found : List (List String × α)

namespace Walk

def meet (names : List String) (walk : Walk α) : String × FileTree α → Walk α
  | (name, .file content) => ⟨walk.pending, (names ++ [name], content) :: walk.found⟩
  | (name, .directory entries) => ⟨(names ++ [name], entries) :: walk.pending, walk.found⟩

def enter (names : List String) (entries : List (String × FileTree α)) (walk : Walk α) : Walk α :=
  entries.foldl (meet names) walk

/-- How many directories are still to be listed, those below included. -/
def pendingDirectories : List (List String × List (String × FileTree α)) → Nat
  | [] => 0
  | (_, entries) :: rest => entryDirectories entries + 1 + pendingDirectories rest

theorem pendingDirectories_enter (names : List String) (entries : List (String × FileTree α))
    (walk : Walk α) :
    pendingDirectories (enter names entries walk).pending =
      pendingDirectories walk.pending + entryDirectories entries := by
  induction entries generalizing walk with
  | nil => rw [enter, List.foldl_nil, entryDirectories, Nat.add_zero]
  | cons entry rest ih =>
      obtain ⟨name, tree⟩ := entry
      have later := ih (meet names walk (name, tree))
      rw [enter] at later
      rw [enter, List.foldl_cons, later]
      cases tree with
      | file content => simp only [meet, entryDirectories, directories, Nat.zero_add]
      | directory inner =>
          simp only [meet, pendingDirectories, entryDirectories, directories]
          omega

/-- Lists one directory after the other. The directories in a directory come before those that
have been pending. -/
def run : Walk α → List (List String × α)
  | ⟨[], found⟩ => found
  | ⟨(names, entries) :: pending, found⟩ => run (enter names entries ⟨pending, found⟩)
termination_by walk => pendingDirectories walk.pending
decreasing_by
  simp only [pendingDirectories_enter, pendingDirectories]
  omega

end Walk

/-- The files of a tree, ordered by the names that lead to them. -/
def orderedFiles : FileTree α → List (List String × α)
  | .file content => [([], content)]
  | .directory entries =>
      (Walk.run ⟨[([], entries)], []⟩).mergeSort fun first second => namesLe first.1 second.1

def child? (name : String) : List (String × FileTree α) → Option (FileTree α)
  | [] => none
  | (other, tree) :: rest => if other = name then some tree else child? name rest

def setChild (name : String) (tree : FileTree α) :
    List (String × FileTree α) → List (String × FileTree α)
  | [] => [(name, tree)]
  | (other, old) :: rest =>
      if other = name then (name, tree) :: rest else (other, old) :: setChild name tree rest

def eraseChild (name : String) (entries : List (String × FileTree α)) :
    List (String × FileTree α) :=
  entries.filter fun entry => entry.1 != name

theorem child?_setChild (name other : String) (tree : FileTree α)
    (entries : List (String × FileTree α)) :
    child? other (setChild name tree entries) =
      if other = name then some tree else child? other entries := by
  induction entries with
  | nil =>
      by_cases same : other = name
      · simp [setChild, child?, same]
      · simp [setChild, child?, same, Ne.symm same]
  | cons entry rest ih =>
      obtain ⟨first, old⟩ := entry
      by_cases replaced : first = name
      · by_cases same : other = name
        · simp [setChild, child?, replaced, same]
        · simp [setChild, child?, replaced, same, Ne.symm same]
      · by_cases found : first = other
        · have different : other ≠ name := fun same => replaced (found.trans same)
          simp [setChild, child?, found, different]
        · simp only [setChild, replaced, if_false, child?, found, ih]

theorem child?_eraseChild (name other : String) (entries : List (String × FileTree α)) :
    child? other (eraseChild name entries) = if other = name then none else child? other entries := by
  induction entries with
  | nil => simp [eraseChild, child?]
  | cons entry rest ih =>
      obtain ⟨first, old⟩ := entry
      unfold eraseChild at ih ⊢
      by_cases removed : first = name
      · rw [List.filter_cons_of_neg (by simp [removed]), ih]
        by_cases same : other = name
        · simp [same]
        · simp [child?, removed, same, Ne.symm same]
      · rw [List.filter_cons_of_pos (by simp [removed])]
        by_cases found : first = other
        · have different : other ≠ name := fun same => removed (found.trans same)
          simp [child?, found, different]
        · simp only [child?, found, if_false, ih]

def find? : FileTree α → List String → Option (FileTree α)
  | tree, [] => some tree
  | .file _, _ :: _ => none
  | .directory entries, name :: rest => (child? name entries).bind fun tree => find? tree rest

/-- The tree with another one in the place to which names lead. Nothing changes if the directory of
that place is missing. -/
def insert (tree : FileTree α) (names : List String) (added : FileTree α) : FileTree α :=
  match tree, names with
  | _, [] => added
  | .file content, _ :: _ => .file content
  | .directory entries, [name] => .directory (setChild name added entries)
  | .directory entries, name :: rest =>
      match child? name entries with
      | some tree => .directory (setChild name (insert tree rest added) entries)
      | none => .directory entries

/-- The tree without what stands in the place to which names lead. -/
def erase : FileTree α → List String → FileTree α
  | tree, [] => tree
  | .file content, _ :: _ => .file content
  | .directory entries, [name] => .directory (eraseChild name entries)
  | .directory entries, name :: rest =>
      match child? name entries with
      | some tree => .directory (setChild name (erase tree rest) entries)
      | none => .directory entries

def contentAt? (tree : FileTree α) (names : List String) : Option α :=
  (tree.find? names).bind content?

def isDirectoryAt (tree : FileTree α) (names : List String) : Bool :=
  (tree.find? names).any isDirectory

end FileTree

end GraphqlStore
