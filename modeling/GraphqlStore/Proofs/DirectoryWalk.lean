import GraphqlStore.Files.FileTree

/-!
A walk through directories lists each of them once, and finds the files of a
tree, each of them as often as the tree holds it. At every moment the files
that have been found and those below the directories that are still to be
listed make up all files.
-/

set_option autoImplicit false

namespace GraphqlStore

namespace FileTree

variable {α : Type}

mutual

/-- The files of a tree with the names that lead to them. -/
def files : FileTree α → List (List String × α)
  | .file content => [([], content)]
  | .directory entries => entryFiles entries

def entryFiles : List (String × FileTree α) → List (List String × α)
  | [] => []
  | (name, tree) :: rest => (files tree).map (fun found => (name :: found.1, found.2)) ++ entryFiles rest

end

namespace Walk

/-- Files by the names that lead to them through a directory. -/
def filesBelow (names : List String) (files : List (List String × α)) : List (List String × α) :=
  files.map fun found => (names ++ found.1, found.2)

/-- The files that have been found, and those that are still to be found. -/
def allFiles (walk : Walk α) : List (List String × α) :=
  walk.found ++ walk.pending.flatMap fun directory => filesBelow directory.1 (entryFiles directory.2)

private theorem allFiles_meet (names : List String) (walk : Walk α) (name : String)
    (tree : FileTree α) :
    (meet names walk (name, tree)).allFiles.Perm
      (filesBelow names (tree.files.map fun found => (name :: found.1, found.2)) ++ walk.allFiles) := by
  cases tree with
  | file content => exact .refl _
  | directory entries =>
      have moved : filesBelow names (entryFiles entries |>.map fun found => (name :: found.1, found.2)) =
          filesBelow (names ++ [name]) (entryFiles entries) := by
        simp [filesBelow, Function.comp_def]
      simp only [allFiles, meet, List.flatMap_cons, files, moved]
      exact List.perm_append_comm_assoc _ _ _

private theorem allFiles_enter (names : List String) (entries : List (String × FileTree α))
    (walk : Walk α) :
    (enter names entries walk).allFiles.Perm (filesBelow names (entryFiles entries) ++ walk.allFiles) := by
  induction entries generalizing walk with
  | nil => exact .refl _
  | cons entry rest ih =>
      obtain ⟨name, tree⟩ := entry
      have later : (enter names ((name, tree) :: rest) walk).allFiles.Perm
          (filesBelow names (entryFiles rest) ++ (meet names walk (name, tree)).allFiles) :=
        ih (meet names walk (name, tree))
      refine later.trans (((allFiles_meet names walk name tree).append_left _).trans ?_)
      simp only [entryFiles, filesBelow, List.map_append, List.append_assoc]
      exact List.perm_append_comm_assoc _ _ _

private theorem run_perm (walk : Walk α) : walk.run.Perm walk.allFiles := by
  fun_induction run walk with
  | case1 found => simp [allFiles]
  | case2 names entries pending found ih =>
      refine ih.trans ((allFiles_enter names entries ⟨pending, found⟩).trans ?_)
      exact List.perm_append_comm_assoc _ _ _

end Walk

theorem orderedFiles_perm (tree : FileTree α) : tree.orderedFiles.Perm tree.files := by
  cases tree with
  | file content => exact .refl _
  | directory entries =>
      refine (List.mergeSort_perm _ _).trans ((Walk.run_perm _).trans ?_)
      simp [Walk.allFiles, Walk.filesBelow, files]

end FileTree

end GraphqlStore
