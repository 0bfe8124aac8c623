import GraphqlStore.Files.FileSystem
import GraphqlStore.Output.Store

/-!
Writing output files as a whole. All files are first written to a staging
directory and then moved to their places one after the other. A file that is
in the way is moved to a backup; if a move is refused, the changes made so
far are undone, the latest first.
-/

set_option autoImplicit false

namespace GraphqlStore

/-- Why output files are not written. -/
inductive PublishError where
  | makeDirectory (path : Path) (reason : FileError)
  | makeScratch (root : Path) (reason : FileError)
  | escapes (path : String)
  | write (path : Path) (reason : FileError)
  | list (path : Path) (reason : FileError)
  | occupied (path : Path)
  | backUp (path : Path) (reason : FileError)
  | publish (path : Path) (reason : FileError)
deriving DecidableEq, Repr

namespace PublishError

/-- What was attempted, and then what prevented it. -/
def chain : PublishError → List String
  | .makeDirectory path reason => ["create " ++ path.text, reason.message]
  | .makeScratch root reason => ["create staging directory in " ++ root.text, reason.message]
  | .escapes path => ["output path " ++ path ++ " escapes the output root"]
  | .write path reason => ["write " ++ path.text, reason.message]
  | .list path reason => ["read " ++ path.text, reason.message]
  | .occupied path => ["output path " ++ path.text ++ " is a directory"]
  | .backUp path reason => ["back up " ++ path.text, reason.message]
  | .publish path reason => ["publish " ++ path.text, reason.message]

end PublishError

/-- A change to the output files. -/
inductive Change where
  | created (target : Path)
  | replaced (target backup : Path)
deriving DecidableEq, Repr

def Change.target : Change → Path
  | .created target => target
  | .replaced target _ => target

namespace Publication

variable {m : Type → Type} [Monad m] [FileSystem m]

/-- Makes a request; a refusal ends the work. -/
def request {ε α : Type} (failed : ε → PublishError) (result : m (Except ε α)) :
    ExceptT PublishError m α :=
  ExceptT.mk do return (← result).mapError failed

def makeParent (path : Path) : ExceptT PublishError m Unit :=
  request (fun failure => .makeDirectory failure.1 failure.2) (FileSystem.makeParent path)

def stage (staging : Path) (file : OutputFile) : ExceptT PublishError m Unit := do
  let path := Path.ofText file.path
  if path.absolute || path.climbs then throw (.escapes file.path)
  let target := staging.join path
  makeParent target
  request (.write target) (FileSystem.write target file.content.toUTF8)

/-- Makes room for a file at the place of the given names. A file that is there becomes a backup. -/
def makeRoom (backups root : Path) (names : List String) : ExceptT PublishError m Change := do
  let target := root.join (.ofNames names)
  if ← FileSystem.isDirectory (m := m) target then throw (.occupied target)
  makeParent target
  if ← FileSystem.isPresent (m := m) target then
    let backup := backups.join (.ofNames names)
    makeParent backup
    request (.backUp target) (FileSystem.move target backup)
    return .replaced target backup
  else return .created target

/-- Moves files of the staging directory to their places after the changes `done`. The result has
all changes, the latest first, and what ended the work early. -/
def placeAll (staging backups root : Path) (done : List Change) :
    List (List String) → m (List Change × Option PublishError)
  | [] => return (done, none)
  | names :: rest => do
      match ← (makeRoom backups root names).run with
      | .error reason => return (done, some reason)
      | .ok change =>
          match ← FileSystem.move (staging.join (.ofNames names)) change.target with
          | .error reason => return (change :: done, some (.publish change.target reason))
          | .ok () => placeAll staging backups root (change :: done) rest

/-- Takes changes back, the latest first. -/
def undo : List Change → m Unit
  | [] => return ()
  | .created target :: earlier => do
      FileSystem.discard target
      undo earlier
  | .replaced target backup :: earlier => do
      FileSystem.restore backup target
      undo earlier

/-- Moves all files of a staging directory to their places, or none. -/
def publish (staging backups root : Path) : ExceptT PublishError m (List Path) := do
  let files ← request (fun failure => .list failure.1 failure.2) (FileSystem.filesBelow staging)
  ExceptT.mk do
    match ← placeAll staging backups root [] files with
    | (changes, none) => return .ok (changes.map Change.target).reverse
    | (changes, some reason) =>
        undo changes
        return .error reason

/-- Does work that needs a scratch directory, and removes the directory. -/
def removing {α : Type} (scratch : Path) (work : ExceptT PublishError m α) :
    ExceptT PublishError m α :=
  ExceptT.mk do
    let result ← work.run
    FileSystem.removeScratch scratch
    return result

/-- How the names of scratch directories start. -/
def scratchStart : String := ".storegen-txn"

/-- Writes output files below a root, all of them or none. The result lists their places. -/
def writeAll (root : Path) (files : List OutputFile) : ExceptT PublishError m (List Path) := do
  request (.makeDirectory root) (FileSystem.makeDirectories root)
  let scratch ← request (.makeScratch root) (FileSystem.makeScratch root scratchStart)
  let staging := scratch.join (.ofNames ["staging"])
  removing scratch do
    files.forM (stage staging)
    publish staging (scratch.join (.ofNames ["backup"])) root

end Publication

end GraphqlStore
