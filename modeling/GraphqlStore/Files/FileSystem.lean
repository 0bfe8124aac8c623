import GraphqlStore.Files.FileTree
import GraphqlStore.Files.Path

/-!
What a program may ask of a file system, and the requests that are made of
several: a directory with those above it, the directory in which a path lies,
and the text of a file.
-/

set_option autoImplicit false

namespace GraphqlStore

/-- Why a file system refuses a request. -/
inductive FileError where
  | notFound
  | alreadyExists
  | notDirectory
  | isDirectory
  | nameTooLong
  | zeroCharacter
  | invalidText
  | other (message : String)
deriving DecidableEq, Repr

namespace FileError

def message : FileError → String
  | .notFound => "No such file or directory (os error 2)"
  | .alreadyExists => "File exists (os error 17)"
  | .notDirectory => "Not a directory (os error 20)"
  | .isDirectory => "Is a directory (os error 21)"
  | .nameTooLong => "File name too long (os error 36)"
  | .zeroCharacter => "file name contained an unexpected NUL byte"
  | .invalidText => "stream did not contain valid UTF-8"
  | .other message => message

end FileError

namespace FileSystem

section Directories

variable {m : Type → Type} [Monad m] (present : Path → m Bool)
  (make : Path → m (Except FileError Unit))

def ensureDirectory (path : Path) : m (Except FileError Unit) := do
  match ← make path with
  | .ok () => return .ok ()
  | .error reason => if ← present path then return .ok () else return .error reason

/-- Makes a directory, and before it those of the given ones above it that are missing. -/
def makeBelow (path : Path) : List Path → m (Except FileError Unit)
  | [] =>
      if path.segments.isEmpty && !path.absolute then return .ok ()
      else ensureDirectory present make path
  | parent :: above => do
      match ← ensureDirectory present make path with
      | .error .notFound =>
          match ← makeBelow parent above with
          | .ok () => ensureDirectory present make path
          | .error reason => return .error reason
      | result => return result

/-- Makes a directory with those above it, one by one. -/
def makeStepwise (path : Path) : m (Except FileError Unit) :=
  makeBelow present make path path.ancestors

end Directories

end FileSystem

/-- What a program may ask of a file system. A request that is refused has no effect, but that it
may have made some of several directories. -/
class FileSystem (m : Type → Type) where
  /-- Whether there is a directory. -/
  isDirectory : Path → m Bool
  /-- Whether there is a file or a directory. -/
  isPresent : Path → m Bool
  /-- The content of a file. -/
  read : Path → m (Except FileError ByteArray)
  /-- The names below a directory; a refusal says which directory cannot be listed. -/
  listing : Path → m (Except (Path × FileError) (FileTree Unit))
  /-- Makes a directory with those above it that are missing. -/
  makeDirectories : Path → m (Except FileError Unit)
  /-- Writes a file, in the place of an old one if there is one. -/
  write : Path → ByteArray → m (Except FileError Unit)
  /-- Moves a file, in the place of an old one if there is one. -/
  move : Path → Path → m (Except FileError Unit)
  /-- Moves a file back to the place that is given second, if that can be done. -/
  restore : Path → Path → m Unit
  /-- Removes a file, if that can be done. -/
  discard : Path → m Unit
  /-- Makes a directory with a new name in a directory. The name starts with the given text. -/
  makeScratch : Path → String → m (Except FileError Path)
  /-- Removes a directory with all that is in it. -/
  removeScratch : Path → m Unit

namespace FileSystem

variable {m : Type → Type} [Monad m] [FileSystem m]

def makeParent (path : Path) : m (Except (Path × FileError) Unit) := do
  match path.parent? with
  | none => return .ok ()
  | some parent => return (← makeDirectories parent).mapError fun reason => (parent, reason)

def readText (path : Path) : m (Except FileError String) := do
  match ← read path with
  | .error reason => return .error reason
  | .ok content =>
      match String.fromUTF8? content with
      | some text => return .ok text
      | none => return .error .invalidText

/-- The names of the files below a directory in increasing order; none if it is missing. -/
def filesBelow (path : Path) : m (Except (Path × FileError) (List (List String))) := do
  if ← isDirectory path then
    return (← listing path).map fun tree => tree.orderedFiles.map Prod.fst
  else return .ok []

end FileSystem

end GraphqlStore
