import GraphqlStore.Command.Execution

/-!
The command line: the file system of the machine, and the entry point.
-/

set_option autoImplicit false

namespace GraphqlStore.Machine

/-- Whether a code of the machine is the given one. Some requests report a code as a negative
number. -/
def isCode (code number : UInt32) : Bool := code == number || code == 0 - number

def fileError : IO.Error → FileError
  | .noFileOrDirectory _ _ _ => .notFound
  | .alreadyExists _ _ _ => .alreadyExists
  | .permissionDenied _ _ _ => .other "Permission denied (os error 13)"
  | .inappropriateType _ code _ => if isCode code 21 then .isDirectory else .notDirectory
  | .invalidArgument path code details =>
      if isCode code 36 then .nameTooLong else .other (toString (IO.Error.invalidArgument path code details))
  | reason => .other (toString reason)

def request {α : Type} (action : IO α) : IO (Except FileError α) :=
  tryCatch (do return .ok (← action)) fun reason => return .error (fileError reason)

def entry (path : Path) : IO.FS.DirEntry := ⟨path.text, ""⟩

/-- The kind of what a path leads to, if there is anything. -/
def kind? (path : Path) : IO (Option IO.FS.FileType) :=
  tryCatch (do return some (← (entry path).root.metadata).type) fun _ => return none

/-- The names below a directory. What is neither a file nor a directory is left out. -/
partial def listing (path : Path) : ExceptT (Path × FileError) IO (FileTree Unit) := do
  let found ← ExceptT.mk do
    return (← request (entry path).root.readDir).mapError fun reason => (path, reason)
  let mut entries := []
  for item in found do
    let below := path.join (.ofNames [item.fileName])
    match ← (kind? below : IO _) with
    | some .dir => entries := (item.fileName, ← listing below) :: entries
    | some .file => entries := (item.fileName, .file ()) :: entries
    | _ => pure ()
  return .directory entries

def randomCharacter : IO Char := do
  let letters := "abcdefghijklmnopqrstuvwxyzABCDEFGHIJKLMNOPQRSTUVWXYZ0123456789".toList
  return (letters.drop (← IO.rand 0 (letters.length - 1))).headD 'a'

/-- Makes a directory with a name by chance; a taken name is tried no more often than allowed. -/
def makeScratch (path : Path) (start : String) : Nat → IO (Except FileError Path)
  | 0 => return .error .alreadyExists
  | tries + 1 => do
      let ending ← (List.range 6).mapM fun _ => randomCharacter
      let scratch := path.join (.ofNames [start ++ String.ofList ending])
      match ← request (IO.FS.createDir scratch.text) with
      | .ok () => return .ok scratch
      | .error .alreadyExists => makeScratch path start tries
      | .error reason => return .error reason

def isDirectory (path : Path) : IO Bool := return (← kind? path) == some .dir

instance : FileSystem IO where
  isDirectory path := isDirectory path
  isPresent path := return (← kind? path).isSome
  read path := request (IO.FS.readBinFile path.text)
  listing path := (listing path).run
  makeDirectories path :=
    FileSystem.makeStepwise isDirectory (fun path => request (IO.FS.createDir path.text)) path
  write path content := request (IO.FS.writeBinFile path.text content)
  move source target := request (IO.FS.rename source.text target.text)
  restore source target := discard (request (IO.FS.rename source.text target.text))
  discard path := discard (request (IO.FS.removeFile path.text))
  makeScratch path start := makeScratch path start 100
  removeScratch path := discard (request (IO.FS.removeDirAll path.text))

end GraphqlStore.Machine

def main (arguments : List String) : IO UInt32 := do
  let outcome ← GraphqlStore.Command.execute arguments
  IO.print outcome.stdout
  IO.eprint outcome.stderr
  return outcome.exit.toUInt32
