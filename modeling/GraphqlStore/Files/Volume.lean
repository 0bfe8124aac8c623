import GraphqlStore.Files.FileSystem

/-!
A file system in memory: a tree of files without links. Relative paths start
at its top. A path is followed segment by segment, and only a directory leads
on.
-/

set_option autoImplicit false

namespace GraphqlStore

abbrev Volume := FileTree ByteArray

namespace Volume

def empty : Volume := .directory []

/-- The number of bytes that a name may have. -/
def longestName : Nat := 255

/-- The number of bytes that the text of a path may have. -/
def longestPath : Nat := 4095

def checkName (name : String) : Except FileError Unit :=
  if name.utf8ByteSize ≤ longestName then .ok () else .error .nameTooLong

def checkDirectory (volume : Volume) (place : List String) : Except FileError Unit :=
  if volume.isDirectoryAt place then .ok () else .error .notDirectory

def follow (volume : Volume) (place : List String) : List String → Except FileError (List String)
  | [] => .ok place
  | segment :: rest => do
      volume.checkDirectory place
      if Path.isBlank segment then follow volume place rest
      else if segment = ".." then follow volume place.dropLast rest
      else
        checkName segment
        if (volume.find? (place ++ [segment])).isSome then follow volume (place ++ [segment]) rest
        else .error .notFound

def checkPath (path : Path) : Except FileError Unit :=
  if path.segments.any fun segment => segment.toList.contains '\x00' then .error .zeroCharacter
  else if longestPath < path.text.utf8ByteSize then .error .nameTooLong
  else if path.segments.isEmpty && !path.absolute then .error .notFound
  else .ok ()

def locate (volume : Volume) (path : Path) : Except FileError (List String) := do
  checkPath path
  follow volume [] path.segments

def at? (volume : Volume) (path : Path) : Option Volume :=
  match volume.locate path with
  | .ok place => volume.find? place
  | .error _ => none

/-- The place that a path names for something new: a directory, and the name in it unless the
path ends with a dot or at the top. Slashes at the end do not count. -/
def slot (volume : Volume) (path : Path) : Except FileError (List String × Option String) := do
  checkPath path
  match path.segments.reverse.dropWhile (· == "") with
  | [] => return ([], none)
  | last :: before =>
      let place ← follow volume [] before.reverse
      volume.checkDirectory place
      if last = "." || last = ".." then return (place, none)
      checkName last
      return (place, some last)

def isDirectory (volume : Volume) (path : Path) : Bool := (volume.at? path).any FileTree.isDirectory

def isPresent (volume : Volume) (path : Path) : Bool := (volume.at? path).isSome

def read (volume : Volume) (path : Path) : Except FileError ByteArray := do
  let place ← volume.locate path
  match volume.contentAt? place with
  | some content => return content
  | none => throw .isDirectory

/-- What is below a path, at any depth. Only the path itself must not be too long: entries are listed
also where their own paths are longer than `longestPath`, although no other request reaches them. -/
def listing (volume : Volume) (path : Path) : Except (Path × FileError) (FileTree Unit) :=
  match volume.locate path with
  | .error reason => .error (path, reason)
  | .ok place =>
      match volume.find? place with
      | some tree => .ok (tree.map fun _ => ())
      | none => .error (path, .notFound)

def makeDirectory (volume : Volume) (path : Path) : Except FileError Volume := do
  match ← volume.slot path with
  | (_, none) => throw .alreadyExists
  | (place, some name) =>
      match volume.find? (place ++ [name]) with
      | some _ => throw .alreadyExists
      | none => return volume.insert (place ++ [name]) (.directory [])

def write (volume : Volume) (path : Path) (content : ByteArray) : Except FileError Volume := do
  match ← volume.slot path with
  | (_, none) => throw .isDirectory
  | (place, some name) =>
      if path.endsOpen || volume.isDirectoryAt (place ++ [name]) then throw .isDirectory
      return volume.insert (place ++ [name]) (.file content)

def move (volume : Volume) (source target : Path) : Except FileError Volume := do
  let content ← volume.read source
  let place ← volume.locate source
  write (volume.erase place) target content

def discard (volume : Volume) (path : Path) : Volume :=
  match volume.locate path with
  | .ok place => if volume.isDirectoryAt place then volume else volume.erase place
  | .error _ => volume

/-- The volume without a directory and all that is in it. -/
def removeTree (volume : Volume) (path : Path) : Volume :=
  match volume.locate path with
  | .ok place => volume.erase place
  | .error _ => volume

/-- A path in a directory that is not taken: the given start of a name with stars after it. -/
def freshPath (volume : Volume) (path : Path) (start : String) : Path :=
  let entries := match volume.at? path with
    | some (.directory entries) => entries.length
    | _ => 0
  let endings := (List.range (entries + 1)).map fun count =>
    String.ofList (List.replicate (count + 1) '*')
  let free := endings.find? fun ending => !volume.isPresent (path.join (.ofNames [start ++ ending]))
  path.join (.ofNames [start ++ free.getD ""])

def change {α : Type} (value : α) (attempt : Volume → Except FileError Volume) :
    StateM Volume (Except FileError α) := fun volume =>
  match attempt volume with
  | .ok changed => (.ok value, changed)
  | .error reason => (.error reason, volume)

def makeDirectories (path : Path) : StateM Volume (Except FileError Unit) :=
  FileSystem.makeStepwise (fun path volume => (volume.isDirectory path, volume))
    (fun path => change () fun volume => volume.makeDirectory path) path

instance : FileSystem (StateM Volume) where
  isDirectory path := fun volume => (volume.isDirectory path, volume)
  isPresent path := fun volume => (volume.isPresent path, volume)
  read path := fun volume => (volume.read path, volume)
  listing path := fun volume => (volume.listing path, volume)
  makeDirectories path := makeDirectories path
  write path content := change () fun volume => volume.write path content
  move source target := change () fun volume => volume.move source target
  restore source target := fun volume => ((), (volume.move source target).toOption.getD volume)
  discard path := fun volume => ((), volume.discard path)
  makeScratch path start := fun volume =>
    let scratch := volume.freshPath path start
    change scratch (fun volume => volume.makeDirectory scratch) volume
  removeScratch path := fun volume => ((), volume.removeTree path)

end Volume

end GraphqlStore
