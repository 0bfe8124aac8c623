import GraphqlStore.Compilation
import GraphqlStore.Config.File
import GraphqlStore.Files.FileSystem
import GraphqlStore.Schema.Build

/-!
Projects on a file system: a settings file, and a directory of documents.
-/

set_option autoImplicit false

namespace GraphqlStore

/-- Why a project cannot be loaded. -/
inductive LoadError where
  | readConfig (path : Path) (reason : FileError)
  | configFormat
  | missingSchema
  | readSchema (path : Path) (reason : FileError)
  | schema (reason : SchemaError)
  | config (reason : ConfigError)
  | missingDocuments (root : Path)
  | list (path : Path) (reason : FileError)

namespace LoadError

/-- What was attempted, and then what prevented it. -/
def chain : LoadError → List String
  | .readConfig path reason => ["read config " ++ path.text, reason.message]
  | .configFormat => ["parse config JSON"]
  | .missingSchema => ["config must set either schema or schemaPath"]
  | .readSchema path reason => ["read schema " ++ path.text, reason.message]
  | .schema reason => ["parse schema", reason.message]
  | .config reason => ["validate config", reason.message]
  | .missingDocuments root => ["documents directory " ++ root.text ++ " does not exist"]
  | .list path reason => ["read " ++ path.text, reason.message]

end LoadError

namespace Project

variable {m : Type → Type} [Monad m] [FileSystem m]

/-- Makes a request; a refusal ends the work. -/
def request {ε α : Type} (failed : ε → LoadError) (result : m (Except ε α)) :
    ExceptT LoadError m α :=
  ExceptT.mk do return (← result).mapError failed

/-- The schema text that a settings file names. A path is relative to the directory of the file. -/
def schemaText (path : Path) (file : ConfigFile) : ExceptT LoadError m String :=
  match file.schema, file.schemaPath with
  | some text, _ => return text
  | none, some schemaPath =>
      let schemaFile := (path.parent?.getD (.ofNames ["."])).join (.ofText schemaPath)
      request (.readSchema schemaFile) (FileSystem.readText schemaFile)
  | none, none => throw .missingSchema

/-- The settings under which the project of a settings file is compiled. -/
def loadConfig (path : Path) : ExceptT LoadError m Config := do
  let content ← request (.readConfig path) (FileSystem.read path)
  let some file := ConfigFile.ofBytes? content | throw .configFormat
  let text ← schemaText path file
  let schema ← request .schema (pure (Schema.parse text))
  request .config (pure (file.resolve schema))

/-- The extensions of document files. -/
def documentExtensions : List String := ["graphql", "gql"]

def isDocument (names : List String) : Bool :=
  match names.getLast?.bind Path.extension? with
  | some extension => documentExtensions.contains extension
  | none => false

def unreadable (label : String) (reason : FileError) : Diagnostic :=
  ⟨.collection, some label, "read " ++ label ++ ": " ++ reason.message, none, none⟩

/-- A batch with one file more, which stands first. -/
def addFile (label : String) (result : Except FileError String) (batch : SourceBatch) : SourceBatch :=
  match result with
  | .ok text => { batch with sources := ⟨some label, text, true, true⟩ :: batch.sources }
  | .error reason => { batch with errors := unreadable label reason :: batch.errors }

def readAll (root : Path) : List (List String) → m SourceBatch
  | [] => return ⟨[], []⟩
  | names :: rest => do
      let result ← FileSystem.readText (root.join (.ofNames names))
      return addFile (Path.ofNames names).text result (← readAll root rest)

/-- The documents below a directory, ordered by the names that lead to them. -/
def loadDocuments (root : Path) : ExceptT LoadError m SourceBatch := do
  if !(← FileSystem.isDirectory (m := m) root) then throw (.missingDocuments root)
  let files ← request (fun failure => .list failure.1 failure.2) (FileSystem.filesBelow root)
  readAll (m := m) root (files.filter isDocument)

end Project

end GraphqlStore
