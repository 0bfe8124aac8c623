import GraphqlStore.Artifact.Json
import GraphqlStore.Diagnostic
import GraphqlStore.Json.Printer

/-!
Output files: the artifact of a document as data, and a module that binds a
store to it.
-/

set_option autoImplicit false

namespace GraphqlStore

/-- A file relative to the output directory. -/
structure OutputFile where
  path : String
  content : String
deriving DecidableEq, Repr

namespace OutputFile

/-- Whether the first file is not after the second: by path, then by content. -/
def le (first second : OutputFile) : Bool :=
  first.path < second.path || (first.path == second.path && first.content ≤ second.content)

end OutputFile

namespace StoreNaming

def artifactPath (naming : StoreNaming) (document : String) : String :=
  naming.artifactDirectory ++ "/" ++ document ++ ".json"

def storePath (naming : StoreNaming) (document : String) : String :=
  naming.storeDirectory ++ "/" ++ document ++ ".js"

end StoreNaming

namespace Store

/-- Words that cannot name a binding. -/
def reservedWords : List String :=
  ["await", "break", "case", "catch", "class", "const", "continue", "debugger", "default", "delete",
    "do", "else", "enum", "export", "extends", "false", "finally", "for", "function", "if", "import",
    "in", "instanceof", "let", "new", "null", "return", "static", "super", "switch", "this", "throw",
    "true", "try", "typeof", "var", "void", "while", "with", "yield"]

def constructorName : DocumentKind → String
  | .operation .query => "QueryStore"
  | .operation .mutation => "MutationStore"
  | .operation .subscription => "SubscriptionStore"
  | .fragment => "FragmentStore"

def className (document : String) : String := document ++ "Store"

/-- The name by which a module knows the artifact. -/
def artifactBinding : String := "artifact"

/-- Why a store module cannot be written. -/
inductive NameClash where
  | reserved (binding : String)
  | generated (binding taken : String)
  | constructor (className : String)
deriving DecidableEq, Repr

namespace NameClash

def message : NameClash → String
  | .reserved binding => "store binding \"" ++ binding ++ "\" is a reserved word"
  | .generated binding taken =>
      "store binding \"" ++ binding ++ "\" collides with the generated name \"" ++ taken ++ "\""
  | .constructor className =>
      "store class \"" ++ className ++ "\" collides with the imported constructor"

def hint : NameClash → Option String
  | .constructor _ => none
  | _ => some "rename the document or set stores.prefix"

end NameClash

/-- The names of a module clash if its binding is a reserved word or another of its names, or if
its class is the one that it extends. -/
def clash? (naming : StoreNaming) (artifact : Artifact) : Option NameClash :=
  let constructor := constructorName artifact.kind
  let className := className artifact.name
  let binding := naming.bindingName artifact.name
  if reservedWords.contains binding then some (.reserved binding)
  else match [constructor, className, artifactBinding].find? (· == binding) with
    | some taken => some (.generated binding taken)
    | none => if className = constructor then some (.constructor className) else none

def moduleText (naming : StoreNaming) (artifact : Artifact) : String :=
  let constructor := constructorName artifact.kind
  let className := className artifact.name
  let binding := naming.bindingName artifact.name
  "import \x7b " ++ constructor ++ " \x7d from '" ++ naming.runtimePath ++ "'\n" ++
    "import " ++ artifactBinding ++ " from '../" ++ naming.artifactPath artifact.name ++ "'\n\n" ++
    "export class " ++ className ++ " extends " ++ constructor ++ " \x7b\n" ++
    "\tconstructor() \x7b\n" ++
    "\t\tsuper(\x7b " ++ artifactBinding ++ " \x7d)\n" ++
    "\t\x7d\n" ++
    "\x7d\n\n" ++
    "export const " ++ binding ++ " = new " ++ className ++ "()\n\n" ++
    "export default " ++ binding ++ "\n"

def storeFile (naming : StoreNaming) (artifact : Artifact) : Except Diagnostic OutputFile :=
  match clash? naming artifact with
  | some clash => .error ⟨.emission, some artifact.name, clash.message, none, clash.hint⟩
  | none => .ok ⟨naming.storePath artifact.name, moduleText naming artifact⟩

def artifactFile (naming : StoreNaming) (artifact : Artifact) : OutputFile :=
  ⟨naming.artifactPath artifact.name, artifact.toJson.pretty ++ "\n"⟩

/-- The files of an artifact, and what keeps its store from being written. -/
def filesOf (naming : StoreNaming) (stores : List String) (artifact : Artifact) :
    List OutputFile × List Diagnostic :=
  let own := artifactFile naming artifact
  if stores.contains artifact.name then
    match storeFile naming artifact with
    | .ok store => ([own, store], [])
    | .error found => ([own], [found])
  else ([own], [])

/-- The files of artifacts by path, with stores for the documents of the given names. -/
def emit (naming : StoreNaming) (stores : List String) (artifacts : List Artifact) :
    Except (List Diagnostic) (List OutputFile) :=
  let results := artifacts.map (filesOf naming stores)
  let errors := results.flatMap Prod.snd
  if errors.isEmpty then .ok ((results.flatMap Prod.fst).mergeSort OutputFile.le)
  else .error errors

end Store

end GraphqlStore
