import GraphqlStore.Document.Selection

/-!
Documents of a run. A document keeps the definitions it was read with beside
a working copy that passes revise; its revision counts the changes.
-/

set_option autoImplicit false

namespace GraphqlStore

/-- The kind of a document, which is that of its only definition. -/
inductive DocumentKind where
  | operation (kind : OperationKind)
  | fragment
deriving DecidableEq, Repr

namespace DocumentKind

def text : DocumentKind → String
  | .operation kind => kind.keyword
  | .fragment => "fragment"

def all : List DocumentKind :=
  [.operation .query, .operation .mutation, .operation .subscription, .fragment]

def ofText? (word : String) : Option DocumentKind := all.find? fun kind => kind.text == word

def isOperation : DocumentKind → Bool
  | .operation _ => true
  | .fragment => false

end DocumentKind

/-- A text to read a document from. -/
structure DocumentSource where
  path : Option String
  text : String
  /-- Whether an artifact is wanted. -/
  artifact : Bool
  /-- Whether a store module is wanted. -/
  store : Bool
deriving DecidableEq, Repr

namespace DocumentSource

/-- How reports call a source at the given place of the list of sources. -/
def label (source : DocumentSource) (index : Nat) : String :=
  source.path.getD ("<document #" ++ toString index ++ ">")

end DocumentSource

/-- A document of a run. -/
structure Document where
  name : String
  kind : DocumentKind
  source : DocumentSource
  /-- The definitions as they were read. -/
  pristine : ExecutableDocument
  /-- The definitions as the passes left them. -/
  working : ExecutableDocument
  /-- How often the working copy was revised. -/
  revision : Nat
  artifact : Bool
  store : Bool

namespace Document

def ofSource (name : String) (kind : DocumentKind) (source : DocumentSource)
    (parsed : ExecutableDocument) : Document :=
  ⟨name, kind, source, parsed, parsed, 0, source.artifact, source.store⟩

def definition? (document : Document) : Option Definition := document.working.head?

def location? (document : Document) : Option Position := document.definition?.map Definition.position

def isRevised (document : Document) : Bool := document.revision != 0

def revise (document : Document) (working : ExecutableDocument) (changed : Bool) : Document :=
  if changed then { document with working, revision := document.revision + 1 } else document

end Document

/-! ## Classification -/

/-- Why the definitions of a text are no document. -/
inductive ClassifyError where
  | empty
  | several (count : Nat)
  | unnamed
deriving DecidableEq, Repr

def ClassifyError.message : ClassifyError → String
  | .empty => "document has no definitions"
  | .several count =>
      "document must contain exactly one operation or fragment, found " ++ toString count
  | .unnamed => "operations must have a name"

def Definition.kindAndName : Definition → DocumentKind × Option String
  | .shorthand _ => (.operation .query, none)
  | .operation declared => (.operation declared.kind, declared.name)
  | .fragment declared => (.fragment, some declared.name)

/-- The kind and name of a document: it has exactly one definition, which is named. -/
def ExecutableDocument.classify : ExecutableDocument → Except ClassifyError (DocumentKind × String)
  | [] => .error .empty
  | [definition] =>
      match definition.kindAndName with
      | (kind, some name) => .ok (kind, name)
      | (_, none) => .error .unnamed
  | first :: second :: rest => .error (.several (first :: second :: rest).length)

end GraphqlStore
