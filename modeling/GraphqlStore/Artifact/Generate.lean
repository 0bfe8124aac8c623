import GraphqlStore.Artifact.Input
import GraphqlStore.Digest.Sha256
import GraphqlStore.Document.CacheKey
import GraphqlStore.Document.Network
import GraphqlStore.Document.Visit
import GraphqlStore.Fragment.Inlining
import GraphqlStore.Pass.Directives

/-!
Generating the artifact of a document from its working copy.
-/

set_option autoImplicit false

namespace GraphqlStore

namespace Generation

/-! ## What can go wrong -/

/-- Why no artifact can be generated. -/
inductive Issue where
  | unresolvedField (parent field : String)
  | spread (name : String)
  | noSelection (field : String)
  | conflict (conflict : ShapeConflict)
  | severalPaginated
  | paginatedTypename
  | mode (reason : PaginationError)
  | noRefetch (type : String)
deriving DecidableEq, Repr

def Issue.message : Issue → String
  | .unresolvedField parent field =>
      "field \"" ++ field ++ "\" does not resolve on type \"" ++ parent ++ "\""
  | .spread name => "fragment spread ..." ++ name ++ " was not inlined before generation"
  | .noSelection field => "composite field \"" ++ field ++ "\" has no selection"
  | .conflict clash => clash.message
  | .severalPaginated => "document selects more than one paginated field"
  | .paginatedTypename => "__typename cannot be paginated"
  | .mode reason => reason.message
  | .noRefetch type => Pagination.noRefetch type

/-! ## Drafts -/

/-- The shape at hand, and what has been found on the way to it. -/
structure Draft where
  shape : SelectionShape
  issues : List (Issue × Position)
  pagination : Option PaginationInfo

namespace Draft

def empty : Draft := ⟨SelectionShape.empty, [], none⟩

def report (draft : Draft) (position : Position) (issue : Issue) : Draft :=
  { draft with issues := draft.issues ++ [(issue, position)] }

def reportAll (draft : Draft) (position : Position) (conflicts : List ShapeConflict) : Draft :=
  { draft with issues := draft.issues ++ conflicts.map fun conflict => (.conflict conflict, position) }

def withShape (draft : Draft) (shape : SelectionShape) : Draft := { draft with shape }

def addField (draft : Draft) (position : Position) (field : FieldShape) : Draft :=
  let (shape, conflicts) := draft.shape.addField field
  (draft.withShape shape).reportAll position conflicts

def addCondition (draft : Draft) (position : Position) (type : String) (shape : SelectionShape) :
    Draft :=
  let (joined, conflicts) := draft.shape.addCondition type shape
  (draft.withShape joined).reportAll position conflicts

end Draft

/-! ## Pagination -/

/-- The type whose values are fetched again if the document is a fragment. -/
def refetchType? (document : Document) : Option String :=
  match document.definition? with
  | some (.fragment declared) => some declared.condition
  | _ => none

/-- How the value that holds a paginated field is fetched again, if it has to be. -/
def refetch (config : Config) (document : Document) :
    Except Issue (Option Pagination.Refetch) :=
  match refetchType? document with
  | none => .ok none
  | some type =>
      match Pagination.refetch? config type with
      | some found => .ok (some found)
      | none => .error (.noRefetch type)

def paginationInfo (config : Config) (document : Document) (head : Field) (found : FieldRef)
    (path : List String) : Except Issue PaginationInfo :=
  match found with
  | .typename => .error .paginatedTypename
  | .declared declared =>
      match Pagination.fieldMode declared head with
      | .error reason => .error (.mode reason)
      | .ok (mode, pageSize) =>
          match refetch config document with
          | .error issue => .error issue
          | .ok refetch => .ok ⟨mode, some path, pageSize, refetch⟩

/-- Takes down the pagination of a field. A document has one such field at most. -/
def recordPagination (config : Config) (document : Document) (head : Field) (found : FieldRef)
    (path : List String) (draft : Draft) : Draft :=
  if draft.pagination.isSome then draft.report head.position .severalPaginated
  else match paginationInfo config document head found path with
    | .error issue => draft.report head.position issue
    | .ok info => { draft with pagination := some info }

/-! ## Selections -/

/-- Where a selection stands: the type it is made on, whether its fields are hidden, whether it
comes from a fragment, and the response names that lead to it. -/
structure Scope where
  parent : String
  hidden : Bool
  inlined : Bool
  path : List String

namespace Scope

def within (scope : Scope) (fragment : InlineFragment) : Scope :=
  let parent := fragment.typeWithin scope.parent
  match fragment.inlined? with
  | some (_, masked) => { scope with parent, hidden := scope.hidden || masked, inlined := true }
  | none => { scope with parent }

def below (scope : Scope) (type : String) (head : Field) : Scope :=
  { scope with parent := type, path := scope.path ++ [head.responseName] }

end Scope

def fieldInfo (config : Config) (scope : Scope) (head : Field) (found : FieldRef) : FieldInfo :=
  let type := found.type
  { field := head.name
    type := type.base
    typeRef := type.text
    keyRaw := head.cacheKey head.isPaginated
    nullable := type.isNullable
    list := type.isList
    marshal := if config.needsMarshal type.base then some type.base else none
    hidden := scope.hidden
    listName := (DirectiveCheck.listName? head).map Prod.fst
    paginated := head.isPaginated
    isAbstract := config.schema.isAbstract type.base }

/-- The draft after the pagination of a field has been taken down. What fragments paginate is
theirs. -/
def withPagination (config : Config) (document : Document) (scope : Scope) (head : Field)
    (found : FieldRef) (draft : Draft) : Draft :=
  if head.isPaginated && !scope.inlined then
    recordPagination config document head found (scope.path ++ [head.responseName]) draft
  else draft

def withMark (head : InlineFragment) (draft : Draft) : Draft :=
  match head.inlined? with
  | some (name, masked) => draft.withShape (draft.shape.withFragment ⟨name, masked⟩)
  | none => draft

mutual
def addSelection (config : Config) (document : Document) (scope : Scope) :
    Selection → Draft → Draft
  | .field head items, draft =>
      match config.schema.field? scope.parent head.name with
      | none => draft.report head.position (.unresolvedField scope.parent head.name)
      | some found =>
          let info := fieldInfo config scope head found
          let started := withPagination config document scope head found draft
          if config.schema.isComposite info.type then
            let started :=
              if items.isEmpty then started.report head.position (.noSelection head.name) else started
            let inner := addSelections config document (scope.below info.type head) items
              (started.withShape SelectionShape.empty)
            (inner.withShape draft.shape).addField head.position
              (.composite head.responseName info inner.shape)
          else started.addField head.position (.leaf head.responseName info)
  | .inline head items, draft =>
      let marked := withMark head draft
      let inner := scope.within head
      if inner.parent = scope.parent then addSelections config document inner items marked
      else
        let done := addSelections config document inner items
          (marked.withShape SelectionShape.empty)
        (done.withShape marked.shape).addCondition head.position inner.parent done.shape
  | .spread head, draft => draft.report head.position (.spread head.name)

/-- Adds selections to a draft, in order. -/
def addSelections (config : Config) (document : Document) (scope : Scope) :
    List Selection → Draft → Draft
  | [], draft => draft
  | selection :: rest, draft =>
      addSelections config document scope rest (addSelection config document scope selection draft)
end

/-! ## Keys -/

mutual
/-- The types of the shapes that a selection opens: those of composite fields, and conditions that
differ from the type at hand. -/
def selectionTypes (schema : Schema) (parent : String) : Selection → List String
  | .field head items =>
      match schema.field? parent head.name with
      | none => []
      | some found =>
          if schema.isComposite found.typeName then
            found.typeName :: shapeTypes schema found.typeName items
          else []
  | .inline head items =>
      let type := head.typeWithin parent
      if type = parent then shapeTypes schema parent items
      else type :: shapeTypes schema type items
  | .spread _ => []

def shapeTypes (schema : Schema) (parent : String) : List Selection → List String
  | [] => []
  | selection :: rest => selectionTypes schema parent selection ++ shapeTypes schema parent rest
end

def addKeys (config : Config) (keys : NameMap (List String)) (type : String) :
    NameMap (List String) :=
  if (config.identityKeys type).isEmpty then keys else keys.insert type (config.identityKeys type)

def keysOf (config : Config) (types : List String) : NameMap (List String) :=
  types.foldl (addKeys config) NameMap.empty

/-! ## Documents -/

/-- The directive by which a query sets its cache policy. -/
def cacheDirective? (document : Document) : Option Directive :=
  match document.kind, document.definition? with
  | .operation .query, some (.operation declared) =>
      if declared.kind = .query then
        declared.directives.find? fun directive => directive.name == Directive.cache
      else none
  | _, _ => none

def policy? (document : Document) : Option CachePolicy :=
  match (cacheDirective? document).bind fun directive => argument? "policy" directive.arguments with
  | some (.enum name) => CachePolicy.ofText? name
  | _ => none

def partial? (document : Document) : Option Bool :=
  match (cacheDirective? document).bind fun directive => argument? "partial" directive.arguments with
  | some (.boolean value) => some value
  | _ => none

def ofQuery {α : Type} (document : Document) (value : α) : Option α :=
  if document.kind = .operation .query then some value else none

def diagnostic (document : Document) (issue : Issue × Position) : Diagnostic :=
  ⟨.generation, some document.name, issue.1.message, some issue.2, none⟩

/-- The report of a document whose selections are made on no type. -/
def noRoot (document : Document) : Diagnostic :=
  ⟨.generation, some document.name,
    "document " ++ document.name ++ " has no resolvable root type", none, none⟩

def generate (config : Config) (document : Document) : Except (List Diagnostic) Artifact :=
  match document.rootType? config.schema, document.selections? with
  | some root, some selections =>
      let draft := addSelections config document ⟨root, false, false, []⟩ selections.items Draft.empty
      if draft.issues.isEmpty then
        .ok
          { name := document.name
            kind := document.kind
            hash := Digest.sha256Text document.source.text
            raw := ExecutableDocument.networkText document.working
            rootType := root
            selection := draft.shape
            input := InputShape.ofDocument? config document
            pagination := draft.pagination.getD .none
            keys := keysOf config (root :: shapeTypes config.schema root selections.items)
            policy := ofQuery document ((policy? document).getD config.cachePolicy)
            allowPartial := ofQuery document ((partial? document).getD config.allowPartial) }
      else .error (draft.issues.map (diagnostic document))
  | _, _ => .error [noRoot document]

/-- The artifacts of all documents that want one, in order. -/
def generateAll (config : Config) : List Document → Except (List Diagnostic) (List Artifact)
  | [] => .ok []
  | document :: rest =>
      if document.artifact then
        match generate config document, generateAll config rest with
        | .ok artifact, .ok others => .ok (artifact :: others)
        | .ok _, .error others => .error others
        | .error found, .ok _ => .error found
        | .error found, .error others => .error (found ++ others)
      else generateAll config rest

end Generation

end GraphqlStore
