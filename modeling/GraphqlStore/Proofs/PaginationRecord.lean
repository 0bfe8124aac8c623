import GraphqlStore.Proofs.AcceptedGeneration
import GraphqlStore.Proofs.SentDirectives

/-!
The pagination record of an artifact describes the document as it was written:
its paginated field, the response names that lead there, the way it is paged
through and how the value that holds it is fetched again. What spreads bring
in has no part in it, since inlining marks it. A document that sets the mark
itself hides a paginated field of its own, so all this holds of a configuration
exactly if its schema does not declare a directive by the name of the mark.
-/

set_option autoImplicit false

namespace GraphqlStore

/-! ## Paginated fields as they are written -/

/-- A paginated field, with the response names that lead to it and what it selects, if that is
known. -/
structure Page where
  path : List String
  head : Field
  found : Option FieldRef

def Page.below (name : String) (page : Page) : Page := { page with path := name :: page.path }

mutual
/-- All paginated fields of a selection, whether they resolve or not. Spreads stay out. -/
def Selection.pages (schema : Schema) (parent : Option String) : Selection → List Page
  | .field head items =>
      let found := parent.bind fun type => schema.field? type head.name
      (if head.isPaginated then [⟨[head.responseName], head, found⟩] else []) ++
        (pages schema (found.map FieldRef.typeName) items).map (Page.below head.responseName)
  | .spread _ => []
  | .inline head items => pages schema (head.condition.or parent) items

def pages (schema : Schema) (parent : Option String) : List Selection → List Page
  | [] => []
  | selection :: rest => selection.pages schema parent ++ pages schema parent rest
end

private theorem pages_eq (schema : Schema) (parent : Option String) (items : List Selection) :
    pages schema parent items = items.flatMap (Selection.pages schema parent) := by
  induction items with
  | nil => rfl
  | cons selection rest ih => rw [pages, List.flatMap_cons, ih]

def Page.ofPlace (place : List String × Field × FieldRef) : Page := ⟨place.1, place.2.1, some place.2.2⟩

section Typed

variable {schema : Schema} {allowed : String → Prop} {parent : String}

private theorem pages_eq_ownPlaces_of_forall {items : List Selection} (unmarked : Unmarked items)
    (each : ∀ item ∈ items,
      (∀ directive ∈ item.fragmentDirectives, directive.name ≠ Directive.fragmentMark) →
      item.pages schema (some parent) = (item.ownPlaces schema parent).map Page.ofPlace) :
    pages schema (some parent) items = (ownPlaces schema parent items).map Page.ofPlace := by
  rw [pages_eq, ownPlaces_eq, List.map_flatMap]
  exact List.flatMap_congr fun item member => each item member (unmarked_iff.1 unmarked item member)

private theorem Selection.Typed.pages_eq_ownPlaces {selection : Selection}
    (typed : selection.Typed schema allowed parent)
    (unmarked : ∀ directive ∈ selection.fragmentDirectives, directive.name ≠ Directive.fragmentMark) :
    selection.pages schema (some parent) = (selection.ownPlaces schema parent).map Page.ofPlace := by
  induction typed with
  | @field parent head items found resolved _ selected _ ih =>
      have inner := pages_eq_ownPlaces_of_forall unmarked ih
      have guarded : (if schema.isComposite found.typeName then
          (GraphqlStore.ownPlaces schema found.typeName items).map
            (Prod.map (head.responseName :: ·) id) else []) =
          (GraphqlStore.ownPlaces schema found.typeName items).map
            (Prod.map (head.responseName :: ·) id) := by
        by_cases composite : schema.isComposite found.typeName = true
        · rw [if_pos composite]
        · have empty : items = [] := Classical.not_not.1 fun some => composite (selected some)
          rw [if_neg composite, empty]
          rfl
      have moved : Page.below head.responseName ∘ Page.ofPlace =
          Page.ofPlace ∘ Prod.map (head.responseName :: ·) id := rfl
      simp only [Selection.pages, Selection.ownPlaces, Option.bind_some, resolved, Option.map_some, inner,
        guarded, List.map_append, List.map_map, moved, apply_ite (List.map Page.ofPlace), List.map_cons,
        List.map_nil]
      rfl
  | spread => rfl
  | @inline parent head items _ _ ih =>
      rw [Selection.fragmentDirectives, List.forall_mem_append] at unmarked
      have within : head.condition.or (some parent) = some (head.typeWithin parent) := by
        rw [InlineFragment.typeWithin]
        cases head.condition <;> rfl
      rw [Selection.pages, Selection.ownPlaces, within, pages_eq_ownPlaces_of_forall unmarked.2 ih,
        PaginationCompletion.inlined?_of_unmarked unmarked.1]
      rfl

end Typed

/-! ## Records -/

def Definition.condition? : Definition → Option String
  | .fragment declared => some declared.condition
  | _ => none

/-- The type on which the selections of a definition are made. -/
def Definition.rootType? (schema : Schema) : Definition → Option String
  | .shorthand _ => schema.root? .query
  | .operation declared => schema.root? declared.kind
  | .fragment declared => some declared.condition

/-- A record describes paginated fields: it is the usual one exactly if there is none; otherwise
there is one, and the record tells where it is, how it is paged through and how the value of a
fragment is fetched again. -/
structure PaginationInfo.Describes (config : Config) (condition : Option String) (pages : List Page)
    (info : PaginationInfo) : Prop where
  usual_iff : info = .none ↔ pages = []
  single : pages ≠ [] → ∃ page declared, pages = [page] ∧ info.path = some page.path ∧
    page.found = some (.declared declared) ∧
    Pagination.fieldMode declared page.head = .ok (info.mode, info.pageSize) ∧
    info.refetch = condition.bind (Pagination.refetch? config) ∧
    info.refetch.map Pagination.Refetch.keys = condition.map config.identityKeys

/-- A record describes a document as it was read. -/
def Document.RecordedBy (config : Config) (document : Document) (info : PaginationInfo) : Prop :=
  ∃ definition, document.pristine = [definition] ∧
    info.Describes config definition.condition?
      (pages config.schema (definition.rootType? config.schema) definition.selections.items)

namespace PaginationInfo

variable {config : Config}

theorem Describes.unique {condition : Option String} {pages : List Page} {info other : PaginationInfo}
    (describes : info.Describes config condition pages)
    (describesOther : other.Describes config condition pages) : info = other := by
  by_cases none : pages = []
  · rw [describes.usual_iff.2 none, describesOther.usual_iff.2 none]
  · obtain ⟨page, declared, rfl, path, found, mode, refetch, _⟩ := describes.single none
    obtain ⟨_, _, same, otherPath, otherFound, otherMode, otherRefetch, _⟩ := describesOther.single none
    cases same
    cases found.symm.trans otherFound
    have modes := Except.ok.inj (mode.symm.trans otherMode)
    cases info
    cases other
    simp_all

private theorem keys_refetch? {type : String} {refetch : Pagination.Refetch}
    (found : Pagination.refetch? config type = some refetch) : refetch.keys = config.identityKeys type := by
  unfold Pagination.refetch? at found
  simp only at found
  split at found
  · cases found
    rfl
  · split at found
    · cases found
      rfl
    · cases found

end PaginationInfo

private theorem Generation.describes_of_paginationInfo {config : Config} {document : Document}
    {head : Field} {found : FieldRef} {path : List String} {info : PaginationInfo}
    (known : paginationInfo config document head found path = .ok info) :
    info.Describes config (refetchType? document) [⟨path, head, some found⟩] := by
  unfold paginationInfo at known
  cases found with
  | typename => cases known
  | declared declared =>
      simp only at known
      split at known
      · cases known
      · rename_i mode size accepted
        split at known
        · cases known
        · rename_i refetched fetches
          cases known
          refine ⟨by simp [PaginationInfo.none], fun _ => ⟨_, declared, rfl, rfl, rfl, accepted, ?_⟩⟩
          unfold refetch at fetches
          cases target : refetchType? document with
          | none =>
              rw [target] at fetches
              cases fetches
              exact ⟨rfl, rfl⟩
          | some type =>
              simp only [target] at fetches
              split at fetches
              · rename_i value fetched
                cases fetches
                simp only [Option.bind_some, Option.map_some, Option.some.injEq]
                exact ⟨fetched.symm, PaginationInfo.keys_refetch? fetched⟩
              · cases fetches

/-! ## Accepted runs -/

namespace Pipeline

variable {config : Config}

theorem exists_of_mem_completed {documents : List Document} {document : Document}
    (member : document ∈ completed config documents) :
    ∃ source ∈ documents, document.pristine = source.pristine ∧ document.name = source.name := by
  obtain ⟨middle, middleMember, rfl⟩ := List.mem_map.1 member
  obtain ⟨first, firstMember, rfl⟩ := List.mem_map.1 middleMember
  obtain ⟨source, inDocuments, rfl⟩ := List.mem_map.1 firstMember
  have revised (before : Document) (working : ExecutableDocument) (changed : Bool) :
      (before.revise working changed).pristine = before.pristine := by
    cases changed <;> rfl
  obtain ⟨name, _, pristine⟩ := (PaginationCompletion.step_extends config source).kept
  obtain ⟨lastName, _, lastPristine⟩ :=
    (IdentityCompletion.step_extends config _ : Document.Extended [] _ _).kept
  exact ⟨source, inDocuments, lastPristine.trans ((revised _ _ _).trans pristine),
    lastName.trans ((Document.name_revise _ _).trans name)⟩

theorem Delivers.origin {document : Document} (delivers : Delivers config document) :
    ∃ documents source definition root, Accepts config documents ∧ source ∈ documents ∧
      source.Defines definition ∧ document.pristine = [definition] ∧
      document.rootType? config.schema = some root ∧
      document.Defines (definition.withItems (revisedItems config documents source definition root)) := by
  obtain ⟨sources, collection, documents, revised, _, collects, clean, accepted, member⟩ := delivers
  obtain ⟨accepts, rfl, _⟩ := run_standard_eq_ok_iff.1 accepted
  have collected := collected_of_collect collects clean
  obtain ⟨source, inDocuments, definition, root, defines, _, definesLast, rooted⟩ :=
    mem_completed collected accepts member
  obtain ⟨other, inOthers, pristine, named⟩ := exists_of_mem_completed member
  have sameName : document.name = source.name := by
    have first := definesLast.named
    have second := defines.named
    rw [Definition.kindAndName_withItems, second] at first
    exact (Option.some.inj (Prod.mk.inj first).2).symm
  obtain rfl : other = source :=
    List.inj_on_of_nodup_map collected.distinct inOthers inDocuments (named.symm.trans sameName)
  refine ⟨documents, other, definition, root, accepts, inDocuments, defines, ?_, rooted, definesLast⟩
  rw [pristine, ← working_of_collect collects clean other inDocuments, defines.working]

theorem rootType?_eq {document : Document} {definition : Definition} {items : List Selection}
    (defines : document.Defines (definition.withItems items)) (schema : Schema) :
    document.rootType? schema = definition.rootType? schema := by
  rw [defines.rootType?_eq]
  cases definition <;> rfl

private theorem refetchType?_eq {document : Document} {definition : Definition}
    {items : List Selection} (defines : document.Defines (definition.withItems items)) :
    Generation.refetchType? document = definition.condition? := by
  unfold Generation.refetchType?
  rw [defines.definition?_eq]
  cases definition <;> rfl

theorem Delivers.recordedBy {definitions : List SchemaDefinition}
    (built : Schema.ofDefinitions definitions = .ok config.schema)
    (text : config.schema.isComposite "String" = false)
    (undeclared : config.schema.directives.contains Directive.fragmentMark = false) {document : Document}
    (delivers : Delivers config document) {artifact : Artifact}
    (generated : Generation.generate config document = .ok artifact) :
    document.RecordedBy config artifact.pagination := by
  obtain ⟨documents, source, definition, root, accepts, member, defines, pristine, rooted, definesLast⟩ :=
    delivers.origin
  obtain ⟨other, typedOn⟩ := typedOn_of_mem built text accepts member defines
  have unmarked := DirectiveCheck.unmarked_of_faults text undeclared typedOn
    (DirectiveCheck.faults_of_reports accepts.directives source member)
  obtain rfl : other = root := by
    have same := defines.rootType?_withItems definesLast config.schema
    exact Option.some.inj (typedOn.rooted.symm.trans (same.symm.trans rooted))
  have written : pages config.schema (some other) definition.selections.items =
      (ownPlaces config.schema other definition.selections.items).map Page.ofPlace :=
    pages_eq_ownPlaces_of_forall unmarked fun item inside => (typedOn.typed item inside).pages_eq_ownPlaces
  have record := Generation.generate_pagination rooted definesLast.selections?_eq generated
  rw [Definition.selections_withItems, ownPlaces_revisedItems unmarked] at record
  refine ⟨definition, pristine, ?_⟩
  rw [← rootType?_eq definesLast, rooted, written]
  rcases record with ⟨none, usual⟩ | ⟨path, head, found, only, known⟩
  · rw [none, usual]
    exact ⟨iff_of_true rfl rfl, fun some => absurd rfl some⟩
  · rw [only, ← refetchType?_eq definesLast]
    exact Generation.describes_of_paginationInfo known

end Pipeline

/-! ## Documents that set the mark -/

/-- A query for the name of the root type, paginated and in an inline fragment that is marked as one
that stands for a spread. -/
structure MarkedPage (document : Document) (position opening : Position) (mark : InlineFragment)
    (head : Field) : Prop where
  defines : document.Defines
    (bareQuery document.name position ⟨opening, [.inline mark [.field head []]]⟩)
  untyped : mark.condition = none
  marked : mark.inlined?.isSome = true
  directives : mark.directives.map Directive.name = [Directive.fragmentMark]
  constant : directiveVariables mark.directives = []
  typename : head.name = Schema.typenameField
  arguments : head.arguments = []
  paginated : ∃ place, head.directives = [⟨place, Directive.paginate, []⟩]

namespace MarkedPage

variable {document : Document} {position opening : Position} {mark : InlineFragment} {head : Field}
  (hides : MarkedPage document position opening mark head)

include hides

theorem typeWithin_eq (parent : String) : mark.typeWithin parent = parent := by
  rw [InlineFragment.typeWithin, hides.untyped, Option.getD_none]

theorem isPaginated : head.isPaginated = true := by
  obtain ⟨place, only⟩ := hides.paginated
  simp [Field.isPaginated, Field.hasDirective, only]

theorem pages_ne_nil (schema : Schema) (parent : Option String) :
    pages schema parent [.inline mark [.field head []]] ≠ [] := by
  simp [pages, Selection.pages, hides.isPaginated]

section Composite

variable {config : Config} (root : config.schema.isComposite config.schema.query = true)

include root

theorem field?_eq : config.schema.field? config.schema.query head.name = some .typename := by
  rw [hides.typename]
  exact IdentityCompletion.field?_typename root

theorem visits_eq : visits config.schema config.schema.query [] [.inline mark [.field head []]] =
    [.inline config.schema.query mark,
      .field config.schema.query head [] (some .typename) [head.responseName]] := by
  have known := Schema.type?_isSome_of_isComposite root
  simp [visits, Selection.visits, hides.typeWithin_eq, hides.field?_eq root, known]

theorem conforms (text : config.schema.isComposite "String" = false) :
    Conformance.faults config.schema (FragmentRegistry.ofDocuments [document]) document = [] := by
  have constant : selectionVariables [.inline mark [.field head []]] = [] := by
    obtain ⟨place, only⟩ := hides.paginated
    have field : directiveVariables head.directives = [] := by
      rw [only]
      rfl
    simp [selectionVariables, Selection.variableNames, hides.arguments, field, hides.constant]
  refine conforms_bareQuery hides.defines config.schema constant ?_ ?_
  · rw [hides.visits_eq root, List.forall_mem_cons, List.forall_mem_singleton]
    simp [Conformance.visitFaults, hides.untyped, Conformance.fieldIssues, hides.arguments,
      FieldRef.arguments, FieldRef.typeName, FieldRef.type, TypeRef.base, text]
  · simp [Merge.faults, Merge.depthBound, Merge.faults?, Merge.parts, Merge.fields, Merge.groups,
      Merge.addToGroup, Merge.compare, Merge.children, hides.field?_eq root, hides.typeWithin_eq]

theorem directives_sound
    (declared : config.schema.directives.contains Directive.fragmentMark = true) :
    DirectiveCheck.reports config.schema NameMap.empty [document] = [] := by
  obtain ⟨place, paginates⟩ := hides.paginated
  obtain ⟨directive, only, named⟩ := List.map_eq_singleton_iff.1 hides.directives
  have known : DirectiveCheck.directiveIssues config.schema .inlineFragment directive = [] := by
    have unspecified : Directive.spec? Directive.fragmentMark = none := by decide
    rw [DirectiveCheck.directiveIssues, named, unspecified, if_pos declared]
  have unmasked : DirectiveCheck.has Directive.maskEnable [directive] = false := by
    rw [DirectiveCheck.has, List.any_cons, named]
    decide
  refine directives_bareQuery hides.defines config.schema ?_
  rw [hides.visits_eq root, List.forall_mem_cons, List.forall_mem_singleton]
  refine ⟨⟨?_, rfl⟩, ?_⟩
  · rw [DirectiveCheck.visitFaults, only]
    simp [DirectiveCheck.faultsAt, DirectiveCheck.listFaults, known, unmasked]
  · simp only [DirectiveCheck.visitFaults, DirectiveCheck.targetFaults, DirectiveCheck.visitListName?,
      DirectiveCheck.listName?, DirectiveCheck.listDirective?, paginates]
    exact ⟨rfl, rfl⟩

theorem scalars_known : ScalarUsage.faults config document = [] := by
  refine scalars_bareQuery hides.defines ?_
  rw [hides.visits_eq root, List.forall_mem_cons, List.forall_mem_singleton]
  refine ⟨fun entry found => ?_, fun entry found => visitScalar?_typename found⟩
  cases found

theorem unrevised : Unrevised config document position opening [.inline mark [.field head []]] where
  defines := hides.defines
  unpaginated := by
    have kind : document.kind = .operation .query := (Prod.mk.inj hides.defines.named).1.symm
    rw [PaginationCompletion.check, visits?_bareQuery hides.defines, hides.visits_eq root]
    simp [List.filterMap_cons, PaginationCompletion.paginated?, hides.isPaginated,
      PaginationCompletion.checkFirst, kind]
  unexpanded := by
    simp [Inlining.expand, mapSpreads, Selection.mapSpreads]
  complete := by
    simp [IdentityCompletion.complete, IdentityCompletion.completeItems,
      IdentityCompletion.completeSelection, hides.field?_eq root, hides.typeWithin_eq,
      IdentityCompletion.reserveAll, IdentityCompletion.needsIdentity, Completed.andThen,
      Completed.cons, Completed.keep]

theorem accepts (text : config.schema.isComposite "String" = false)
    (declared : config.schema.directives.contains Directive.fragmentMark = true) :
    Pipeline.Accepts config [document] :=
  (hides.unrevised root).accepts (hides.conforms root text) (hides.directives_sound root declared)
    (hides.scalars_known root)

theorem generated (text : config.schema.isComposite "String" = false) {revised : Document}
    (defines : revised.Defines
      (bareQuery document.name position ⟨opening, [.inline mark [.field head []]]⟩)) :
    ∃ artifact, Generation.generate config revised = .ok artifact ∧ artifact.pagination = .none := by
  have rooted : revised.rootType? config.schema = some config.schema.query :=
    defines.rootType?_eq config.schema
  have defined : revised.selections? = some ⟨opening, [.inline mark [.field head []]]⟩ :=
    defines.selections?_eq
  have compiles : (Selection.inline mark [.field head []]).Compiles config.schema config.schema.query := by
    refine .inline fun item member => ?_
    obtain rfl := List.mem_singleton.1 member
    rw [hides.typeWithin_eq, Generation.compiles_field (hides.field?_eq root)]
    intro composite
    exact absurd composite (Bool.eq_false_iff.1 text)
  have unowned : ownPlaces config.schema config.schema.query [.inline mark [.field head []]] = [] := by
    simp [ownPlaces, Selection.ownPlaces, hides.marked]
  have named {path : ShapePath} {name : String} (content : contentOf config.schema config.schema.query
      [.inline mark [.field head []]] path name) : head.name = name := by
    obtain ⟨item, member, selected⟩ := content
    obtain rfl := List.mem_singleton.1 member
    obtain ⟨inner, innerMember, selected⟩ :=
      (Generation.selected_within (hides.typeWithin_eq _) path name).1 selected
    obtain rfl := List.mem_singleton.1 innerMember
    exact ((Generation.selected_leaf (hides.field?_eq root) text path name).1 selected).2
  obtain ⟨artifact, made⟩ := (Generation.generate_isOk_iff rooted defined).2
    ⟨by simpa using compiles, by simp [ownPages_eq_map, unowned],
      fun _ _ _ first second => (named first).symm.trans (named second)⟩
  refine ⟨artifact, made, ?_⟩
  rcases Generation.generate_pagination rooted defined made with ⟨_, usual⟩ | ⟨_, _, _, only, _⟩
  · exact usual
  · cases unowned.symm.trans only

end Composite

end MarkedPage

def isMarkedPage (document : Document) : Bool :=
  match document.working with
  | [.operation ⟨.query, _, some _, [], [], ⟨_, [.inline mark [.field head []]]⟩⟩] =>
      mark.condition.isNone && mark.inlined?.isSome &&
        mark.directives.map Directive.name == [Directive.fragmentMark] &&
        (directiveVariables mark.directives).isEmpty && head.name == Schema.typenameField &&
        head.arguments.isEmpty && head.directives.map Directive.name == [Directive.paginate] &&
        head.directives.all fun directive => directive.arguments.isEmpty
  | _ => false

private theorem markedPage_of_isMarkedPage {document : Document} {definition : Definition}
    (defines : document.Defines definition) (test : isMarkedPage document = true) :
    ∃ position opening mark head, MarkedPage document position opening mark head := by
  unfold isMarkedPage at test
  split at test
  · rename_i position name opening mark head working
    simp only [Bool.and_eq_true, beq_iff_eq, List.isEmpty_iff, Option.isNone_iff_eq_none,
      List.all_eq_true] at test
    obtain ⟨⟨⟨⟨⟨⟨⟨untyped, marked⟩, directives⟩, constant⟩, typename⟩, arguments⟩, named⟩, bare⟩ := test
    obtain rfl := List.singleton_injective (defines.working.symm.trans working)
    obtain rfl : name = document.name := Option.some.inj (Prod.mk.inj defines.named).2
    obtain ⟨⟨place, _, given⟩, only, rfl⟩ := List.map_eq_singleton_iff.1 named
    obtain rfl : given = [] := bare _ (only ▸ List.mem_singleton.2 rfl)
    exact ⟨position, opening, mark, head, defines, untyped, marked, directives, constant, typename,
      arguments, place, only⟩
  · cases test

namespace Pipeline

/-- If the schema declares the mark, a query is accepted and has an artifact whose record does not
describe it. -/
theorem exists_not_recordedBy {config : Config} {definitions : List SchemaDefinition}
    (built : Schema.ofDefinitions definitions = .ok config.schema)
    (text : config.schema.isComposite "String" = false)
    (declared : config.schema.directives.contains Directive.fragmentMark = true) :
    ∃ document artifact, Delivers config document ∧ Generation.generate config document = .ok artifact ∧
      ¬ document.RecordedBy config artifact.pagination := by
  have reads : readsAs "query Q \x7b ... @__fragment(name: \"F\") \x7b __typename @paginate \x7d \x7d"
      isMarkedPage = true := by
    decide +kernel
  obtain ⟨sources, collection, document, definition, collects, clean, defines, test⟩ :=
    exists_of_readsAs reads
  obtain ⟨position, opening, mark, head, hides⟩ := markedPage_of_isMarkedPage defines test
  have root : config.schema.isComposite config.schema.query = true :=
    Schema.isComposite_root built (rfl : config.schema.root? .query = _)
  have accepts := hides.accepts root text declared
  have accepted := run_standard_eq_ok_iff.2 ⟨accepts, rfl, rfl⟩
  obtain ⟨revised, only⟩ : ∃ revised, completed config [document] = [revised] := ⟨_, rfl⟩
  have member : revised ∈ completed config [document] := only ▸ List.mem_singleton.2 rfl
  have definesLast := (hides.unrevised root).defines_of_mem_completed accepts member
  obtain ⟨artifact, generated, usual⟩ := hides.generated root text definesLast
  refine ⟨revised, artifact, ⟨sources, collection, [document], _, _, collects, clean, accepted, member⟩,
    generated, ?_⟩
  rintro ⟨written, pristine, describes⟩
  obtain ⟨source, inDocuments, kept, _⟩ := exists_of_mem_completed member
  obtain rfl := List.mem_singleton.1 inDocuments
  rw [kept, ← working_of_collect collects clean source inDocuments, hides.defines.working] at pristine
  obtain rfl := List.singleton_injective pristine
  exact hides.pages_ne_nil _ _ (describes.usual_iff.1 usual)

/-- The pagination record of an artifact describes the document as it was read: its only paginated
field or that there is none. This holds of all accepted documents under a configuration exactly if its
schema does not declare a directive by the name of the mark. Then what spreads bring in has no part in
the record: documents that were read as the same one have the same record, whatever fragments are
collected with them. -/
theorem pagination_recorded_iff {definitions : List SchemaDefinition} {config : Config}
    (built : Schema.ofDefinitions definitions = .ok config.schema)
    (text : config.schema.isComposite "String" = false) :
    ((∀ document artifact, Delivers config document → Generation.generate config document = .ok artifact →
        document.RecordedBy config artifact.pagination) ↔
      config.schema.directives.contains Directive.fragmentMark = false) ∧
    (config.schema.directives.contains Directive.fragmentMark = false →
      ∀ first second, Delivers config first → Delivers config second → first.pristine = second.pristine →
      ∀ artifact other, Generation.generate config first = .ok artifact →
        Generation.generate config second = .ok other → artifact.pagination = other.pagination) := by
  refine ⟨⟨fun always => ?_, fun undeclared document artifact delivers generated => ?_⟩,
    fun undeclared first second delivers deliversOther same artifact other generated generatedOther => ?_⟩
  · cases declared : config.schema.directives.contains Directive.fragmentMark with
    | false => rfl
    | true =>
        obtain ⟨document, artifact, delivers, generated, fails⟩ :=
          exists_not_recordedBy built text declared
        exact absurd (always document artifact delivers generated) fails
  · exact delivers.recordedBy built text undeclared generated
  · obtain ⟨definition, pristine, describes⟩ := delivers.recordedBy built text undeclared generated
    obtain ⟨_, pristineOther, describesOther⟩ :=
      deliversOther.recordedBy built text undeclared generatedOther
    cases pristine.symm.trans (same.trans pristineOther)
    exact describes.unique describesOther

/-- Values that hold a list, which the query root has as well. -/
def shelves : List SchemaDefinition :=
  let items : FieldDef := ⟨"items", .list (.named "Int"), [⟨"limit", .named "Int", false⟩]⟩
  [.type "Shelf" (.object [⟨"id", .named "ID", []⟩, items] []),
    .type "Query" (.object [⟨"node", .named "Shelf", []⟩, items] [])]

def shelfTexts : List String :=
  ["query Q \x7b node \x7b ...F \x7d all: items(limit: 2) @paginate \x7d",
    "fragment F on Shelf \x7b ...G \x7d",
    "fragment G on Shelf \x7b items(limit: 5) @paginate \x7d"]

/-- The query spreads a fragment whose fragment paginates a field as well. -/
theorem pagination_recorded_iff_shelves :
    ∃ schema revised, runTexts? shelves shelfTexts = some (schema, revised) ∧
      (revised.map fun document =>
        (Generation.generate (.ofSchema schema) document).toOption.map Artifact.pagination) =
          [some ⟨.offset, some ["all"], some 2, none⟩, some .none,
            some ⟨.offset, some ["items"], some 5, some ⟨"node", "Shelf", ["id"]⟩⟩] ∧
      ∀ document ∈ revised, ∀ artifact, Generation.generate (.ofSchema schema) document = .ok artifact →
        document.RecordedBy (.ofSchema schema) artifact.pagination := by
  have ran : (runTexts? shelves shelfTexts).any (fun result =>
      !result.1.isComposite "String" && !result.1.directives.contains Directive.fragmentMark &&
        (result.2.map fun document =>
          (Generation.generate (.ofSchema result.1) document).toOption.map Artifact.pagination) ==
          [some ⟨.offset, some ["all"], some 2, none⟩, some .none,
            some ⟨.offset, some ["items"], some 5, some ⟨"node", "Shelf", ["id"]⟩⟩]) = true := by
    decide +kernel
  obtain ⟨⟨schema, revised⟩, found, checked⟩ := (Option.any_eq_true _ _).1 ran
  obtain ⟨sources, collection, documents, cancelled, built, collects, clean, accepted⟩ :=
    runTexts?_eq_some found
  simp only [Bool.and_eq_true, Bool.not_eq_true', beq_iff_eq] at checked
  obtain ⟨⟨text, undeclared⟩, records⟩ := checked
  have config : Schema.ofDefinitions shelves = .ok (Config.ofSchema schema).schema := built
  refine ⟨schema, revised, found, records, fun document member artifact generated => ?_⟩
  exact (pagination_recorded_iff config text).1.2 undeclared document artifact
    ⟨sources, collection, documents, revised, cancelled, collects, clean, accepted, member⟩ generated

/-- A schema that declares a directive by the name of the mark. -/
def markedLists : List SchemaDefinition :=
  [.directive "__fragment",
    .type "Query" (.object [⟨"items", .list (.named "Int"), [⟨"limit", .named "Int", false⟩]⟩] [])]

/-- A query that sets the mark itself has the usual record, although it paginates a field. -/
theorem page_in_marked_unrecorded :
    ∃ schema document artifact,
      runTexts? markedLists
        ["query Q \x7b ... @__fragment(name: \"F\") \x7b items(limit: 1) @paginate \x7d \x7d"] =
        some (schema, [document]) ∧
      Generation.generate (.ofSchema schema) document = .ok artifact ∧ artifact.pagination = .none ∧
      (document.pristine.map fun definition =>
        (pages schema (definition.rootType? schema) definition.selections.items).map Page.path) =
          [[["items"]]] ∧
      ¬ document.RecordedBy (.ofSchema schema) artifact.pagination := by
  have ran : (runTexts? markedLists
      ["query Q \x7b ... @__fragment(name: \"F\") \x7b items(limit: 1) @paginate \x7d \x7d"]).any
      (fun result => result.2.length == 1 && result.2.all fun document =>
        ((Generation.generate (.ofSchema result.1) document).toOption.any fun artifact =>
          artifact.pagination == .none) &&
        (document.pristine.map fun definition =>
          (pages result.1 (definition.rootType? result.1) definition.selections.items).map Page.path) ==
            [[["items"]]]) = true := by
    decide +kernel
  obtain ⟨⟨schema, revised⟩, found, checked⟩ := (Option.any_eq_true _ _).1 ran
  simp only [Bool.and_eq_true, beq_iff_eq, List.length_eq_one_iff] at checked
  obtain ⟨⟨document, rfl⟩, checked⟩ := checked
  simp only [List.all_cons, List.all_nil, Bool.and_true, Bool.and_eq_true, Option.any_eq_true,
    beq_iff_eq] at checked
  obtain ⟨⟨artifact, generated, usual⟩, written⟩ := checked
  refine ⟨schema, document, artifact, found, toOption_eq_some_iff.1 generated, usual, written, ?_⟩
  rintro ⟨definition, pristine, describes⟩
  have none : pages schema (definition.rootType? schema) definition.selections.items = [] :=
    describes.usual_iff.1 usual
  rw [pristine, List.map_singleton, none] at written
  cases written

end Pipeline

end GraphqlStore
