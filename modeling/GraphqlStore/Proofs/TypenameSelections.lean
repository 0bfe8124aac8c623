import GraphqlStore.Proofs.AcceptedTyping

/-!
Selections below the name of a type. No pass looks at them: if the schema
declares texts as a composite type, a query that spreads an unknown fragment
below `__typename`, with the same directive twice, goes through all passes as
it is.
-/

set_option autoImplicit false

namespace GraphqlStore

def bareQuery (name : String) (position : Position) (selections : SelectionSet) : Definition :=
  .operation ⟨.query, position, some name, [], [], selections⟩

/-! ## Queries that no pass revises -/

section BareQuery

variable {document : Document} {name : String} {position : Position} {selections : SelectionSet}
  (defines : document.Defines (bareQuery name position selections)) (schema : Schema)

include defines

theorem ofDocuments_bareQuery : FragmentRegistry.ofDocuments [document] = NameMap.empty := by
  simp [FragmentRegistry.ofDocuments, FragmentRegistry.register, defines.definition?_eq, bareQuery]

theorem visits?_bareQuery :
    document.visits? schema = some (visits schema schema.query [] selections.items) :=
  defines.visits?_eq (defines.rootType?_eq schema)

theorem conforms_bareQuery (constant : selectionVariables selections.items = [])
    (sound : ∀ visit ∈ visits schema schema.query [] selections.items,
      Conformance.visitFaults schema NameMap.empty visit = [])
    (merges : Merge.faults schema NameMap.empty schema.query selections.items = []) :
    Conformance.faults schema (FragmentRegistry.ofDocuments [document]) document = [] := by
  have rooted : document.rootType? schema = some schema.query := defines.rootType?_eq schema
  have unused : (FragmentRegistry.variableNames NameMap.empty selections.items).names = [] := by
    have none : ∀ name, FragmentRegistry.fragmentVariables NameMap.empty name = [] := fun _ => rfl
    rw [FragmentRegistry.variableNames, constant, List.flatMap_eq_nil_iff.2 fun name _ => none name]
    rfl
  rw [Conformance.faults, defines.definition?_eq, rooted, ofDocuments_bareQuery defines]
  simp [bareQuery, Conformance.headFaults, Definition.selections, List.flatMap_eq_nil_iff.2 sound, merges,
    Conformance.definitionVariableFaults, Definition.variableDefinitions?, Conformance.variableFaults,
    Conformance.undefinedFaults, unused]

theorem directives_bareQuery
    (sound : ∀ visit ∈ visits schema schema.query [] selections.items,
      DirectiveCheck.visitFaults schema visit = [] ∧ DirectiveCheck.visitListName? visit = none) :
    DirectiveCheck.reports schema NameMap.empty [document] = [] := by
  have checked : DirectiveCheck.checkedVisits schema document =
      visits schema schema.query [] selections.items := by
    rw [DirectiveCheck.checkedVisits, defines.definition?_eq, visits?_bareQuery defines]
    rfl
  have faults : DirectiveCheck.faults schema document = [] := by
    rw [DirectiveCheck.faults, defines.definition?_eq, checked,
      List.flatMap_eq_nil_iff.2 fun visit member => (sound visit member).1]
    rfl
  have names : DirectiveCheck.listNames schema document = [] := by
    rw [DirectiveCheck.listNames, checked]
    exact List.filterMap_eq_nil_iff.2 fun visit member => (sound visit member).2
  simp [DirectiveCheck.reports, names, DirectiveCheck.checkNames, faults, Document.reports]

theorem scalars_bareQuery {config : Config}
    (known : ∀ visit ∈ visits config.schema config.schema.query [] selections.items,
      ∀ entry, ScalarUsage.visitScalar? config.schema visit = some entry → entry.1 = "String") :
    ScalarUsage.faults config document = [] := by
  have converted : (config.scalarSpec? "String").isNone = false := by
    rw [Config.scalarSpec?]
    cases config.scalars.find? "String" <;> rfl
  have none : (ScalarUsage.scalars config.schema document).filter
      (fun entry => (config.scalarSpec? entry.1).isNone) = [] := by
    refine List.filter_eq_nil_iff.2 fun entry member => ?_
    rw [ScalarUsage.scalars, defines.definition?_eq, visits?_bareQuery defines] at member
    obtain ⟨visit, inVisits, found⟩ := List.mem_filterMap.1 member
    rw [known visit inVisits entry found, converted]
    exact Bool.false_ne_true
  rw [ScalarUsage.faults, none]
  rfl

end BareQuery

theorem visitScalar?_typename {schema : Schema} {parent : String} {head : Field} {items : List Selection}
    {path : List String} {entry : String × Position}
    (found : ScalarUsage.visitScalar? schema (.field parent head items (some .typename) path) =
      some entry) : entry.1 = "String" := by
  rw [ScalarUsage.visitScalar?] at found
  split at found
  · cases found
    rfl
  · cases found

/-- Whether a text is collected as one document that passes a test. -/
def readsAs (text : String) (test : Document → Bool) : Bool :=
  (Collection.collect [⟨none, text, true, true⟩]).toOption.any fun collection =>
    collection.toExcept.toOption.any fun documents => documents.length == 1 && documents.all test

theorem exists_of_readsAs {text : String} {test : Document → Bool} (reads : readsAs text test = true) :
    ∃ sources collection document definition, Collection.collect sources = .ok collection ∧
      collection.toExcept = .ok [document] ∧ document.Defines definition ∧ test document = true := by
  obtain ⟨collection, collects, reads⟩ := (Option.any_eq_true _ _).1 reads
  obtain ⟨documents, clean, reads⟩ := (Option.any_eq_true _ _).1 reads
  rw [toOption_eq_some_iff] at collects clean
  rw [Bool.and_eq_true, beq_iff_eq, List.length_eq_one_iff, List.all_eq_true] at reads
  obtain ⟨⟨document, rfl⟩, passes⟩ := reads
  have member : document ∈ [document] := List.mem_singleton.2 rfl
  obtain ⟨definition, defines⟩ := (collected_of_collect collects clean).defines document member
  exact ⟨_, collection, document, definition, collects, clean, defines, passes document member⟩

/-- A query that has nothing to complete or to expand. -/
structure Unrevised (config : Config) (document : Document) (position opening : Position)
    (items : List Selection) : Prop where
  defines : document.Defines (bareQuery document.name position ⟨opening, items⟩)
  unpaginated : PaginationCompletion.check config document = ([], none)
  unexpanded : Inlining.expand NameMap.empty config.fragmentMasking [] items = items
  complete : IdentityCompletion.complete config config.schema.query ⟨opening, items⟩ = .keep items

namespace Unrevised

variable {config : Config} {document : Document} {position opening : Position} {items : List Selection}
  (unrevised : Unrevised config document position opening items)

include unrevised

theorem collected : Collected [document] :=
  ⟨by simpa using ⟨_, unrevised.defines⟩, by simp⟩

theorem inlinedItems_eq :
    Pipeline.inlinedItems config [document] document
      (bareQuery document.name position ⟨opening, items⟩) = items := by
  have unchanged : Pipeline.paginated config [document] = [document] := by
    simp [Pipeline.paginated, PaginationCompletion.step, unrevised.unpaginated]
  rw [Pipeline.inlinedItems, unchanged, ofDocuments_bareQuery unrevised.defines,
    PaginationCompletion.completedItems, unrevised.unpaginated]
  exact unrevised.unexpanded

theorem accepts
    (conforms : Conformance.faults config.schema (FragmentRegistry.ofDocuments [document]) document = [])
    (directives : DirectiveCheck.reports config.schema NameMap.empty [document] = [])
    (scalars : ScalarUsage.faults config document = []) : Pipeline.Accepts config [document] where
  conforms := by simpa using conforms
  directives := directives
  scalars := by simpa using scalars
  pages := by simp [PaginationCompletion.step, unrevised.unpaginated, Document.reports]
  keys middle member := by
    obtain ⟨source, inDocuments, definition, defines, definesMiddle⟩ :=
      Pipeline.mem_inlined unrevised.collected member
    obtain rfl := List.mem_singleton.1 inDocuments
    cases unrevised.defines.unique defines
    rw [unrevised.inlinedItems_eq] at definesMiddle
    have rooted := (unrevised.defines.rootType?_withItems definesMiddle config.schema).trans
      (unrevised.defines.rootType?_eq config.schema)
    refine (IdentityCompletion.step_defines definesMiddle rooted).2.2 ?_
    rw [Definition.selections_withItems]
    exact congrArg Completed.faults unrevised.complete

theorem defines_of_mem_completed (accepts : Pipeline.Accepts config [document]) {revised : Document}
    (member : revised ∈ Pipeline.completed config [document]) :
    revised.Defines (bareQuery document.name position ⟨opening, items⟩) := by
  obtain ⟨source, inDocuments, definition, type, defines, rooted, definesLast, _⟩ :=
    Pipeline.mem_completed unrevised.collected accepts member
  obtain rfl := List.mem_singleton.1 inDocuments
  cases unrevised.defines.unique defines
  cases (unrevised.defines.rootType?_eq config.schema).symm.trans rooted
  rw [Pipeline.revisedItems, unrevised.inlinedItems_eq] at definesLast
  have kept := congrArg Completed.items unrevised.complete
  dsimp only [bareQuery, Definition.selections, Definition.withItems] at definesLast
  rw [kept] at definesLast
  exact definesLast

end Unrevised

/-! ## Selections below the name -/

/-- A query for the name of the root type, with a spread below it that repeats a directive. -/
structure BelowTypename (document : Document) (position opening : Position) (head : Field)
    (spread : Spread) : Prop where
  defines : document.Defines
    (bareQuery document.name position ⟨opening, [.field head [.spread spread]]⟩)
  typename : head.name = Schema.typenameField
  arguments : head.arguments = []
  fieldDirectives : head.directives = []
  repeats : spread.directives.map Directive.name = ["a", "a"]
  bare : directiveVariables spread.directives = []

namespace BelowTypename

variable {document : Document} {position opening : Position} {head : Field} {spread : Spread}
  (below : BelowTypename document position opening head spread)

include below

section Composite

variable {config : Config} (root : config.schema.isComposite config.schema.query = true)

include root

theorem field?_eq : config.schema.field? config.schema.query head.name = some .typename := by
  rw [below.typename]
  exact IdentityCompletion.field?_typename root

theorem visits_eq : visits config.schema config.schema.query [] [.field head [.spread spread]] =
    [.field config.schema.query head [.spread spread] (some .typename) [head.responseName]] := by
  simp [visits, Selection.visits, below.field?_eq root]

theorem conforms (text : config.schema.isComposite "String" = true) :
    Conformance.faults config.schema (FragmentRegistry.ofDocuments [document]) document = [] := by
  have constant : selectionVariables [.field head [.spread spread]] = [] := by
    have field : directiveVariables head.directives = [] := by
      rw [below.fieldDirectives]
      rfl
    simp [selectionVariables, Selection.variableNames, below.arguments, field, below.bare]
  refine conforms_bareQuery below.defines config.schema constant ?_ ?_
  · rw [below.visits_eq root, List.forall_mem_singleton]
    simp [Conformance.visitFaults, Conformance.fieldIssues, below.arguments, FieldRef.arguments,
      FieldRef.typeName, FieldRef.type, TypeRef.base, text]
  · simp [Merge.faults, Merge.depthBound, Merge.faults?, Merge.parts, Merge.fields, Merge.groups,
      Merge.addToGroup, Merge.compare, Merge.children, below.field?_eq root]

theorem directives_sound : DirectiveCheck.reports config.schema NameMap.empty [document] = [] := by
  refine directives_bareQuery below.defines config.schema ?_
  rw [below.visits_eq root, List.forall_mem_singleton]
  simp [DirectiveCheck.visitFaults, DirectiveCheck.faultsAt, DirectiveCheck.listFaults,
    DirectiveCheck.targetFaults, DirectiveCheck.visitListName?, DirectiveCheck.listName?,
    DirectiveCheck.listDirective?, below.fieldDirectives]

theorem scalars_known : ScalarUsage.faults config document = [] := by
  refine scalars_bareQuery below.defines ?_
  rw [below.visits_eq root, List.forall_mem_singleton]
  intro entry found
  exact visitScalar?_typename found

theorem unrevised : Unrevised config document position opening [.field head [.spread spread]] where
  defines := below.defines
  unpaginated := by
    rw [PaginationCompletion.check, visits?_bareQuery below.defines, below.visits_eq root]
    simp [PaginationCompletion.paginated?, Field.isPaginated, Field.hasDirective, below.fieldDirectives]
  unexpanded := by
    simp [Inlining.expand, mapSpreads, Selection.mapSpreads, Inlining.expandSpread, NameMap.find?_empty]
  complete := by
    simp [IdentityCompletion.complete, IdentityCompletion.completeItems,
      IdentityCompletion.completeSelection, below.field?_eq root, IdentityCompletion.reserveAll,
      IdentityCompletion.needsIdentity, Completed.andThen, Completed.cons, Completed.keep]

theorem accepts (text : config.schema.isComposite "String" = true) :
    Pipeline.Accepts config [document] :=
  (below.unrevised root).accepts (below.conforms root text) (below.directives_sound root)
    (below.scalars_known root)

theorem defines_of_mem_completed (text : config.schema.isComposite "String" = true)
    {revised : Document} (member : revised ∈ Pipeline.completed config [document]) :
    revised.Defines
      (bareQuery document.name position ⟨opening, [.field head [.spread spread]]⟩) :=
  (below.unrevised root).defines_of_mem_completed (below.accepts root text) member

private theorem spreadNames_of_mem_completed (text : config.schema.isComposite "String" = true)
    {revised : Document} (member : revised ∈ Pipeline.completed config [document])
    {selections : SelectionSet} (defined : revised.selections? = some selections) :
    spreadNames selections.items = [spread.name] := by
  have definesLast := below.defines_of_mem_completed root text member
  cases definesLast.selections?_eq.symm.trans defined
  rfl

end Composite

end BelowTypename

def isBelowTypename (document : Document) : Bool :=
  match document.working with
  | [.operation ⟨.query, _, some _, [], [], ⟨_, [.field head [.spread spread]]⟩⟩] =>
      head.name == Schema.typenameField && head.arguments.isEmpty && head.directives.isEmpty &&
        spread.directives.map Directive.name == ["a", "a"] &&
        (directiveVariables spread.directives).isEmpty
  | _ => false

private theorem belowTypename_of_isBelowTypename {document : Document} {definition : Definition}
    (defines : document.Defines definition) (test : isBelowTypename document = true) :
    ∃ position opening head spread, BelowTypename document position opening head spread := by
  unfold isBelowTypename at test
  split at test
  · rename_i position name opening head spread working
    simp only [Bool.and_eq_true, beq_iff_eq, List.isEmpty_iff] at test
    obtain ⟨⟨⟨⟨typename, arguments⟩, directives⟩, repeats⟩, bare⟩ := test
    obtain rfl := List.singleton_injective (defines.working.symm.trans working)
    obtain rfl : name = document.name := Option.some.inj (Prod.mk.inj defines.named).2
    exact ⟨position, opening, head, spread, defines, typename, arguments, directives, repeats, bare⟩
  · cases test

/-- Some text is collected as a query for the name of its root type, with such a spread below
it. -/
theorem exists_belowTypename :
    ∃ sources collection document position opening head spread,
      Collection.collect sources = .ok collection ∧ collection.toExcept = .ok [document] ∧
      BelowTypename document position opening head spread := by
  have read : readsAs "query Q \x7b __typename \x7b ...Missing @a @a \x7d \x7d" isBelowTypename = true := by
    decide +kernel
  obtain ⟨sources, collection, document, definition, collects, clean, defines, test⟩ :=
    exists_of_readsAs read
  obtain ⟨position, opening, head, spread, below⟩ := belowTypename_of_isBelowTypename defines test
  exact ⟨sources, collection, document, position, opening, head, spread, collects, clean, below⟩

namespace Pipeline

/-- After the built-in passes have accepted documents, no spreads are left in them and all
selections resolve. This holds of all runs under a configuration exactly if its schema does not
declare texts as a composite type. -/
theorem run_standard_typed_iff {definitions : List SchemaDefinition} {config : Config}
    (built : Schema.ofDefinitions definitions = .ok config.schema) :
    (∀ sources collection documents revised cancelled, Collection.collect sources = .ok collection →
      collection.toExcept = .ok documents →
      run config (Pass.standard []) documents false = .ok (revised, cancelled) →
      ∀ document ∈ revised, ∃ root selections, document.rootType? config.schema = some root ∧
        document.selections? = some selections ∧ spreadNames selections.items = [] ∧
        Typed config.schema noSpreads root selections.items) ↔
      config.schema.isComposite "String" = false := by
  constructor
  · intro always
    cases text : config.schema.isComposite "String" with
    | false => rfl
    | true =>
        obtain ⟨sources, collection, document, _, _, _, spread, collects, clean, below⟩ :=
          exists_belowTypename
        have root : config.schema.isComposite config.schema.query = true :=
          Schema.isComposite_root built (rfl : config.schema.root? .query = _)
        have accepted := run_standard_eq_ok_iff.2 ⟨below.accepts root text, rfl, rfl⟩
        have member : _ ∈ completed config [document] := List.mem_singleton.2 rfl
        obtain ⟨_, selections, _, defined, none, _⟩ :=
          always sources collection _ _ _ collects clean accepted _ member
        rw [below.spreadNames_of_mem_completed root text member defined] at none
        cases none
  · intro text sources collection documents revised cancelled collects clean accepted
    exact run_standard_typed built text collects clean accepted

theorem run_standard_typed_iff_catalog :
    ∃ schema revised, runTexts? catalog catalogTexts = some (schema, revised) ∧
      revised.map Document.name = ["Q", "F"] ∧
      ∀ document ∈ revised, ∃ root selections, document.rootType? schema = some root ∧
        document.selections? = some selections ∧ spreadNames selections.items = [] ∧
        Typed schema noSpreads root selections.items := by
  have ran : (runTexts? catalog catalogTexts).any (fun result =>
      !result.1.isComposite "String" && result.2.map Document.name == ["Q", "F"]) = true := by
    decide +kernel
  obtain ⟨⟨schema, revised⟩, found, sound⟩ := (Option.any_eq_true _ _).1 ran
  obtain ⟨sources, collection, documents, cancelled, built, collects, clean, accepted⟩ :=
    runTexts?_eq_some found
  simp only [Bool.and_eq_true, Bool.not_eq_true', beq_iff_eq] at sound
  have config : Schema.ofDefinitions catalog = .ok (Config.ofSchema schema).schema := built
  exact ⟨schema, revised, found, sound.2, (run_standard_typed_iff config).2 sound.1 sources collection
    documents revised cancelled collects clean accepted⟩

/-- A schema in which the name of a type is an object with fields. -/
def composedTexts : List SchemaDefinition :=
  [.type "String" (.object [⟨"x", .named "Int", []⟩] []),
    .type "Query" (.object [⟨"a", .named "Int", []⟩] [])]

/-- Below the name of a type a spread of a fragment that does not exist goes unnoticed. -/
theorem spread_stays_below_typename :
    (runTexts? composedTexts ["query Q \x7b __typename \x7b ...Missing \x7d \x7d"]).map
        (fun result => result.2.map fun document => document.selections?.map fun selections =>
          spreadNames selections.items) =
      some [some ["Missing"]] := by
  decide +kernel

end Pipeline

end GraphqlStore
