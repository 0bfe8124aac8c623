import GraphqlStore.Proofs.OwnPages

/-!
Which documents of an accepted run have an artifact. The passes see to it that
fields resolve, that no spreads are left and that a declared field that is
paginated can be. What they leave to be found is a composite field without
selections, a paginated `__typename`, and two selections that end at one place
of the shape and select different fields.
-/

set_option autoImplicit false

namespace GraphqlStore

/-- Every composite field of a selection has selections. -/
inductive Selection.Filled (schema : Schema) : String → Selection → Prop where
  | field {parent : String} {head : Field} {items : List Selection} :
      (∀ found, schema.field? parent head.name = some found →
        schema.isComposite found.typeName = true → items ≠ []) →
      (∀ found, schema.field? parent head.name = some found →
        schema.isComposite found.typeName = true →
        ∀ item ∈ items, Selection.Filled schema found.typeName item) →
      Selection.Filled schema parent (.field head items)
  | spread {parent : String} {head : Spread} : Selection.Filled schema parent (.spread head)
  | inline {parent : String} {head : InlineFragment} {items : List Selection} :
      (∀ item ∈ items, Selection.Filled schema (head.typeWithin parent) item) →
      Selection.Filled schema parent (.inline head items)

private theorem Selection.Typed.compiles_iff_filled {schema : Schema} {parent : String}
    {selection : Selection} (typed : selection.Typed schema noSpreads parent) :
    selection.Compiles schema parent ↔ selection.Filled schema parent := by
  induction typed with
  | @field parent head items found resolved _ _ _ ih =>
      have only {other : FieldRef} (otherResolved : schema.field? parent head.name = some other) :
          found = other := Option.some.inj (resolved.symm.trans otherResolved)
      rw [Generation.compiles_field resolved]
      constructor
      · intro below
        refine .field (fun other otherResolved composite => ?_)
          fun other otherResolved composite item member => ?_
        · obtain rfl := only otherResolved
          exact (below composite).1
        · obtain rfl := only otherResolved
          exact (ih item member).1 ((below composite).2 item member)
      · intro filled composite
        cases filled with
        | field selected below =>
            exact ⟨selected found resolved composite, fun item member =>
              (ih item member).2 (below found resolved composite item member)⟩
  | spread absurd => exact absurd.elim
  | inline _ _ ih =>
      rw [Generation.compiles_inline]
      constructor
      · exact fun below => .inline fun item member => (ih item member).1 (below item member)
      · intro filled
        cases filled with
        | inline below => exact fun item member => (ih item member).2 (below item member)

private theorem Document.Defines.refetchType?_withItems {document other : Document}
    {definition : Definition} {items : List Selection} (defines : document.Defines definition)
    (definesOther : other.Defines (definition.withItems items)) :
    Generation.refetchType? other = Generation.refetchType? document := by
  unfold Generation.refetchType?
  rw [defines.definition?_eq, definesOther.definition?_eq]
  cases definition <;> rfl

namespace Pipeline

section Accepted

variable {config : Config} {documents : List Document} {definitions : List SchemaDefinition}
  (built : Schema.ofDefinitions definitions = .ok config.schema)
  (text : config.schema.isComposite "String" = false) (accepts : Accepts config documents)
  (undeclared : config.schema.directives.contains Directive.fragmentMark = false)

include built text accepts undeclared

theorem pageable_iff {document revised : Document} (member : document ∈ documents)
    {definition : Definition} (defines : document.Defines definition) {root : String}
    (rooted : document.rootType? config.schema = some root)
    (definesRevised : revised.Defines
      (definition.withItems (revisedItems config documents document definition root))) :
    let pages := ownPages config.schema root (revisedItems config documents document definition root)
    (pages.length ≤ 1 ∧ ∀ entry ∈ pages, Generation.Pageable config revised entry) ↔
      ∀ entry ∈ pages, entry.2 ≠ .typename := by
  intro pages
  obtain ⟨other, typedOn⟩ := typedOn_of_mem built text accepts member defines
  obtain rfl : other = root := Option.some.inj (typedOn.rooted.symm.trans rooted)
  have unmarked := DirectiveCheck.unmarked_of_faults text undeclared typedOn
    (DirectiveCheck.faults_of_reports accepts.directives document member)
  have met : PaginationCompletion.met config document =
      pages.map PaginationCompletion.withDeclaration := by
    have same : pages = ownPages config.schema other definition.selections.items := by
      simp only [pages, ownPages_eq_map, ownPlaces_revisedItems unmarked]
    rw [PaginationCompletion.met, defines.visits?_eq rooted, same]
    exact PaginationCompletion.paginated_of_forall unmarked fun item inside =>
      PaginationCompletion.paginated_eq_ownPages text []
        (Schema.type?_isSome_of_isComposite typedOn.composite) (typedOn.typed item inside)
  rcases PaginationCompletion.met_of_check
      (PaginationCompletion.check_of_step (accepts.pages document member)) with
    ⟨none, _⟩ | ⟨head, declared, only, sound, _⟩
  · rw [met, List.map_eq_nil_iff] at none
    simp [none]
  · rw [met, List.map_eq_singleton_iff] at only
    obtain ⟨⟨field, found⟩, single, same⟩ := only
    obtain ⟨rfl, rfl⟩ := Prod.mk.inj same
    rw [single]
    cases found with
    | typename => simp [Generation.Pageable]
    | declared declaration =>
        obtain ⟨_, mode, same, accepted, refetched⟩ := PaginationCompletion.pageable_of_checkField
          (PaginationCompletion.checkField_of_checkFirst sound)
        rw [← defines.refetchType?_withItems definesRevised] at refetched
        simpa using ⟨_, mode, same, accepted, refetched⟩

end Accepted

/-- An artifact is generated for a document of an accepted run exactly if its selections compile,
what it paginates itself can be paged through, and no place of the shape is ambiguous. If texts are
not composite and the schema declares no directive by the name of the mark, the passes leave
nothing else of this open than that composite fields have selections, that `__typename` is not
paginated, and that no place is ambiguous. -/
theorem generate_ok_iff_of_run_standard {definitions : List SchemaDefinition} {config : Config}
    {sources : List DocumentSource} {collection : Collection} {documents revised : List Document}
    {cancelled : Bool} (built : Schema.ofDefinitions definitions = .ok config.schema)
    (collects : Collection.collect sources = .ok collection)
    (clean : collection.toExcept = .ok documents)
    (accepted : run config (Pass.standard []) documents false = .ok (revised, cancelled)) :
    ∀ document ∈ revised, ∃ root selections, document.rootType? config.schema = some root ∧
      document.selections? = some selections ∧
      ((∃ artifact, Generation.generate config document = .ok artifact) ↔
        (∀ item ∈ selections.items, item.Compiles config.schema root) ∧
        ((ownPages config.schema root selections.items).length ≤ 1 ∧
          ∀ entry ∈ ownPages config.schema root selections.items,
            Generation.Pageable config document entry) ∧
        Unambiguous (contentOf config.schema root selections.items)) ∧
      (config.schema.isComposite "String" = false →
        config.schema.directives.contains Directive.fragmentMark = false →
        ((∃ artifact, Generation.generate config document = .ok artifact) ↔
          (∀ item ∈ selections.items, item.Filled config.schema root) ∧
          (∀ entry ∈ ownPages config.schema root selections.items, entry.2 ≠ .typename) ∧
          Unambiguous (contentOf config.schema root selections.items))) := by
  intro document member
  obtain ⟨accepts, rfl, _⟩ := run_standard_eq_ok_iff.1 accepted
  have collected := collected_of_collect collects clean
  obtain ⟨source, inDocuments, definition, root, defines, rooted, definesLast, rootedLast⟩ :=
    mem_completed collected accepts member
  have generated := Generation.generate_isOk_iff rootedLast definesLast.selections?_eq
  refine ⟨root, _, rootedLast, definesLast.selections?_eq, generated, fun text undeclared => ?_⟩
  rw [generated, Definition.selections_withItems]
  have kept := revisedItems_keeps built text collected accepts
    (SelectionView.spreads config.schema) inDocuments defines rooted
  have pages := pageable_iff built text accepts undeclared inDocuments defines rooted
    definesLast
  refine and_congr (forall₂_congr fun item inside => ?_) (and_congr_left fun _ => pages)
  exact (kept.typed item inside).compiles_iff_filled

theorem generate_ok_iff_of_run_standard_catalog :
    ∃ schema revised, runTexts? catalog catalogTexts = some (schema, revised) ∧
      revised.map Document.name = ["Q", "F"] ∧
      ∀ document ∈ revised, ∃ root selections, document.rootType? schema = some root ∧
        document.selections? = some selections ∧
        (∀ item ∈ selections.items, item.Filled schema root) ∧
        (∀ entry ∈ ownPages schema root selections.items, entry.2 ≠ .typename) ∧
        Unambiguous (contentOf schema root selections.items) := by
  have ran : (runTexts? catalog catalogTexts).any (fun result =>
      !result.1.isComposite "String" && !result.1.directives.contains Directive.fragmentMark &&
        result.2.map Document.name == ["Q", "F"] && result.2.all fun document =>
          (Generation.generate (.ofSchema result.1) document).toOption.isSome) = true := by
    decide +kernel
  obtain ⟨⟨schema, revised⟩, found, sound⟩ := (Option.any_eq_true _ _).1 ran
  obtain ⟨sources, collection, documents, cancelled, built, collects, clean, accepted⟩ :=
    runTexts?_eq_some found
  simp only [Bool.and_eq_true, Bool.not_eq_true', beq_iff_eq, List.all_eq_true] at sound
  obtain ⟨⟨⟨text, undeclared⟩, names⟩, generated⟩ := sound
  refine ⟨schema, revised, found, names, fun document member => ?_⟩
  obtain ⟨root, selections, rooted, defined, _, exact⟩ :=
    generate_ok_iff_of_run_standard built collects clean accepted document member
  obtain ⟨artifact, made⟩ := Option.isSome_iff_exists.1 (generated document member)
  exact ⟨root, selections, rooted, defined,
    (exact text undeclared).1 ⟨artifact, toOption_eq_some_iff.1 made⟩⟩

/-- A connection whose page information has no field that the pages need. -/
def bareConnection : List SchemaDefinition :=
  [.type "PageInfo" (.object [⟨"total", .named "Int", []⟩] []),
    .type "Edge" (.object [⟨"node", .named "Int", []⟩] []),
    .type "Items" (.object [⟨"edges", .list (.named "Edge"), []⟩,
      ⟨"pageInfo", .named "PageInfo", []⟩] []),
    .type "Query" (.object [⟨"items", .named "Items",
      [⟨"first", .named "Int", false⟩, ⟨"after", .named "String", false⟩]⟩] [])]

/-- The page information is added with nothing below it, and has no artifact. -/
theorem pageInfo_left_without_selection :
    (runTexts? bareConnection
        ["query Q \x7b items(first: 1) @paginate \x7b edges \x7b node \x7d \x7d \x7d"]).map
        (fun result => result.2.map fun document =>
          match Generation.generate (.ofSchema result.1) document with
          | .ok _ => []
          | .error found => found.map Diagnostic.message) =
      some [["composite field \"pageInfo\" has no selection"]] := by
  decide +kernel

end Pipeline

end GraphqlStore
