import GraphqlStore.Proofs.AcceptedTyping
import GraphqlStore.Proofs.ConstantDefaults

/-!
The variables of the documents that are sent to a server. The variables of an
operation are checked where they are used before any pass has changed it: in
its selections and in those of the fragments that it reaches. The passes bring
no others in, so what is sent uses declared variables only, as far as
selections go. The directives of the operation itself are not checked.
-/

set_option autoImplicit false

namespace GraphqlStore

/-! ## Selections -/

def Selection.UsesOnly (allowed : String → Prop) (selection : Selection) : Prop :=
  ∀ name ∈ selection.variableNames, allowed name

abbrev UsesOnly (allowed : String → Prop) (items : List Selection) : Prop :=
  ∀ item ∈ items, item.UsesOnly allowed

variable {allowed : String → Prop}

theorem usesOnly_iff {items : List Selection} :
    UsesOnly allowed items ↔ ∀ name ∈ selectionVariables items, allowed name := by
  induction items with
  | nil => simp [UsesOnly, selectionVariables]
  | cons item rest ih =>
      rw [UsesOnly, List.forall_mem_cons, selectionVariables, List.forall_mem_append, ← ih]
      rfl

private theorem usesOnly_field {head : Field} {items : List Selection} :
    (Selection.field head items).UsesOnly allowed ↔
      (∀ argument ∈ head.arguments, ∀ name ∈ argument.2.variableNames, allowed name) ∧
        (∀ name ∈ directiveVariables head.directives, allowed name) ∧ UsesOnly allowed items := by
  rw [Selection.UsesOnly, Selection.variableNames, List.forall_mem_append, List.forall_mem_append,
    List.forall_mem_flatMap, usesOnly_iff]

private theorem usesOnly_inline {head : InlineFragment} {items : List Selection} :
    (Selection.inline head items).UsesOnly allowed ↔
      (∀ name ∈ directiveVariables head.directives, allowed name) ∧ UsesOnly allowed items := by
  rw [Selection.UsesOnly, Selection.variableNames, List.forall_mem_append, usesOnly_iff]

theorem mem_directiveVariables {directives : List Directive} {name : String} :
    name ∈ directiveVariables directives ↔
      ∃ directive ∈ directives, ∃ argument ∈ directive.arguments,
        name ∈ argument.2.variableNames := by
  simp only [directiveVariables, List.mem_flatMap]

theorem Supplemented.usesOnly {schema : Schema} {supplied : String → String → Prop}
    {parent : String} {items others : List Selection}
    (supplemented : Supplemented schema supplied parent items others)
    (uses : UsesOnly allowed items) : UsesOnly allowed others := by
  rw [usesOnly_iff, supplemented.selectionVariables_eq, ← usesOnly_iff]
  exact uses

/-! ## What a server reads -/

private theorem mem_of_mem_external {directives : List Directive} {name : String}
    (member : name ∈ directiveVariables (Directive.external directives)) :
    name ∈ directiveVariables directives := by
  obtain ⟨directive, kept, used⟩ := mem_directiveVariables.1 member
  exact mem_directiveVariables.2 ⟨directive, List.mem_of_mem_filter kept, used⟩

theorem externalSelections_eq (items : List Selection) :
    externalSelections items = items.map Selection.external := by
  induction items with
  | nil => rfl
  | cons item rest ih => rw [externalSelections, List.map_cons, ih]

private theorem usesOnly_externalSelections {items : List Selection}
    (each : ∀ item ∈ items, item.external.UsesOnly allowed) :
    UsesOnly allowed (externalSelections items) := by
  rw [externalSelections_eq]
  exact List.forall_mem_map.2 each

private theorem usesOnly_external {selection : Selection} (uses : selection.UsesOnly allowed) :
    selection.external.UsesOnly allowed := by
  induction selection with
  | field head items ih =>
      obtain ⟨arguments, directives, below⟩ := usesOnly_field.1 uses
      refine usesOnly_field.2 ⟨arguments, fun name member => ?_, ?_⟩
      · exact directives name (mem_of_mem_external member)
      · exact usesOnly_externalSelections fun item member => ih item member (below item member)
  | spread head => exact fun name member => uses name (mem_of_mem_external member)
  | inline head items ih =>
      obtain ⟨directives, within⟩ := usesOnly_inline.1 uses
      refine usesOnly_inline.2 ⟨fun name member => ?_, ?_⟩
      · exact directives name (mem_of_mem_external member)
      · exact usesOnly_externalSelections fun item member => ih item member (within item member)

/-! ## Inlining -/

namespace Inlining

variable {registry : FragmentRegistry} {masking : FragmentMasking}

private theorem usesOnly_mapSpreads {replace : Spread → Selection} {selection : Selection}
    (uses : selection.UsesOnly allowed)
    (replaced : ∀ spread : Spread, spread.name ∈ selection.spreads →
      (Selection.spread spread).UsesOnly allowed → (replace spread).UsesOnly allowed) :
    (selection.mapSpreads replace).UsesOnly allowed := by
  induction selection with
  | field head items ih =>
      obtain ⟨arguments, directives, below⟩ := usesOnly_field.1 uses
      refine usesOnly_field.2 ⟨arguments, directives, ?_⟩
      rw [mapSpreads_eq]
      refine List.forall_mem_map.2 fun item member => ih item member (below item member) ?_
      exact fun spread inside => replaced spread (mem_spreadNames.2 ⟨item, member, inside⟩)
  | spread head => exact replaced head (List.mem_singleton_self _) uses
  | inline head items ih =>
      obtain ⟨directives, within⟩ := usesOnly_inline.1 uses
      refine usesOnly_inline.2 ⟨directives, ?_⟩
      rw [mapSpreads_eq]
      refine List.forall_mem_map.2 fun item member => ih item member (within item member) ?_
      exact fun spread inside => replaced spread (mem_spreadNames.2 ⟨item, member, inside⟩)

private theorem mem_of_mem_inlinedDirectives {spread : Spread} {name : String}
    (member : name ∈ directiveVariables (spread.inlinedDirectives masking)) :
    name ∈ directiveVariables spread.directives := by
  obtain ⟨directive, inDirectives, argument, inArguments, used⟩ := mem_directiveVariables.1 member
  rcases List.mem_append.1 inDirectives with kept | mark
  · exact mem_directiveVariables.2
      ⟨directive, List.mem_of_mem_filter kept, argument, inArguments, used⟩
  · rw [List.mem_singleton.1 mark, Directive.inlined] at inArguments
    rcases List.mem_pair.1 inArguments with rfl | rfl <;> cases used

private theorem usesOnly_expandSpread {stack : List String} {spread : Spread}
    (uses : (Selection.spread spread).UsesOnly allowed)
    (bodies : ∀ name fragment, registry.Leads FragmentRegistry.spreads [spread.name] name →
      registry.find? name = some fragment → UsesOnly allowed fragment.selections.items) :
    (expandSpread registry masking stack spread).UsesOnly allowed := by
  fun_induction expandSpread registry masking stack spread with
  | case1 stack spread none => exact uses
  | case2 stack spread fragment found fresh smaller ih =>
      refine usesOnly_inline.2 ⟨fun name member => ?_, ?_⟩
      · exact uses name (mem_of_mem_inlinedDirectives member)
      · rw [mapSpreads_eq]
        have body := bodies spread.name fragment (.start List.mem_cons_self) found
        refine List.forall_mem_map.2 fun item inBody => ?_
        refine usesOnly_mapSpreads (body item inBody) fun inner inside own => ih inner own ?_
        intro name other leads
        refine bodies name other (leads.mono fun start member => ?_)
        rw [List.mem_singleton.1 member]
        refine .step (.start List.mem_cons_self) ?_
        rw [NameMap.successors, found]
        exact mem_spreadNames.2 ⟨item, inBody, inside⟩
  | case3 stack spread fragment found again => exact uses

theorem usesOnly_expand {stack : List String} {items : List Selection}
    (uses : UsesOnly allowed items)
    (bodies : ∀ name fragment, registry.Reaches items name → registry.find? name = some fragment →
      UsesOnly allowed fragment.selections.items) :
    UsesOnly allowed (expand registry masking stack items) := by
  rw [expand, mapSpreads_eq]
  refine List.forall_mem_map.2 fun item member => ?_
  refine usesOnly_mapSpreads (uses item member) fun spread inside own => ?_
  refine usesOnly_expandSpread own fun name fragment leads => bodies name fragment ?_
  refine leads.mono fun start single => ?_
  rw [List.mem_singleton.1 single]
  exact .start (mem_spreadNames.2 ⟨item, member, inside⟩)

end Inlining

/-! ## Conformance -/

def Operation.Declares (operation : Operation) (name : String) : Prop :=
  ∃ definition ∈ operation.variableDefinitions, definition.name = name

namespace Conformance

variable {schema : Schema} {registry : FragmentRegistry} {document : Document}
  {operation : Operation}

private theorem undefinedFaults_of_faults
    (defined : document.definition? = some (.operation operation))
    (isOperation : document.kind.isOperation = true)
    (conforms : faults schema registry document = []) :
    undefinedFaults registry document operation.variableDefinitions
      operation.selections.items = [] := by
  unfold faults at conforms
  rw [defined] at conforms
  cases rooted : document.rootType? schema with
  | none => simp [rooted] at conforms
  | some root =>
      simp only [rooted, headFaults, if_true, List.append_eq_nil_iff, definitionVariableFaults,
        Definition.variableDefinitions?, isOperation] at conforms
      exact conforms.1.1.2.2

/-- An operation that conforms declares the variables that its selections and the fragments that
they reach use. -/
theorem usesOnly_of_faults (defined : document.definition? = some (.operation operation))
    (isOperation : document.kind.isOperation = true)
    (conforms : faults schema registry document = []) :
    UsesOnly operation.Declares operation.selections.items ∧
      ∀ name fragment, registry.Reaches operation.selections.items name →
        registry.find? name = some fragment →
        UsesOnly operation.Declares fragment.selections.items := by
  have declared : ∀ name ∈ registry.variableNames operation.selections.items,
      operation.Declares name := by
    intro name used
    have none := undefinedFaults_of_faults defined isOperation conforms
    simp only [undefinedFaults, List.map_eq_nil_iff, List.filter_eq_nil_iff] at none
    simpa [Operation.Declares] using none name used
  simp only [FragmentRegistry.variableNames, NameSet.mem_ofList, List.mem_append,
    List.mem_flatMap] at declared
  refine ⟨usesOnly_iff.2 fun name used => declared name (.inl used), ?_⟩
  intro other fragment reaches found
  refine usesOnly_iff.2 fun name used => declared name (.inr ⟨other, ?_, ?_⟩)
  · exact FragmentRegistry.mem_reachable_iff.2 reaches
  · rwa [FragmentRegistry.fragmentVariables, found]

end Conformance

/-! ## Accepted runs -/

private theorem documents_of_toExcept {collection : Collection} {documents : List Document}
    (clean : collection.toExcept = .ok documents) : documents = collection.documents := by
  unfold Collection.toExcept at clean
  split at clean
  · exact (Except.ok.inj clean).symm
  · cases clean

namespace Pipeline

variable {config : Config} {documents : List Document}

private theorem usesOnly_revisedItems (collected : Collected documents)
    (accepts : Accepts config documents)
    {document : Document} (member : document ∈ documents) {operation : Operation}
    (defines : document.Defines (.operation operation)) (root : String) :
    UsesOnly operation.Declares
      (revisedItems config documents document (.operation operation) root) := by
  have isOperation : document.kind.isOperation = true := by
    rw [← (Prod.mk.inj defines.named).1]
    rfl
  obtain ⟨own, bodies⟩ := Conformance.usesOnly_of_faults defines.definition?_eq isOperation
    (accepts.conforms document member)
  refine (IdentityCompletion.complete_supplements root ⟨_, _⟩).usesOnly ?_
  refine Inlining.usesOnly_expand ?_ fun name fragment reaches found => ?_
  · exact (PaginationCompletion.completedItems_supplements config document root _).usesOnly own
  · rcases find?_paginated config collected name with
      ⟨_, after⟩ | ⟨source, _, original, _, _, before, after⟩
    · cases after.symm.trans found
    · cases after.symm.trans found
      refine (PaginationCompletion.completedItems_supplements config source root _).usesOnly ?_
      refine bodies name original ?_ before
      rw [FragmentRegistry.Reaches, PaginationCompletion.spreadNames_completedItems] at reaches
      exact reaches.congr (successors_paginated config collected)

end Pipeline

/-- The variables that occur in an operation: in the defaults of its variables, in its directives
and in its selections. -/
def Operation.variableNames (operation : Operation) : List String :=
  operation.variableDefinitions.flatMap
      (fun declared => declared.default.toList.flatMap Value.variableNames) ++
    (directiveVariables operation.directives ++ selectionVariables operation.selections.items)

theorem Operation.forall_variableNames_iff {operation : Operation}
    (constant : (Definition.operation operation).HasConstantDefaults)
    (uses : UsesOnly allowed operation.selections.items) :
    (∀ name ∈ operation.variableNames, allowed name) ↔
      ∀ name ∈ directiveVariables operation.directives, allowed name := by
  have defaults : operation.variableDefinitions.flatMap
      (fun declared => declared.default.toList.flatMap Value.variableNames) = [] :=
    List.flatMap_eq_nil_iff.2 fun declared inside => List.flatMap_eq_nil_iff.2 fun default given =>
      constant declared inside default (Option.mem_toList.1 given)
  rw [variableNames, defaults, List.nil_append, List.forall_mem_append]
  exact and_iff_left (usesOnly_iff.1 uses)

namespace Pipeline

/-- The selections that an accepted run sends to a server use declared variables only. So all
variables of an operation that is sent are declared exactly if those in the operation's own
directives are. -/
theorem run_standard_variables_iff {config : Config} {sources : List DocumentSource}
    {collection : Collection} {documents revised : List Document} {cancelled : Bool}
    (collects : Collection.collect sources = .ok collection)
    (clean : collection.toExcept = .ok documents)
    (accepted : run config (Pass.standard []) documents false = .ok (revised, cancelled))
    {document : Document} (member : document ∈ revised)
    (isOperation : document.kind.isOperation = true) :
    ∃ operation, ExecutableDocument.network document.working = [.operation operation] ∧
      (∀ name ∈ selectionVariables operation.selections.items, operation.Declares name) ∧
      ((∀ name ∈ operation.variableNames, operation.Declares name) ↔
        ∀ name ∈ directiveVariables operation.directives, operation.Declares name) := by
  obtain ⟨accepts, rfl, _⟩ := run_standard_eq_ok_iff.1 accepted
  have collected := collected_of_collect collects clean
  obtain ⟨source, inDocuments, definition, root, defines, _, definesLast, _⟩ :=
    mem_completed collected accepts member
  have named := definesLast.named
  cases definition with
  | shorthand written => cases (Prod.mk.inj named).2
  | fragment declared =>
      rw [← (Prod.mk.inj named).1] at isOperation
      cases isOperation
  | operation declared =>
      let sent : Operation := { declared with
        directives := Directive.external declared.directives
        selections := ⟨declared.selections.opening,
          externalSelections (revisedItems config documents source (.operation declared) root)⟩ }
      have constant : (Definition.operation declared).HasConstantDefaults :=
        hasConstantDefaults_of_collect collects (documents_of_toExcept clean ▸ inDocuments) defines
      have uses : UsesOnly sent.Declares sent.selections.items :=
        usesOnly_externalSelections fun item inside => usesOnly_external
          (usesOnly_revisedItems collected accepts inDocuments defines root item inside)
      refine ⟨sent, ?_, usesOnly_iff.1 uses, Operation.forall_variableNames_iff ?_ uses⟩
      · rw [definesLast.working]
        rfl
      · exact constant

def countedTexts : List String :=
  ["query Q($count: Int = 2, $shown: Boolean) \x7b items(first: $count) @paginate \x7b " ++
      "edges \x7b node \x7b ...F \x7d \x7d \x7d \x7d",
    "fragment F on Item \x7b title @include(if: $shown) \x7d"]

/-- A variable in an argument and one in a directive that a fragment brings. -/
theorem run_standard_variables_iff_catalog :
    ∃ schema revised document operation,
      runTexts? catalog countedTexts = some (schema, revised) ∧ document ∈ revised ∧
      ExecutableDocument.network document.working = [.operation operation] ∧
      operation.variableNames = ["count", "shown"] ∧
      ∀ name ∈ operation.variableNames, operation.Declares name := by
  have ran : (runTexts? catalog countedTexts).any (fun result =>
      result.2.any fun document => document.kind.isOperation &&
        (ExecutableDocument.network document.working).all fun definition =>
          Definition.casesOn (motive := fun _ => Bool) definition (fun _ => false)
            (fun operation => operation.variableNames == ["count", "shown"] &&
              directiveVariables operation.directives == [])
            fun _ => false) = true := by
    decide +kernel
  obtain ⟨⟨schema, revised⟩, texts, checked⟩ := (Option.any_eq_true _ _).1 ran
  obtain ⟨document, member, found⟩ := List.any_eq_true.1 checked
  rw [Bool.and_eq_true] at found
  obtain ⟨_, _, _, _, _, collects, clean, accepted⟩ := runTexts?_eq_some texts
  obtain ⟨operation, sent, _, all⟩ :=
    run_standard_variables_iff collects clean accepted member found.1
  rw [sent, List.all_cons, List.all_nil, Bool.and_true, Bool.and_eq_true, beq_iff_eq,
    beq_iff_eq] at found
  refine ⟨schema, revised, document, operation, texts, member, sent, found.2.1, all.2 ?_⟩
  rw [found.2.2]
  exact List.forall_mem_nil _

def liveQueries : List SchemaDefinition :=
  [.directive "live", .type "Query" (.object [⟨"a", .named "Int", []⟩] [])]

/-- A variable in a directive of the operation itself is sent without being declared. -/
theorem undeclared_variable_sent :
    ∃ schema revised document operation,
      runTexts? liveQueries ["query Q @live(if: $x) \x7b a \x7d"] = some (schema, revised) ∧
      document ∈ revised ∧ document.kind.isOperation = true ∧
      ExecutableDocument.network document.working = [.operation operation] ∧
      ExecutableDocument.networkText document.working = "query Q @live(if: $x) \x7b\n  a\n\x7d\n" ∧
      "x" ∈ operation.variableNames ∧ ¬ operation.Declares "x" := by
  have ran : (runTexts? liveQueries ["query Q @live(if: $x) \x7b a \x7d"]).any (fun result =>
      result.2.any fun document => document.kind.isOperation &&
        (ExecutableDocument.networkText document.working ==
          "query Q @live(if: $x) \x7b\n  a\n\x7d\n" &&
        ((ExecutableDocument.network document.working).length == 1 &&
          (ExecutableDocument.network document.working).all fun definition =>
            Definition.casesOn (motive := fun _ => Bool) definition (fun _ => false)
              (fun operation => operation.variableNames.contains "x" &&
                operation.variableDefinitions.isEmpty)
              fun _ => false))) = true := by
    decide +kernel
  obtain ⟨⟨schema, revised⟩, texts, checked⟩ := (Option.any_eq_true _ _).1 ran
  obtain ⟨document, member, found⟩ := List.any_eq_true.1 checked
  simp only [Bool.and_eq_true, beq_iff_eq] at found
  obtain ⟨isOperation, text, single, uses⟩ := found
  obtain ⟨definition, only⟩ := List.length_eq_one_iff.1 single
  rw [only, List.all_cons, List.all_nil, Bool.and_true] at uses
  cases definition with
  | shorthand => cases uses
  | fragment => cases uses
  | operation operation =>
      obtain ⟨used, none⟩ := Bool.and_eq_true_iff.1 uses
      refine ⟨schema, revised, document, operation, texts, member, isOperation, only, text,
        List.contains_iff_mem.1 used, ?_⟩
      rintro ⟨definition, inside, _⟩
      rw [List.isEmpty_iff.1 none] at inside
      cases inside

end Pipeline

end GraphqlStore
