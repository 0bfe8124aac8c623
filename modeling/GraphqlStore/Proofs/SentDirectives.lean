import GraphqlStore.Proofs.DeclaredVariables
import GraphqlStore.Proofs.OwnPages
import GraphqlStore.Proofs.TypenameSelections

/-!
The directives of the documents that are sent to a server. What is sent is the
working copy without the directives that only the compiler reads, and nothing
else is left out. The directives that remain have been checked in the document
in which they were written, before any pass has moved them: each is known, and
no list repeats one. Only the selections below `__typename` escape the check.
-/

set_option autoImplicit false

namespace GraphqlStore

/-! ## Directive lists -/

/-- A directive list at any depth of a selection, with the fields above it, outermost first. -/
inductive Selection.Carries : Selection → List String → List Directive → Prop where
  | field {head : Field} {items : List Selection} :
      Selection.Carries (.field head items) [] head.directives
  | inside {head : Field} {items : List Selection} {item : Selection} {above : List String}
      {directives : List Directive} :
      item ∈ items → Selection.Carries item above directives →
      Selection.Carries (.field head items) (head.name :: above) directives
  | spread {head : Spread} : Selection.Carries (.spread head) [] head.directives
  | inline {head : InlineFragment} {items : List Selection} :
      Selection.Carries (.inline head items) [] head.directives
  | within {head : InlineFragment} {items : List Selection} {item : Selection}
      {above : List String} {directives : List Directive} :
      item ∈ items → Selection.Carries item above directives →
      Selection.Carries (.inline head items) above directives

/-- A directive list at any place of a definition. -/
inductive Definition.Carries : Definition → List String → List Directive → Prop where
  | operation {operation : Operation} :
      Definition.Carries (.operation operation) [] operation.directives
  | fragment {fragment : Fragment} : Definition.Carries (.fragment fragment) [] fragment.directives
  | selection {definition : Definition} {item : Selection} {above : List String}
      {directives : List Directive} :
      item ∈ definition.selections.items → item.Carries above directives →
      Definition.Carries definition above directives

def ExecutableDocument.Carries (document : ExecutableDocument) (above : List String)
    (directives : List Directive) : Prop :=
  ∃ definition ∈ document, definition.Carries above directives

theorem Definition.Carries.own_or_selection {definition : Definition} {above : List String}
    {directives : List Directive} (carries : definition.Carries above directives) :
    (above = [] ∧ ∃ location,
        DirectiveCheck.definitionDirectives? definition = some (location, directives)) ∨
      ∃ item ∈ definition.selections.items, item.Carries above directives := by
  cases carries with
  | operation => exact .inl ⟨rfl, _, rfl⟩
  | fragment => exact .inl ⟨rfl, _, rfl⟩
  | selection member carries => exact .inr ⟨_, member, carries⟩

/-- All directive lists of a selection have a property, except those below `__typename`. -/
def Selection.Checked (sound : List Directive → Prop) (selection : Selection) : Prop :=
  ∀ above directives, selection.Carries above directives → Schema.typenameField ∉ above →
    sound directives

abbrev Checked (sound : List Directive → Prop) (items : List Selection) : Prop :=
  ∀ item ∈ items, item.Checked sound

variable {sound : List Directive → Prop}

private theorem checked_field {head : Field} {items : List Selection} :
    (Selection.field head items).Checked sound ↔
      sound head.directives ∧ (head.name ≠ Schema.typenameField → Checked sound items) := by
  constructor
  · intro checked
    refine ⟨checked [] _ .field List.not_mem_nil, fun other item member above directives carries => ?_⟩
    intro outside
    refine checked (head.name :: above) directives (.inside member carries) ?_
    rw [List.mem_cons, not_or]
    exact ⟨other.symm, outside⟩
  · rintro ⟨own, below⟩ above directives carries outside
    cases carries with
    | field => exact own
    | inside member carries =>
        rw [List.mem_cons, not_or] at outside
        exact below (Ne.symm outside.1) _ member _ _ carries outside.2

private theorem checked_spread {head : Spread} :
    (Selection.spread head).Checked sound ↔ sound head.directives := by
  refine ⟨fun checked => checked [] _ .spread List.not_mem_nil, fun own above directives carries _ => ?_⟩
  cases carries
  exact own

private theorem checked_inline {head : InlineFragment} {items : List Selection} :
    (Selection.inline head items).Checked sound ↔ sound head.directives ∧ Checked sound items := by
  constructor
  · intro checked
    refine ⟨checked [] _ .inline List.not_mem_nil, fun item member above directives carries => ?_⟩
    exact checked above directives (.within member carries)
  · rintro ⟨own, inside⟩ above directives carries outside
    cases carries with
    | inline => exact own
    | within member carries => exact inside _ member _ _ carries outside

/-! ## Along the passes -/

theorem Supplemented.checked {schema : Schema} {supplied : String → String → Prop} {parent : String}
    {items others : List Selection} (empty : sound [])
    (supplemented : Supplemented schema supplied parent items others)
    (checked : Checked sound items) : Checked sound others := by
  induction supplemented with
  | nil => exact checked
  | field _ _ ihBelow ihRest =>
      obtain ⟨first, rest⟩ := List.forall_mem_cons.1 checked
      obtain ⟨own, below⟩ := checked_field.1 first
      refine List.forall_mem_cons.2 ⟨checked_field.2 ⟨own, fun other => ?_⟩, ihRest rest⟩
      exact ihBelow (below other)
  | spread _ ih =>
      obtain ⟨first, rest⟩ := List.forall_mem_cons.1 checked
      exact List.forall_mem_cons.2 ⟨first, ih rest⟩
  | inline _ _ ihWithin ihRest =>
      obtain ⟨first, rest⟩ := List.forall_mem_cons.1 checked
      obtain ⟨own, within⟩ := checked_inline.1 first
      exact List.forall_mem_cons.2 ⟨checked_inline.2 ⟨own, ihWithin within⟩, ihRest rest⟩
  | plain _ _ _ ihBelow ihRest =>
      refine List.forall_mem_cons.2 ⟨checked_field.2 ⟨empty, fun _ => ?_⟩, ihRest checked⟩
      exact ihBelow (List.forall_mem_nil _)

namespace Inlining

variable {registry : FragmentRegistry} {masking : FragmentMasking}

private theorem checked_mapSpreads {replace : Spread → Selection} {selection : Selection}
    (replaced : ∀ spread : Spread, sound spread.directives → (replace spread).Checked sound)
    (checked : selection.Checked sound) : (selection.mapSpreads replace).Checked sound := by
  induction selection with
  | field head items ih =>
      obtain ⟨own, below⟩ := checked_field.1 checked
      refine checked_field.2 ⟨own, fun other => ?_⟩
      rw [mapSpreads_eq]
      exact List.forall_mem_map.2 fun item member => ih item member (below other item member)
  | spread head => exact replaced head (checked_spread.1 checked)
  | inline head items ih =>
      obtain ⟨own, within⟩ := checked_inline.1 checked
      refine checked_inline.2 ⟨own, ?_⟩
      rw [mapSpreads_eq]
      exact List.forall_mem_map.2 fun item member => ih item member (within item member)

private theorem checked_expandSpread
    (moved : ∀ spread : Spread, sound spread.directives → sound (spread.inlinedDirectives masking))
    (bodies : ∀ name fragment, registry.find? name = some fragment →
      Checked sound fragment.selections.items)
    (stack : List String) (spread : Spread) (own : sound spread.directives) :
    (expandSpread registry masking stack spread).Checked sound := by
  fun_induction expandSpread registry masking stack spread with
  | case1 stack spread none => exact checked_spread.2 own
  | case2 stack spread fragment found fresh smaller ih =>
      refine checked_inline.2 ⟨moved spread own, ?_⟩
      rw [mapSpreads_eq]
      exact List.forall_mem_map.2 fun item member =>
        checked_mapSpreads ih (bodies spread.name fragment found item member)
  | case3 stack spread fragment found again => exact checked_spread.2 own

private theorem checked_expand {stack : List String} {items : List Selection}
    (moved : ∀ spread : Spread, sound spread.directives → sound (spread.inlinedDirectives masking))
    (bodies : ∀ name fragment, registry.find? name = some fragment →
      Checked sound fragment.selections.items)
    (checked : Checked sound items) : Checked sound (expand registry masking stack items) := by
  rw [expand, mapSpreads_eq]
  exact List.forall_mem_map.2 fun item member =>
    checked_mapSpreads (checked_expandSpread moved bodies stack) (checked item member)

end Inlining

/-! ## Clean lists -/

namespace Directive

/-- A directive list that a server can read: the compiler's own directives are not in it, each
directive is `@include`, `@skip` or declared by the schema, and none is repeated. -/
structure Clean (schema : Schema) (directives : List Directive) : Prop where
  external : ∀ directive ∈ directives, directive.name ∉ internal
  known : ∀ directive ∈ directives,
    directive.name = "include" ∨ directive.name = "skip" ∨ directive.name ∈ schema.directives
  distinct : (directives.map Directive.name).Nodup

/-- What a server reads of a directive list is clean. -/
def Sendable (schema : Schema) (directives : List Directive) : Prop :=
  Clean schema (external directives)

theorem mem_external {directives : List Directive} {directive : Directive} :
    directive ∈ external directives ↔ directive ∈ directives ∧ directive.name ∉ internal := by
  simp [external, isInternal]

theorem clean_nil (schema : Schema) : Clean schema [] :=
  ⟨List.forall_mem_nil _, List.forall_mem_nil _, .nil⟩

private theorem conditional_or_internal {name : String} (known : (spec? name).isSome) :
    name = "include" ∨ name = "skip" ∨ name ∈ internal := by
  rw [spec?, List.find?_isSome] at known
  obtain ⟨spec, member, named⟩ := known
  have each : ∀ spec ∈ catalog, spec.name = "include" ∨ spec.name = "skip" ∨ spec.name ∈ internal := by
    decide
  exact beq_iff_eq.1 named ▸ each spec member

private theorem external_inlinedDirectives (spread : Spread) (masking : FragmentMasking) :
    external (spread.inlinedDirectives masking) = external spread.directives := by
  have mark : external [inlined spread.position spread.name (spread.isMasked masking)] = [] := by
    simp [external, isInternal, inlined, internal]
  unfold external at mark ⊢
  rw [Spread.inlinedDirectives, List.filter_append, mark, List.append_nil, List.filter_filter]
  refine List.filter_congr fun directive _ => ?_
  rw [Bool.and_eq_left_iff_imp]
  intro outside
  simp only [isInternal, internal, List.contains_cons, Bool.not_or, Bool.and_eq_true] at outside
  simp [maskEnable, maskDisable, bne, outside]

end Directive

namespace DirectiveCheck

variable {schema : Schema} {location : DirectiveLocation}

private theorem definitionDirectives?_withItems (definition : Definition) (items : List Selection) :
    definitionDirectives? (definition.withItems items) = definitionDirectives? definition := by
  cases definition <;> rfl

private theorem distinct_of_listFaults {met : List String} {directives : List Directive}
    (sound : listFaults schema location met directives = []) :
    (∀ directive ∈ directives, directive.name ∉ met) ∧ (directives.map Directive.name).Nodup := by
  induction directives generalizing met with
  | nil => exact ⟨List.forall_mem_nil _, .nil⟩
  | cons directive rest ih =>
      simp only [listFaults, List.append_eq_nil_iff, List.map_eq_nil_iff] at sound
      obtain ⟨⟨once, _⟩, later⟩ := sound
      obtain ⟨fresh, distinct⟩ := ih later
      have new : directive.name ∉ met := by
        intro known
        simp [known] at once
      refine ⟨List.forall_mem_cons.2 ⟨new, fun other member known => ?_⟩, ?_⟩
      · exact fresh other member (List.mem_cons_of_mem _ known)
      · rw [List.map_cons, List.nodup_cons]
        refine ⟨fun again => ?_, distinct⟩
        obtain ⟨other, member, same⟩ := List.mem_map.1 again
        exact fresh other member (same ▸ List.mem_cons_self)

theorem clean_of_faultsAt {directives : List Directive}
    (sound : faultsAt schema location directives = []) :
    Directive.Clean schema (Directive.external directives) := by
  have listed := (List.append_eq_nil_iff.1 sound).1
  refine ⟨fun directive member => (Directive.mem_external.1 member).2, fun directive member => ?_, ?_⟩
  · obtain ⟨inside, outside⟩ := Directive.mem_external.1 member
    rcases known_of_listFaults listed directive inside with catalogued | declared
    · exact (Directive.conditional_or_internal catalogued).imp_right fun other =>
        other.imp_right fun own => absurd own outside
    · exact .inr (.inr (of_decide_eq_true declared))
  · exact (distinct_of_listFaults listed).2.sublist (List.filter_sublist.map _)

end DirectiveCheck

/-! ## What a server reads -/

theorem Selection.Carries.of_external {selection : Selection} {above : List String}
    {directives : List Directive} (carries : selection.external.Carries above directives) :
    ∃ original, selection.Carries above original ∧ directives = Directive.external original := by
  induction selection generalizing above with
  | field head items ih =>
      rw [Selection.external, externalSelections_eq] at carries
      cases carries with
      | field => exact ⟨_, .field, rfl⟩
      | inside member carries =>
          obtain ⟨item, inItems, rfl⟩ := List.mem_map.1 member
          obtain ⟨original, carried, same⟩ := ih item inItems carries
          exact ⟨original, .inside inItems carried, same⟩
  | spread head =>
      cases carries
      exact ⟨_, .spread, rfl⟩
  | inline head items ih =>
      rw [Selection.external, externalSelections_eq] at carries
      cases carries with
      | inline => exact ⟨_, .inline, rfl⟩
      | within member carries =>
          obtain ⟨item, inItems, rfl⟩ := List.mem_map.1 member
          obtain ⟨original, carried, same⟩ := ih item inItems carries
          exact ⟨original, .within inItems carried, same⟩

theorem Definition.Carries.of_external {definition : Definition} {above : List String}
    {directives : List Directive} (carries : definition.external.Carries above directives) :
    ∃ original, definition.Carries above original ∧ directives = Directive.external original := by
  have same : definition.external.selections.items =
      definition.selections.items.map Selection.external := by
    rw [← externalSelections_eq]
    cases definition <;> rfl
  generalize sent : definition.external = other at carries
  cases carries with
  | operation => cases definition <;> cases sent; exact ⟨_, .operation, rfl⟩
  | fragment => cases definition <;> cases sent; exact ⟨_, .fragment, rfl⟩
  | selection member carries =>
      rw [← sent, same] at member
      obtain ⟨item, inItems, rfl⟩ := List.mem_map.1 member
      obtain ⟨original, carried, rfl⟩ := carries.of_external
      exact ⟨original, .selection inItems carried, rfl⟩

theorem Selection.Typed.typename_not_mem {schema : Schema} {allowed : String → Prop}
    (text : schema.isComposite "String" = false) {parent : String} {selection : Selection}
    (typed : selection.Typed schema allowed parent) {above : List String}
    {directives : List Directive} (carries : selection.Carries above directives) :
    Schema.typenameField ∉ above := by
  induction typed generalizing above with
  | field resolved _ selected _ ih =>
      cases carries with
      | field => exact List.not_mem_nil
      | inside member carries =>
          have composite := selected (List.ne_nil_of_mem member)
          obtain ⟨⟨declared, rfl⟩, _⟩ := declared_of_isComposite text composite
          rw [List.mem_cons, not_or]
          refine ⟨fun named => ?_, ih _ member carries⟩
          rcases Schema.field?_eq_some_iff.1 resolved with ⟨_, _, other⟩ | ⟨other, _⟩
          · cases other
          · exact other named.symm
  | spread =>
      cases carries
      exact List.not_mem_nil
  | inline _ _ ih =>
      cases carries with
      | inline => exact List.not_mem_nil
      | within member carries => exact ih _ member carries

/-! ## What is left out -/

/-- The second list is the first one without the directives that only the compiler reads. -/
inductive Directive.Pruned : List Directive → List Directive → Prop where
  | nil : Directive.Pruned [] []
  | kept {directive : Directive} {rest more : List Directive} :
      directive.name ∉ Directive.internal → Directive.Pruned rest more →
      Directive.Pruned (directive :: rest) (directive :: more)
  | dropped {directive : Directive} {rest more : List Directive} :
      directive.name ∈ Directive.internal → Directive.Pruned rest more →
      Directive.Pruned (directive :: rest) more

/-- The same selections in the same order, with their directives pruned at every depth. -/
inductive Selection.Pruned : List Selection → List Selection → Prop where
  | nil : Selection.Pruned [] []
  | field {head : Field} {directives : List Directive} {items others rest more : List Selection} :
      Directive.Pruned head.directives directives → Selection.Pruned items others →
      Selection.Pruned rest more →
      Selection.Pruned (.field head items :: rest)
        (.field { head with directives := directives } others :: more)
  | spread {head : Spread} {directives : List Directive} {rest more : List Selection} :
      Directive.Pruned head.directives directives → Selection.Pruned rest more →
      Selection.Pruned (.spread head :: rest) (.spread { head with directives := directives } :: more)
  | inline {head : InlineFragment} {directives : List Directive}
      {items others rest more : List Selection} :
      Directive.Pruned head.directives directives → Selection.Pruned items others →
      Selection.Pruned rest more →
      Selection.Pruned (.inline head items :: rest)
        (.inline { head with directives := directives } others :: more)

inductive Definition.Pruned : Definition → Definition → Prop where
  | shorthand {opening : Position} {items others : List Selection} :
      Selection.Pruned items others →
      Definition.Pruned (.shorthand ⟨opening, items⟩) (.shorthand ⟨opening, others⟩)
  | operation {declared : Operation} {directives : List Directive} {others : List Selection} :
      Directive.Pruned declared.directives directives →
      Selection.Pruned declared.selections.items others →
      Definition.Pruned (.operation declared)
        (.operation { declared with
          directives := directives
          selections := ⟨declared.selections.opening, others⟩ })
  | fragment {declared : Fragment} {directives : List Directive} {others : List Selection} :
      Directive.Pruned declared.directives directives →
      Selection.Pruned declared.selections.items others →
      Definition.Pruned (.fragment declared)
        (.fragment { declared with
          directives := directives
          selections := ⟨declared.selections.opening, others⟩ })

theorem Directive.pruned_external (directives : List Directive) :
    Directive.Pruned directives (Directive.external directives) := by
  induction directives with
  | nil => exact .nil
  | cons directive rest ih =>
      by_cases own : directive.name ∈ internal
      · have hidden : directive.isInternal = true := List.contains_iff_mem.2 own
        rw [external, List.filter_cons_of_neg (by simp [hidden])]
        exact .dropped own ih
      · have shown : directive.isInternal = false := by
          rw [isInternal, ← Bool.not_eq_true, List.contains_iff_mem]
          exact own
        rw [external, List.filter_cons_of_pos (by simp [shown])]
        exact .kept own ih

theorem Selection.pruned_of_forall {items : List Selection}
    (each : ∀ item ∈ items, ∀ rest more, Selection.Pruned rest more →
      Selection.Pruned (item :: rest) (item.external :: more)) :
    Selection.Pruned items (externalSelections items) := by
  induction items with
  | nil => exact .nil
  | cons item rest ih =>
      rw [List.forall_mem_cons] at each
      exact each.1 _ _ (ih each.2)

theorem Selection.pruned_cons (selection : Selection) (rest more : List Selection)
    (pruned : Selection.Pruned rest more) :
    Selection.Pruned (selection :: rest) (selection.external :: more) := by
  induction selection generalizing rest more with
  | field head items ih => exact .field (Directive.pruned_external _) (pruned_of_forall ih) pruned
  | spread head => exact .spread (Directive.pruned_external _) pruned
  | inline head items ih => exact .inline (Directive.pruned_external _) (pruned_of_forall ih) pruned

theorem Definition.pruned_external (definition : Definition) :
    Definition.Pruned definition definition.external := by
  have inner (items : List Selection) : Selection.Pruned items (externalSelections items) :=
    Selection.pruned_of_forall fun item _ => item.pruned_cons
  cases definition with
  | shorthand written => exact .shorthand (inner _)
  | operation declared => exact .operation (Directive.pruned_external _) (inner _)
  | fragment declared => exact .fragment (Directive.pruned_external _) (inner _)

/-! ## Accepted runs -/

namespace Pipeline

variable {config : Config} {documents : List Document} {definitions : List SchemaDefinition}

private theorem checked_of_accepts (built : Schema.ofDefinitions definitions = .ok config.schema)
    (accepts : Accepts config documents) {document : Document} (member : document ∈ documents)
    {definition : Definition} (defines : document.Defines definition) {root : String}
    (rooted : document.rootType? config.schema = some root) :
    Checked (Directive.Sendable config.schema) definition.selections.items := by
  have conforms := accepts.conforms document member
  obtain ⟨other, same, _, visited, _⟩ := Conformance.sound_of_faults defines.definition?_eq conforms
  cases same.symm.trans rooted
  have composite := Conformance.isComposite_rootType built defines conforms rooted
  obtain ⟨_, listed⟩ := DirectiveCheck.sound_of_faults defines rooted
    (DirectiveCheck.faults_of_reports accepts.directives document member)
  intro item inItems
  have met (visit : Visit) (inside : visit ∈ item.visits config.schema root []) :
      Conformance.visitFaults config.schema (FragmentRegistry.ofDocuments documents) visit = [] ∧
        DirectiveCheck.visitFaults config.schema visit = [] := by
    have inWalk := mem_visits.2 ⟨item, inItems, inside⟩
    exact ⟨visited visit inWalk, listed visit inWalk⟩
  refine Conformance.walkInduction _ ?_ ?_ ?_ [] (Schema.type?_isSome_of_isComposite composite) item
    met
  · intro parent head items found path resolved _ silent below
    have own := DirectiveCheck.clean_of_faultsAt (List.append_eq_nil_iff.1 silent).1
    refine checked_field.2 ⟨own, fun other => ?_⟩
    rcases Schema.field?_eq_some_iff.1 resolved with ⟨isName, _⟩ | ⟨_, _, declared, _, _, isDeclared⟩
    · exact absurd isName other
    · exact below declared isDeclared
  · exact fun _ silent => checked_spread.2 (DirectiveCheck.clean_of_faultsAt silent)
  · exact fun _ silent within => checked_inline.2 ⟨DirectiveCheck.clean_of_faultsAt silent, within⟩

private theorem checked_revisedItems (built : Schema.ofDefinitions definitions = .ok config.schema)
    (collected : Collected documents) (accepts : Accepts config documents) {document : Document}
    (member : document ∈ documents) {definition : Definition}
    (defines : document.Defines definition) {root : String}
    (rooted : document.rootType? config.schema = some root) :
    Checked (Directive.Sendable config.schema)
      (revisedItems config documents document definition root) := by
  have empty : Directive.Sendable config.schema [] := Directive.clean_nil config.schema
  refine revisedItems_of_written (motive := fun _ items => Checked _ items) collected ?_ ?_ ?_ ?_
    member defines rooted
  · exact fun source inDocuments written definesSource type rootedSource =>
      checked_of_accepts built accepts inDocuments definesSource rootedSource
  · exact fun source type items checked =>
      (PaginationCompletion.completedItems_supplements config source type items).checked empty checked
  · refine fun registry stack type items bodies checked =>
      Inlining.checked_expand (fun spread own => ?_) bodies checked
    rwa [Directive.Sendable, Directive.external_inlinedDirectives]
  · exact fun type selections checked =>
      (IdentityCompletion.complete_supplements type selections).checked empty checked

/-- A document that is left of a run of the built-in passes that reports nothing. -/
def Delivers (config : Config) (document : Document) : Prop :=
  ∃ sources collection documents revised cancelled,
    Collection.collect sources = .ok collection ∧ collection.toExcept = .ok documents ∧
    run config (Pass.standard []) documents false = .ok (revised, cancelled) ∧ document ∈ revised

theorem Delivers.clean (built : Schema.ofDefinitions definitions = .ok config.schema)
    {document : Document} (delivers : Delivers config document) {above : List String}
    {directives : List Directive}
    (carries : ExecutableDocument.Carries (ExecutableDocument.network document.working) above directives)
    (outside : Schema.typenameField ∉ above) : Directive.Clean config.schema directives := by
  obtain ⟨sources, collection, documents, revised, _, collects, settled, accepted, member⟩ := delivers
  obtain ⟨accepts, rfl, _⟩ := run_standard_eq_ok_iff.1 accepted
  have collected := collected_of_collect collects settled
  obtain ⟨source, inDocuments, written, root, defines, rooted, definesLast, _⟩ :=
    mem_completed collected accepts member
  obtain ⟨sent, inSent, carries⟩ := carries
  rw [definesLast.working] at inSent
  obtain rfl := List.mem_singleton.1 inSent
  obtain ⟨original, carried, rfl⟩ := carries.of_external
  rcases carried.own_or_selection with ⟨_, location, own⟩ | ⟨item, inItems, carried⟩
  · obtain ⟨⟨_, _, same, silent⟩, _⟩ := DirectiveCheck.sound_of_faults defines rooted
      (DirectiveCheck.faults_of_reports accepts.directives source inDocuments)
    rw [DirectiveCheck.definitionDirectives?_withItems] at own
    cases same.symm.trans own
    exact DirectiveCheck.clean_of_faultsAt silent
  · rw [Definition.selections_withItems] at inItems
    exact checked_revisedItems built collected accepts inDocuments defines rooted item inItems above
      original carried outside

theorem Delivers.typename_not_mem (built : Schema.ofDefinitions definitions = .ok config.schema)
    (text : config.schema.isComposite "String" = false) {document : Document}
    (delivers : Delivers config document) {above : List String} {directives : List Directive}
    (carries : ExecutableDocument.Carries (ExecutableDocument.network document.working) above
      directives) :
    Schema.typenameField ∉ above := by
  obtain ⟨sources, collection, documents, revised, _, collects, settled, accepted, member⟩ := delivers
  obtain ⟨root, selections, _, defined, _, typed⟩ :=
    run_standard_typed built text collects settled accepted document member
  obtain ⟨accepts, rfl, _⟩ := run_standard_eq_ok_iff.1 accepted
  obtain ⟨_, _, _, _, _, _, definesLast, _⟩ :=
    mem_completed (collected_of_collect collects settled) accepts member
  cases definesLast.selections?_eq.symm.trans defined
  obtain ⟨sent, inSent, carries⟩ := carries
  rw [definesLast.working] at inSent
  obtain rfl := List.mem_singleton.1 inSent
  obtain ⟨original, carried, _⟩ := carries.of_external
  rcases carried.own_or_selection with ⟨rfl, _⟩ | ⟨item, inItems, carried⟩
  · exact List.not_mem_nil
  · exact (typed item inItems).typename_not_mem text carried

private theorem exists_repeated_of_isComposite
    (built : Schema.ofDefinitions definitions = .ok config.schema)
    (text : config.schema.isComposite "String" = true) :
    ∃ document above directives, Delivers config document ∧
      ExecutableDocument.Carries (ExecutableDocument.network document.working) above directives ∧
      ¬ Directive.Clean config.schema directives := by
  obtain ⟨sources, collection, document, _, _, head, spread, collects, settled, below⟩ :=
    exists_belowTypename
  have root : config.schema.isComposite config.schema.query = true :=
    Schema.isComposite_root built (rfl : config.schema.root? .query = _)
  have accepted := run_standard_eq_ok_iff.2 ⟨below.accepts root text, rfl, rfl⟩
  have member : _ ∈ completed config [document] := List.mem_singleton.2 rfl
  have defines := below.defines_of_mem_completed root text member
  have same : Directive.external spread.directives = spread.directives := by
    refine List.filter_eq_self.2 fun directive inside => ?_
    have named := List.mem_map_of_mem (f := Directive.name) inside
    simp only [below.repeats, List.mem_cons, List.not_mem_nil, or_false, or_self] at named
    simp [Directive.isInternal, named, Directive.internal, Directive.fragmentMark]
  refine ⟨_, [head.name], spread.directives,
    ⟨sources, collection, _, _, _, collects, settled, accepted, member⟩, ?_, fun clean => ?_⟩
  · rw [defines.working, ← same]
    exact ⟨_, List.mem_singleton.2 rfl, .selection (List.mem_singleton.2 rfl)
      (.inside (List.mem_singleton.2 rfl) .spread)⟩
  · have distinct := clean.distinct
    rw [below.repeats] at distinct
    exact absurd distinct (by decide)

/-- A document as a server reads it is the document without the compiler's own directives. After an
accepted run the directives that are left are known and not repeated, anywhere but below
`__typename`. Below it this holds too exactly if the schema does not declare texts as a composite
type. -/
theorem network_pruned_clean_iff (definitions : List SchemaDefinition) (config : Config) :
    (∀ document : ExecutableDocument,
      List.Forall₂ Definition.Pruned document (ExecutableDocument.network document)) ∧
    (Schema.ofDefinitions definitions = .ok config.schema →
      (∀ document, Delivers config document → ∀ above directives,
        ExecutableDocument.Carries (ExecutableDocument.network document.working) above directives →
        Schema.typenameField ∉ above → Directive.Clean config.schema directives) ∧
      ((∀ document, Delivers config document → ∀ above directives,
          ExecutableDocument.Carries (ExecutableDocument.network document.working) above directives →
          Directive.Clean config.schema directives) ↔
        config.schema.isComposite "String" = false)) := by
  refine ⟨fun document => ?_, fun built => ⟨?_, ?_, ?_⟩⟩
  · rw [ExecutableDocument.network, List.forall₂_map_right_iff, List.forall₂_same]
    exact fun definition _ => definition.pruned_external
  · exact fun document delivers above directives => delivers.clean built
  · intro always
    cases text : config.schema.isComposite "String" with
    | false => rfl
    | true =>
        obtain ⟨document, above, directives, delivers, carries, unclean⟩ :=
          exists_repeated_of_isComposite built text
        exact absurd (always document delivers above directives carries) unclean
  · intro text document delivers above directives carries
    exact delivers.clean built carries (delivers.typename_not_mem built text carries)

def liveTexts : List String :=
  ["query Q \x7b ...F @skip(if: true) @mask_disable \x7d", "fragment F on Query \x7b a @live \x7d"]

/-- Of two directives on a spread the server's one goes along to the inline fragment. -/
theorem network_pruned_clean_iff_live :
    ∃ schema revised document, runTexts? liveQueries liveTexts = some (schema, revised) ∧
      document ∈ revised ∧
      ExecutableDocument.networkText document.working =
        "query Q \x7b\n  ... on Query @skip(if: true) \x7b\n    a @live\n  \x7d\n\x7d\n" ∧
      ∀ above directives,
        ExecutableDocument.Carries (ExecutableDocument.network document.working) above directives →
        Directive.Clean schema directives := by
  have ran : (runTexts? liveQueries liveTexts).any (fun result =>
      !result.1.isComposite "String" && result.2.any fun document =>
        ExecutableDocument.networkText document.working ==
          "query Q \x7b\n  ... on Query @skip(if: true) \x7b\n    a @live\n  \x7d\n\x7d\n") = true := by
    decide +kernel
  obtain ⟨⟨schema, revised⟩, found, checked⟩ := (Option.any_eq_true _ _).1 ran
  obtain ⟨sources, collection, documents, cancelled, built, collects, settled, accepted⟩ :=
    runTexts?_eq_some found
  simp only [Bool.and_eq_true, Bool.not_eq_true', List.any_eq_true, beq_iff_eq] at checked
  obtain ⟨text, document, member, sent⟩ := checked
  exact ⟨schema, revised, document, found, member, sent,
    ((network_pruned_clean_iff liveQueries (.ofSchema schema)).2 built).2.2 text document
      ⟨sources, collection, documents, revised, cancelled, collects, settled, accepted, member⟩⟩

/-- The directives of the only field below the only field of an operation. -/
def innerDirectives? : ExecutableDocument → Option (List Directive)
  | [.operation ⟨_, _, _, _, _, ⟨_, [.field _ [.field inner _]]⟩⟩] => some inner.directives
  | _ => none

private theorem carries_innerDirectives? {document : ExecutableDocument}
    {directives : List Directive} (found : innerDirectives? document = some directives) :
    ∃ above, ExecutableDocument.Carries document above directives := by
  unfold innerDirectives? at found
  split at found
  · cases found
    exact ⟨_, _, List.mem_singleton.2 rfl, .selection (List.mem_singleton.2 rfl)
      (.inside (List.mem_singleton.2 rfl) .field)⟩
  · cases found

/-- Below the name of a type a directive that the schema does not declare is sent. -/
theorem unknown_directive_sent :
    ∃ schema revised document above directives,
      runTexts? composedTexts ["query Q \x7b __typename \x7b x @foo \x7d \x7d"] =
        some (schema, revised) ∧
      document ∈ revised ∧
      ExecutableDocument.networkText document.working =
        "query Q \x7b\n  __typename \x7b\n    x @foo\n  \x7d\n\x7d\n" ∧
      ExecutableDocument.Carries (ExecutableDocument.network document.working) above directives ∧
      ¬ Directive.Clean schema directives := by
  have ran : (runTexts? composedTexts ["query Q \x7b __typename \x7b x @foo \x7d \x7d"]).any
      (fun result => !decide ("foo" ∈ result.1.directives) && result.2.any fun document =>
        ExecutableDocument.networkText document.working ==
          "query Q \x7b\n  __typename \x7b\n    x @foo\n  \x7d\n\x7d\n" &&
        (innerDirectives? (ExecutableDocument.network document.working)).any fun directives =>
          directives.map Directive.name == ["foo"]) = true := by
    decide +kernel
  obtain ⟨⟨schema, revised⟩, texts, checked⟩ := (Option.any_eq_true _ _).1 ran
  simp only [Bool.and_eq_true, Bool.not_eq_true', decide_eq_false_iff_not, List.any_eq_true,
    beq_iff_eq, Option.any_eq_true] at checked
  obtain ⟨undeclared, document, member, sent, directives, inner, named⟩ := checked
  obtain ⟨above, carries⟩ := carries_innerDirectives? inner
  refine ⟨schema, revised, document, above, directives, texts, member, sent, carries, fun clean => ?_⟩
  obtain ⟨directive, rfl, isFoo⟩ := List.map_eq_singleton_iff.1 named
  rcases clean.known directive (List.mem_singleton.2 rfl) with isInclude | isSkip | declared
  · exact absurd (isFoo.symm.trans isInclude) (by decide)
  · exact absurd (isFoo.symm.trans isSkip) (by decide)
  · exact undeclared (isFoo ▸ declared)

end Pipeline

end GraphqlStore
