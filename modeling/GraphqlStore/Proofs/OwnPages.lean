import GraphqlStore.Proofs.AcceptedTyping
import GraphqlStore.Proofs.AppendOnly
import GraphqlStore.Proofs.RecordedPages

/-!
What a document paginates itself stays the same along an accepted run: fields
that are added are not paginated, and what a spread brings in stands in an
inline fragment that is marked as such. This needs that documents do not set
the mark themselves, which directives see to unless the schema declares one of
that name.
-/

set_option autoImplicit false

namespace GraphqlStore

/-! ## Marks -/

mutual
/-- The directives on the spreads and inline fragments of a selection. -/
def Selection.fragmentDirectives : Selection → List Directive
  | .field _ items => fragmentDirectives items
  | .spread head => head.directives
  | .inline head items => head.directives ++ fragmentDirectives items

def fragmentDirectives : List Selection → List Directive
  | [] => []
  | selection :: rest => selection.fragmentDirectives ++ fragmentDirectives rest
end

theorem fragmentDirectives_eq (items : List Selection) :
    fragmentDirectives items = items.flatMap Selection.fragmentDirectives := by
  induction items with
  | nil => rfl
  | cons selection rest ih => rw [fragmentDirectives, List.flatMap_cons, ih]

/-- No spread or inline fragment is marked as one that stands for a spread. -/
def Unmarked (items : List Selection) : Prop :=
  ∀ directive ∈ fragmentDirectives items, directive.name ≠ Directive.fragmentMark

theorem unmarked_iff {items : List Selection} :
    Unmarked items ↔ ∀ item ∈ items, ∀ directive ∈ item.fragmentDirectives,
      directive.name ≠ Directive.fragmentMark := by
  rw [Unmarked, fragmentDirectives_eq, List.forall_mem_flatMap]

/-! ## Completion -/

private theorem Selection.ownPlaces_plain (schema : Schema) (parent name : String)
    (position : Position)
    {items : List Selection} (none : ∀ type, GraphqlStore.ownPlaces schema type items = []) :
    (Selection.field (Field.plain name position) items).ownPlaces schema parent = [] := by
  rw [Selection.ownPlaces, PaginationCompletion.isPaginated_plain]
  split
  · rfl
  · simp [none]

section Appended

variable {branching : List String} {whole items others : List Selection}

theorem AppendedTo.ownPlaces_eq_nil {selection : Selection} (suits : AppendedTo branching whole selection)
    (schema : Schema) (parent : String) : selection.ownPlaces schema parent = [] := by
  obtain ⟨_, _, bare⟩ := suits
  refine Selection.ownPlaces_plain schema parent _ _ fun type => ?_
  rw [ownPlaces_eq, List.flatMap_eq_nil_iff]
  intro item member
  obtain ⟨name, position, rfl⟩ := bare item member
  exact Selection.ownPlaces_plain schema type name position fun _ => rfl

theorem AppendedTo.fragmentDirectives_eq_nil {selection : Selection}
    (suits : AppendedTo branching whole selection) : selection.fragmentDirectives = [] := by
  obtain ⟨_, _, bare⟩ := suits
  rw [Selection.fragmentDirectives, fragmentDirectives_eq, List.flatMap_eq_nil_iff]
  intro item member
  obtain ⟨name, position, rfl⟩ := bare item member
  rfl

theorem Extended.ownPlaces_eq (extended : Extended branching whole items others) (schema : Schema)
    (parent : String) : ownPlaces schema parent others = ownPlaces schema parent items := by
  induction extended generalizing parent with
  | appended suits =>
      rw [GraphqlStore.ownPlaces_eq, List.flatMap_eq_nil_iff.2 fun item member =>
        (suits item member).ownPlaces_eq_nil schema parent]
      rfl
  | field _ _ ihBelow ihRest =>
      simp only [GraphqlStore.ownPlaces, Selection.ownPlaces, ihBelow, ihRest]
  | spread _ ih => simp only [GraphqlStore.ownPlaces, ih]
  | inline _ _ ihWithin ihRest =>
      simp only [GraphqlStore.ownPlaces, Selection.ownPlaces, ihWithin, ihRest]

theorem Extended.fragmentDirectives_eq (extended : Extended branching whole items others) :
    fragmentDirectives others = fragmentDirectives items := by
  induction extended with
  | appended suits =>
      rw [GraphqlStore.fragmentDirectives_eq, List.flatMap_eq_nil_iff.2 fun item member =>
        (suits item member).fragmentDirectives_eq_nil]
      rfl
  | field _ _ ihBelow ihRest =>
      simp only [GraphqlStore.fragmentDirectives, Selection.fragmentDirectives, ihBelow, ihRest]
  | spread _ ih => simp only [GraphqlStore.fragmentDirectives, ih]
  | inline _ _ ihWithin ihRest =>
      simp only [GraphqlStore.fragmentDirectives, Selection.fragmentDirectives, ihWithin, ihRest]

theorem Extended.unmarked (extended : Extended branching whole items others)
    (unmarked : Unmarked items) : Unmarked others := by
  rwa [Unmarked, extended.fragmentDirectives_eq]

end Appended

/-! ## Inlining -/

namespace Inlining

variable {schema : Schema} {registry : FragmentRegistry} {masking : FragmentMasking}

private theorem foldl_readMark_inlined (name : String) (masked : Bool) :
    [("name", Value.string name), ("masked", .boolean masked)].foldl InlineFragment.readMark
      (none, false) = (some name, masked) := rfl

private theorem inlined?_inlinedHead {spread : Spread} (fragment : Fragment)
    (unmarked : ∀ directive ∈ spread.directives, directive.name ≠ Directive.fragmentMark) :
    (spread.inlinedHead masking fragment).inlined? = some (spread.name, spread.isMasked masking) := by
  have none : (spread.directives.filter fun directive =>
      directive.name != Directive.maskEnable && directive.name != Directive.maskDisable).find?
        (fun directive => directive.name == Directive.fragmentMark) = none := by
    rw [List.find?_eq_none]
    intro directive member
    simpa using unmarked directive (List.mem_filter.1 member).1
  have found : (spread.inlinedDirectives masking).find?
      (fun directive => directive.name == Directive.fragmentMark) =
        some (Directive.inlined spread.position spread.name (spread.isMasked masking)) := by
    rw [Spread.inlinedDirectives, List.find?_append, none]
    rfl
  unfold InlineFragment.inlined? Spread.inlinedHead
  simp only [found, Directive.inlined, foldl_readMark_inlined]

private theorem ownPlaces_expandSpread (stack : List String) {spread : Spread}
    (unmarked : ∀ directive ∈ spread.directives, directive.name ≠ Directive.fragmentMark)
    (parent : String) : (expandSpread registry masking stack spread).ownPlaces schema parent = [] := by
  unfold expandSpread
  split
  · rfl
  · rename_i fragment _
    split
    · rw [Selection.ownPlaces, inlined?_inlinedHead fragment unmarked]
      rfl
    · rfl

private theorem ownPlaces_mapSpreads_of_forall {replace : Spread → Selection} {parent : String}
    {items : List Selection}
    (each : ∀ item ∈ items,
      (item.mapSpreads replace).ownPlaces schema parent = item.ownPlaces schema parent) :
    ownPlaces schema parent (mapSpreads replace items) = ownPlaces schema parent items := by
  rw [ownPlaces_eq, ownPlaces_eq, mapSpreads_eq, List.flatMap_map]
  exact List.flatMap_congr each

private theorem ownPlaces_mapSpreads (stack : List String) (selection : Selection)
    (unmarked : ∀ directive ∈ selection.fragmentDirectives,
      directive.name ≠ Directive.fragmentMark) (parent : String) :
    (selection.mapSpreads (expandSpread registry masking stack)).ownPlaces schema parent =
      selection.ownPlaces schema parent := by
  induction selection generalizing parent with
  | field head items ih =>
      have inner := unmarked_iff.1 unmarked
      rw [Selection.mapSpreads, Selection.ownPlaces, Selection.ownPlaces]
      cases schema.field? parent head.name with
      | none => rfl
      | some found =>
          simp only
          rw [ownPlaces_mapSpreads_of_forall fun item member => ih item member (inner item member) _]
  | spread head => exact ownPlaces_expandSpread stack unmarked parent
  | inline head items ih =>
      rw [Selection.fragmentDirectives, List.forall_mem_append] at unmarked
      have inner := unmarked_iff.1 unmarked.2
      rw [Selection.mapSpreads, Selection.ownPlaces, Selection.ownPlaces,
        ownPlaces_mapSpreads_of_forall fun item member => ih item member (inner item member) _]

private theorem ownPlaces_expand (stack : List String) {items : List Selection}
    (unmarked : Unmarked items) (parent : String) :
    ownPlaces schema parent (expand registry masking stack items) = ownPlaces schema parent items :=
  ownPlaces_mapSpreads_of_forall fun item member =>
    ownPlaces_mapSpreads stack item (unmarked_iff.1 unmarked item member) parent

end Inlining

private theorem PaginationCompletion.completedItems_extends (config : Config) (document : Document)
    (items : List Selection) :
    Extended branching items items (completedItems config document items) := by
  unfold completedItems
  split
  · exact .refl items items
  · exact completeFields_extends _ (.refl items items)

theorem Pipeline.ownPlaces_revisedItems {config : Config} {documents : List Document}
    {document : Document} {definition : Definition} (unmarked : Unmarked definition.selections.items)
    (schema : Schema) (root parent : String) :
    ownPlaces schema parent (revisedItems config documents document definition root) =
      ownPlaces schema parent definition.selections.items := by
  have first := PaginationCompletion.completedItems_extends config document definition.selections.items
  have last : Extended [] _ _ (revisedItems config documents document definition root) :=
    IdentityCompletion.complete_extends root ⟨definition.selections.opening, _⟩
  rw [last.ownPlaces_eq, inlinedItems, Inlining.ownPlaces_expand _ (first.unmarked unmarked),
    first.ownPlaces_eq]

/-! ## Directives -/

namespace DirectiveCheck

variable {schema : Schema}

theorem known_of_listFaults {location : DirectiveLocation} {met : List String}
    {directives : List Directive} (sound : listFaults schema location met directives = []) :
    ∀ directive ∈ directives, (Directive.spec? directive.name).isSome ∨
      schema.directives.contains directive.name = true := by
  induction directives generalizing met with
  | nil => simp
  | cons directive rest ih =>
      simp only [listFaults, List.append_eq_nil_iff, List.map_eq_nil_iff] at sound
      refine List.forall_mem_cons.2 ⟨?_, ih sound.2⟩
      have known := sound.1.2
      unfold directiveIssues at known
      split at known
      · split at known
        · rename_i declared
          exact .inr declared
        · cases known
      · rename_i spec found
        exact .inl (by rw [found]; rfl)

theorem unmarked_of_faultsAt (undeclared : schema.directives.contains Directive.fragmentMark = false)
    {location : DirectiveLocation} {directives : List Directive}
    (sound : faultsAt schema location directives = []) :
    ∀ directive ∈ directives, directive.name ≠ Directive.fragmentMark := by
  intro directive member marked
  rcases known_of_listFaults (List.append_eq_nil_iff.1 sound).1 directive member with known | declared
  · rw [marked] at known
    revert known
    decide
  · rw [marked, undeclared] at declared
    cases declared

theorem faults_of_reports {used : NameMap String} {documents : List Document}
    (sound : reports schema used documents = []) :
    ∀ document ∈ documents, faults schema document = [] := by
  induction documents generalizing used with
  | nil => simp
  | cons document rest ih =>
      simp only [reports, List.append_eq_nil_iff, Document.reports, List.map_eq_nil_iff] at sound
      exact List.forall_mem_cons.2 ⟨sound.1.1, ih sound.2⟩

def fragmentDirectivesOf : Visit → List Directive
  | .field .. => []
  | .spread _ head => head.directives
  | .inline _ head => head.directives

private theorem fragmentDirectives_of_forall {parent : String} {path : List String}
    {items : List Selection} (each : ∀ item ∈ items, item.fragmentDirectives =
      (item.visits schema parent path).flatMap fragmentDirectivesOf) :
    fragmentDirectives items = (visits schema parent path items).flatMap fragmentDirectivesOf := by
  rw [fragmentDirectives_eq, visits_eq, List.flatMap_assoc]
  exact List.flatMap_congr each

private theorem fragmentDirectives_eq_visits {allowed : String → Prop}
    (text : schema.isComposite "String" = false) {parent : String} (path : List String)
    (known : (schema.type? parent).isSome) {selection : Selection}
    (typed : selection.Typed schema allowed parent) :
    selection.fragmentDirectives =
      (selection.visits schema parent path).flatMap fragmentDirectivesOf := by
  refine Typed.walkInduction text (fun _ _ below walked => ?field) (fun _ => ?spread)
    (fun within walked => ?inline) path known typed
  case field =>
    rw [walked, List.flatMap_cons, Selection.fragmentDirectives, fragmentDirectives_of_forall below]
    rfl
  case spread => exact (List.append_nil _).symm
  case inline =>
    rw [walked, List.flatMap_cons, Selection.fragmentDirectives, fragmentDirectives_of_forall within]
    rfl

theorem sound_of_faults {document : Document} {definition : Definition} {root : String}
    (defines : document.Defines definition) (rooted : document.rootType? schema = some root)
    (sound : faults schema document = []) :
    (∃ location directives, definitionDirectives? definition = some (location, directives) ∧
      faultsAt schema location directives = []) ∧
      ∀ visit ∈ visits schema root [] definition.selections.items, visitFaults schema visit = [] := by
  have named := defines.named
  unfold faults checkedVisits at sound
  rw [defines.definition?_eq, defines.visits?_eq rooted] at sound
  cases definition with
  | shorthand written => cases (Prod.mk.inj named).2
  | operation declared =>
      obtain ⟨own, visited⟩ := List.append_eq_nil_iff.1 sound
      exact ⟨⟨_, _, rfl, own⟩, List.flatMap_eq_nil_iff.1 visited⟩
  | fragment declared =>
      obtain ⟨own, visited⟩ := List.append_eq_nil_iff.1 sound
      exact ⟨⟨_, _, rfl, own⟩, List.flatMap_eq_nil_iff.1 visited⟩

theorem unmarked_of_faults {allowed : String → Prop} {document : Document} {definition : Definition}
    {root : String} (text : schema.isComposite "String" = false)
    (undeclared : schema.directives.contains Directive.fragmentMark = false)
    (typedOn : document.TypedOn schema allowed definition root)
    (sound : faults schema document = []) : Unmarked definition.selections.items := by
  obtain ⟨_, visited⟩ := sound_of_faults typedOn.defines typedOn.rooted sound
  have known := Schema.type?_isSome_of_isComposite typedOn.composite
  intro directive member
  rw [fragmentDirectives_of_forall fun item inside =>
    fragmentDirectives_eq_visits text [] known (typedOn.typed item inside)] at member
  obtain ⟨visit, inVisits, onVisit⟩ := List.mem_flatMap.1 member
  have silent := visited visit inVisits
  cases visit with
  | field => cases onVisit
  | spread parent head => exact unmarked_of_faultsAt undeclared silent directive onVisit
  | inline parent head => exact unmarked_of_faultsAt undeclared silent directive onVisit

end DirectiveCheck

/-! ## Paginated fields that a walk meets -/

namespace PaginationCompletion

variable {schema : Schema} {allowed : String → Prop}

/-- A paginated field with its declaration, if it has one. -/
def withDeclaration (entry : Field × FieldRef) : Field × Option FieldDef :=
  (entry.1, match some entry.2 with
    | some (.declared declared) => some declared
    | _ => none)

theorem inlined?_of_unmarked {head : InlineFragment}
    (unmarked : ∀ directive ∈ head.directives, directive.name ≠ Directive.fragmentMark) :
    head.inlined? = none := by
  have none : head.directives.find? (fun directive => directive.name == Directive.fragmentMark) =
      none := by
    rw [List.find?_eq_none]
    intro directive member
    simpa using unmarked directive member
  rw [InlineFragment.inlined?, none]

theorem paginated_of_forall {parent : String} {path : List String} {items : List Selection}
    (unmarked : Unmarked items)
    (each : ∀ item ∈ items,
      (∀ directive ∈ item.fragmentDirectives, directive.name ≠ Directive.fragmentMark) →
      (item.visits schema parent path).filterMap paginated? =
        (item.ownPages schema parent).map withDeclaration) :
    (visits schema parent path items).filterMap paginated? =
      (ownPages schema parent items).map withDeclaration := by
  rw [visits_eq, Generation.ownPages_eq, List.filterMap_flatMap, List.map_flatMap]
  exact List.flatMap_congr fun item member => each item member (unmarked_iff.1 unmarked item member)

theorem paginated_eq_ownPages (text : schema.isComposite "String" = false) {parent : String}
    (path : List String) (known : (schema.type? parent).isSome) {selection : Selection}
    (typed : selection.Typed schema allowed parent) :
    (∀ directive ∈ selection.fragmentDirectives, directive.name ≠ Directive.fragmentMark) →
      (selection.visits schema parent path).filterMap paginated? =
        (selection.ownPages schema parent).map withDeclaration := by
  refine Typed.walkInduction text (fun resolved selected below walked unmarked => ?field)
    (fun _ _ => ?spread) (fun within walked unmarked => ?inline) path known typed
  case field =>
    rename_i parent path head items found
    have inner := paginated_of_forall unmarked below
    have guarded : (if schema.isComposite found.typeName then ownPages schema found.typeName items
        else []) = ownPages schema found.typeName items := by
      by_cases composite : schema.isComposite found.typeName = true
      · rw [if_pos composite]
      · have empty : items = [] := Classical.not_not.1 fun some => composite (selected some)
        rw [if_neg composite, empty]
        rfl
    rw [walked, List.filterMap_cons, inner, Selection.ownPages]
    simp only [resolved, guarded]
    by_cases marked : head.isPaginated = true
    · cases found <;> simp [paginated?, marked, withDeclaration]
    · simp [paginated?, marked]
  case spread => rfl
  case inline =>
    rename_i parent path head items
    rw [Selection.fragmentDirectives, List.forall_mem_append] at unmarked
    rw [walked, List.filterMap_cons_none rfl, paginated_of_forall unmarked.2 within,
      Selection.ownPages, inlined?_of_unmarked unmarked.1]
    rfl

theorem checkField_of_checkFirst {config : Config} {document : Document} {head : Field}
    {field : FieldDef} (sound : (checkFirst config document head (some field)).1 = []) :
    (checkField config document head field).1 = [] := by
  unfold checkFirst at sound
  split at sound
  · cases sound
  · cases sound
  · rename_i absent _ _
    cases absent
  · rename_i same _ _
    cases same
    exact sound

theorem pageable_of_checkField {config : Config} {document : Document} {head : Field}
    {field : FieldDef} (sound : (checkField config document head field).1 = []) :
    Generation.Pageable config document (head, .declared field) := by
  have refetched (silent : refetchIssues config document = []) (type : String)
      (target : Generation.refetchType? document = some type) :
      (Pagination.refetch? config type).isSome := by
    unfold Generation.refetchType? at target
    unfold refetchIssues at silent
    split at target
    · rename_i declared defined
      cases target
      rw [defined] at silent
      simp only at silent
      split at silent
      · assumption
      · cases silent
    · cases target
  unfold checkField at sound
  split at sound
  · cases sound
  · rename_i mode size accepted
    refine ⟨field, (mode, size), rfl, accepted, refetched ?_⟩
    simp only at sound
    split at sound
    · split at sound
      · exact sound
      · cases sound
    · exact sound

end PaginationCompletion

end GraphqlStore
