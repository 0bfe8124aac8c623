import GraphqlStore.Proofs.Generation
import Mathlib.Data.List.Basic

/-!
The pagination record of an artifact comes from the paginated fields that the
selections of its document have of their own, that is outside of inline
fragments that stand for spreads. Each of them is attributed to its place, the
response names that lead to it, and what the draft has recorded at the end was
there at the start or was recorded for one of these places.
-/

set_option autoImplicit false

namespace GraphqlStore

mutual
/-- The paginated fields of a selection that are not brought in by a fragment, with the response
names that lead to them. -/
def Selection.ownPlaces (schema : Schema) (parent : String) :
    Selection → List (List String × Field × FieldRef)
  | .field head items =>
      match schema.field? parent head.name with
      | none => []
      | some found =>
          (if head.isPaginated then [([head.responseName], head, found)] else []) ++
            if schema.isComposite found.typeName then
              (ownPlaces schema found.typeName items).map (Prod.map (head.responseName :: ·) id)
            else []
  | .spread _ => []
  | .inline head items =>
      if head.inlined?.isSome then [] else ownPlaces schema (head.typeWithin parent) items

def ownPlaces (schema : Schema) (parent : String) :
    List Selection → List (List String × Field × FieldRef)
  | [] => []
  | selection :: rest => selection.ownPlaces schema parent ++ ownPlaces schema parent rest
end

theorem ownPlaces_eq (schema : Schema) (parent : String) (items : List Selection) :
    ownPlaces schema parent items = items.flatMap (Selection.ownPlaces schema parent) := by
  induction items with
  | nil => rfl
  | cons selection rest ih => rw [ownPlaces, List.flatMap_cons, ih]

theorem ownPages_eq_map_of_forall {schema : Schema} {parent : String} {items : List Selection}
    (each : ∀ item ∈ items,
      item.ownPages schema parent = (item.ownPlaces schema parent).map Prod.snd) :
    ownPages schema parent items = (ownPlaces schema parent items).map Prod.snd := by
  rw [Generation.ownPages_eq, ownPlaces_eq, List.map_flatMap]
  exact List.flatMap_congr each

theorem Selection.ownPages_eq_map (schema : Schema) (parent : String) (selection : Selection) :
    selection.ownPages schema parent = (selection.ownPlaces schema parent).map Prod.snd := by
  induction selection generalizing parent with
  | field head items ih =>
      have below (type : String) := ownPages_eq_map_of_forall fun item member => ih item member type
      rw [Selection.ownPages, Selection.ownPlaces]
      cases schema.field? parent head.name with
      | none => rfl
      | some found =>
          have forget : Prod.snd ∘ Prod.map (head.responseName :: ·) (id : Field × FieldRef → _) =
              Prod.snd := rfl
          simp only [below, List.map_append, apply_ite (List.map Prod.snd), List.map_cons, List.map_nil,
            List.map_map, forget]
  | spread head => rfl
  | inline head items ih =>
      rw [Selection.ownPages, Selection.ownPlaces, apply_ite (List.map Prod.snd),
        ownPages_eq_map_of_forall fun item member => ih item member _]
      rfl

theorem ownPages_eq_map (schema : Schema) (parent : String) (items : List Selection) :
    ownPages schema parent items = (ownPlaces schema parent items).map Prod.snd :=
  ownPages_eq_map_of_forall fun item _ => item.ownPages_eq_map schema parent

namespace Generation

variable {config : Config} {document : Document}

def Scope.places (schema : Schema) (scope : Scope) (selection : Selection) :
    List (List String × Field × FieldRef) :=
  if scope.inlined then [] else
    (selection.ownPlaces schema scope.parent).map (Prod.map (scope.path ++ ·) id)

/-- What is recorded afterwards was recorded before, or comes from one of some places. -/
def Attributes (config : Config) (document : Document) (places : List (List String × Field × FieldRef))
    (before after : Option PaginationInfo) : Prop :=
  ∀ info, after = some info ↔ before = some info ∨
    ∃ place ∈ places, paginationInfo config document place.2.1 place.2.2 place.1 = .ok info

theorem Attributes.refl (recorded : Option PaginationInfo) :
    Attributes config document [] recorded recorded := by
  intro info
  simp

theorem Attributes.trans {places others : List (List String × Field × FieldRef)}
    {before middle after : Option PaginationInfo}
    (first : Attributes config document places before middle)
    (second : Attributes config document others middle after) :
    Attributes config document (places ++ others) before after := by
  intro info
  rw [second info, first info, or_assoc]
  simp only [List.mem_append, or_and_right, exists_or]

private theorem withPagination_attributes {scope : Scope} {head : Field} {found : FieldRef}
    {draft : Draft} (silent : (withPagination config document scope head found draft).issues = []) :
    Attributes config document
      (if head.isPaginated && !scope.inlined then [(scope.path ++ [head.responseName], head, found)] else [])
      draft.pagination (withPagination config document scope head found draft).pagination := by
  unfold withPagination at silent ⊢
  split
  · rename_i recorded
    rw [if_pos recorded] at silent
    unfold recordPagination at silent ⊢
    split
    · rename_i taken
      rw [if_pos taken] at silent
      simp [Draft.report] at silent
    · rename_i free
      rw [if_neg free] at silent
      intro info
      cases known : paginationInfo config document head found (scope.path ++ [head.responseName]) with
      | error issue => simp [known, Draft.report] at silent
      | ok value =>
          have none : draft.pagination = none := by simpa using free
          simp [known, none]
  · exact .refl _

/-! ## Selections -/

theorem flatMap_places (schema : Schema) (scope : Scope) (items : List Selection) :
    items.flatMap (scope.places schema) =
      if scope.inlined then [] else
        (ownPlaces schema scope.parent items).map (Prod.map (scope.path ++ ·) id) := by
  unfold Scope.places
  split
  · simp
  · rw [ownPlaces_eq, List.map_flatMap]

private theorem places_field {schema : Schema} {scope : Scope} {head : Field}
    {items : List Selection}
    {found : FieldRef} (resolved : schema.field? scope.parent head.name = some found) :
    scope.places schema (.field head items) =
      (if head.isPaginated && !scope.inlined then [(scope.path ++ [head.responseName], head, found)]
        else []) ++
        if schema.isComposite found.typeName then
          items.flatMap ((scope.below found.typeName head).places schema) else [] := by
  rw [flatMap_places]
  unfold Scope.places Scope.below
  cases inlined : scope.inlined with
  | true => simp
  | false =>
      have prepend : Prod.map (scope.path ++ ·) id ∘
            Prod.map (head.responseName :: ·) (id : Field × FieldRef → _) =
          Prod.map (scope.path ++ [head.responseName] ++ ·) id := by
        funext ⟨path, entry⟩
        simp
      simp only [Selection.ownPlaces, resolved, Bool.not_false, Bool.and_true, Bool.false_eq_true, if_false,
        List.map_append, apply_ite (List.map _), List.map_cons, List.map_nil, List.map_map, prepend,
        Prod.map_apply, id_eq]

private theorem places_inline {schema : Schema} {scope : Scope} {head : InlineFragment}
    {items : List Selection} :
    scope.places schema (.inline head items) = items.flatMap ((scope.within head).places schema) := by
  rw [flatMap_places]
  unfold Scope.places Scope.within
  cases mark : head.inlined? with
  | none => simp [Selection.ownPlaces, mark]
  | some entry => simp [Selection.ownPlaces, mark]

/-- Selections whose addition to a draft, if it reports nothing, records their own places. -/
def RecordsOwn (config : Config) (document : Document) (selection : Selection) : Prop :=
  ∀ (scope : Scope) (draft : Draft), draft.shape.Distinct →
    (addSelection config document scope selection draft).issues = [] →
    Attributes config document (scope.places config.schema selection) draft.pagination
      (addSelection config document scope selection draft).pagination

theorem addSelections_attributes_of_forall {items : List Selection}
    (each : ∀ item ∈ items, RecordsOwn config document item) (scope : Scope) {draft : Draft}
    (distinct : draft.shape.Distinct)
    (silent : (addSelections config document scope items draft).issues = []) :
    Attributes config document (items.flatMap (scope.places config.schema)) draft.pagination
      (addSelections config document scope items draft).pagination := by
  induction items generalizing draft with
  | nil => exact .refl _
  | cons item rest ih =>
      rw [List.forall_mem_cons] at each
      rw [addSelections] at silent ⊢
      have first : Extends config document _ _ _ draft _ := addSelection_extends item scope draft distinct
      have silentFirst := ((addSelections_extends rest scope first.distinct).silent.1 silent).1
      exact (each.1 scope draft distinct silentFirst).trans (ih each.2 first.distinct silent)

theorem issues_addField {draft : Draft} {position : Position} {field : FieldShape}
    (silent : (draft.addField position field).issues = []) : draft.issues = [] := by
  simp only [Draft.addField, Draft.reportAll, Draft.withShape, List.append_eq_nil_iff] at silent
  exact silent.1

private theorem addSelection_field_attributes {head : Field} {items : List Selection}
    (each : ∀ item ∈ items, RecordsOwn config document item) :
    RecordsOwn config document (.field head items) := by
  intro scope draft distinct silent
  rw [addSelection] at silent ⊢
  cases resolved : config.schema.field? scope.parent head.name with
  | none => simp [resolved, Draft.report] at silent
  | some found =>
      have type : (fieldInfo config scope head found).type = found.typeName := rfl
      simp only [resolved, type] at silent ⊢
      rw [places_field resolved]
      by_cases composite : config.schema.isComposite found.typeName = true
      · rw [if_pos composite] at silent ⊢
        rw [if_pos composite]
        have silentBelow := issues_addField silent
        have second := addSelections_attributes_of_forall each (scope.below found.typeName head)
          SelectionShape.empty_distinct silentBelow
        have silentStarted := ((addSelections_extends items (scope.below found.typeName head)
          SelectionShape.empty_distinct).silent.1 silentBelow).1
        cases items with
        | nil => simp [Draft.report, Draft.withShape] at silentStarted
        | cons item rest => exact (withPagination_attributes silentStarted).trans second
      · rw [if_neg composite] at silent ⊢
        rw [if_neg composite]
        exact (withPagination_attributes (issues_addField silent)).trans (.refl _)

private theorem addSelection_inline_attributes {head : InlineFragment} {items : List Selection}
    (each : ∀ item ∈ items, RecordsOwn config document item) :
    RecordsOwn config document (.inline head items) := by
  intro scope draft distinct silent
  have marked : (withMark head draft).pagination = draft.pagination := by
    unfold withMark
    split <;> rfl
  have distinctMarked : (withMark head draft).shape.Distinct :=
    (withMark_extends distinct head : Extends config document _ _ _ _ _).distinct
  rw [addSelection] at silent ⊢
  rw [places_inline, ← marked]
  simp only at silent ⊢
  by_cases same : (scope.within head).parent = scope.parent
  · rw [if_pos same] at silent ⊢
    exact addSelections_attributes_of_forall each (scope.within head) distinctMarked silent
  · rw [if_neg same] at silent ⊢
    have silentWithin := silent
    simp only [Draft.addCondition, Draft.reportAll, Draft.withShape, List.append_eq_nil_iff] at silentWithin
    exact addSelections_attributes_of_forall each (scope.within head) SelectionShape.empty_distinct
      silentWithin.1

private theorem addSelection_attributes (selection : Selection) :
    RecordsOwn config document selection := by
  induction selection with
  | field head items ih => exact addSelection_field_attributes ih
  | spread head =>
      intro scope draft _ silent
      simp [addSelection, Draft.report] at silent
  | inline head items ih => exact addSelection_inline_attributes ih

private theorem Attributes.of_length_le {places : List (List String × Field × FieldRef)}
    {recorded : Option PaginationInfo} (attributes : Attributes config document places none recorded)
    (single : places.length ≤ 1) (pageable : ∀ place ∈ places, Pageable config document place.2) :
    (places = [] ∧ recorded = none) ∨ ∃ path head found info, places = [(path, head, found)] ∧
      paginationInfo config document head found path = .ok info ∧ recorded = some info := by
  cases places with
  | nil =>
      refine .inl ⟨rfl, Option.eq_none_iff_forall_ne_some.2 fun info known => ?_⟩
      simpa using (attributes info).1 known
  | cons place rest =>
      obtain ⟨path, head, found⟩ := place
      obtain rfl : rest = [] := List.eq_nil_of_length_eq_zero (by simpa using single)
      obtain ⟨info, known⟩ := paginationInfo_ok_iff.2 (pageable _ List.mem_cons_self)
      have recorded := (attributes info).2 (.inr ⟨_, List.mem_cons_self, known⟩)
      exact .inr ⟨path, head, found, info, rfl, known, recorded⟩

/-- The record of an artifact is the usual one if its document has no paginated field of its own;
otherwise there is one such field, and the record tells what is known about it. -/
theorem generate_pagination {root : String} {selections : SelectionSet}
    (rooted : document.rootType? config.schema = some root)
    (defined : document.selections? = some selections) {artifact : Artifact}
    (generated : generate config document = .ok artifact) :
    (ownPlaces config.schema root selections.items = [] ∧ artifact.pagination = .none) ∨
      ∃ path head found, ownPlaces config.schema root selections.items = [(path, head, found)] ∧
        paginationInfo config document head found path = .ok artifact.pagination := by
  obtain ⟨_, ⟨single, pageable⟩, _⟩ := (generate_isOk_iff rooted defined).1 ⟨artifact, generated⟩
  rw [ownPages_eq_map, List.length_map] at single
  rw [ownPages_eq_map, List.forall_mem_map] at pageable
  unfold generate at generated
  rw [rooted, defined] at generated
  simp only at generated
  split at generated
  · rename_i silent
    cases generated
    have attributes := addSelections_attributes_of_forall
      (fun item _ => @addSelection_attributes config document item)
      ⟨root, false, false, []⟩ SelectionShape.empty_distinct (List.isEmpty_iff.1 silent)
    have places : selections.items.flatMap (Scope.places config.schema ⟨root, false, false, []⟩) =
        ownPlaces config.schema root selections.items := by
      rw [flatMap_places]
      exact List.map_id _
    rw [places] at attributes
    rcases attributes.of_length_le single pageable with ⟨none, same⟩ | ⟨path, head, found, info, only,
      known, same⟩
    · exact .inl ⟨none, by rw [same]; rfl⟩
    · exact .inr ⟨path, head, found, only, by rw [same]; exact known⟩
  · cases generated

end Generation

end GraphqlStore
