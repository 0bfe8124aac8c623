import GraphqlStore.Proofs.Drafts
import GraphqlStore.Proofs.Selections

/-!
When an artifact can be generated. Three things are asked of the selections of
a document: they resolve and composite fields have selections; what the
document itself paginates is one field at most, which can be paged through;
and selections that end at one place of the shape select the same field.
-/

set_option autoImplicit false

namespace GraphqlStore

/-! ## What is asked of selections -/

/-- A selection without spreads resolves on a type, and its composite fields have selections. -/
inductive Selection.Compiles (schema : Schema) : String → Selection → Prop where
  | field {parent : String} {head : Field} {items : List Selection} {found : FieldRef} :
      schema.field? parent head.name = some found →
      (schema.isComposite found.typeName = true → items ≠ []) →
      (schema.isComposite found.typeName = true →
        ∀ item ∈ items, Selection.Compiles schema found.typeName item) →
      Selection.Compiles schema parent (.field head items)
  | inline {parent : String} {head : InlineFragment} {items : List Selection} :
      (∀ item ∈ items, Selection.Compiles schema (head.typeWithin parent) item) →
      Selection.Compiles schema parent (.inline head items)

/-- A selection on a type selects a field at a path: below fields by their response names, in
inline fragments on another type by that type. -/
inductive Selection.Selects (schema : Schema) : String → Selection → ShapePath → Field → Prop where
  | field {parent : String} {head : Field} {items : List Selection} {found : FieldRef} :
      schema.field? parent head.name = some found →
      Selection.Selects schema parent (.field head items) [.field head.responseName] head
  | nested {parent : String} {head target : Field} {items : List Selection} {found : FieldRef}
      {item : Selection} {path : ShapePath} :
      schema.field? parent head.name = some found →
      schema.isComposite found.typeName = true → item ∈ items →
      Selection.Selects schema found.typeName item path target →
      Selection.Selects schema parent (.field head items) (.field head.responseName :: path) target
  | within {parent : String} {head : InlineFragment} {target : Field} {items : List Selection}
      {item : Selection} {path : ShapePath} :
      head.typeWithin parent = parent → item ∈ items →
      Selection.Selects schema parent item path target →
      Selection.Selects schema parent (.inline head items) path target
  | condition {parent : String} {head : InlineFragment} {target : Field} {items : List Selection}
      {item : Selection} {path : ShapePath} :
      head.typeWithin parent ≠ parent → item ∈ items →
      Selection.Selects schema (head.typeWithin parent) item path target →
      Selection.Selects schema parent (.inline head items) (.type (head.typeWithin parent) :: path)
        target

mutual
/-- The paginated fields of a selection that are not brought in by a fragment. -/
def Selection.ownPages (schema : Schema) (parent : String) : Selection → List (Field × FieldRef)
  | .field head items =>
      match schema.field? parent head.name with
      | none => []
      | some found =>
          (if head.isPaginated then [(head, found)] else []) ++
            if schema.isComposite found.typeName then ownPages schema found.typeName items else []
  | .spread _ => []
  | .inline head items =>
      if head.inlined?.isSome then [] else ownPages schema (head.typeWithin parent) items

def ownPages (schema : Schema) (parent : String) : List Selection → List (Field × FieldRef)
  | [] => []
  | selection :: rest => selection.ownPages schema parent ++ ownPages schema parent rest
end

/-- Which fields selections on a type select at a path. -/
def contentOf (schema : Schema) (parent : String) (items : List Selection) : ShapeContent :=
  fun path name => ∃ item ∈ items, ∃ head, item.Selects schema parent path head ∧ head.name = name

namespace Generation

/-! ## Selections -/

def Scope.pages (schema : Schema) (scope : Scope) (selection : Selection) : List (Field × FieldRef) :=
  if scope.inlined then [] else selection.ownPages schema scope.parent

def selected (schema : Schema) (parent : String) (selection : Selection) : ShapeContent :=
  fun path name => ∃ head, selection.Selects schema parent path head ∧ head.name = name

variable {config : Config} {document : Document}

theorem ownPages_eq (schema : Schema) (parent : String) (items : List Selection) :
    ownPages schema parent items = items.flatMap (Selection.ownPages schema parent) := by
  induction items with
  | nil => rfl
  | cons selection rest ih => rw [ownPages, List.flatMap_cons, ih]

theorem flatMap_pages (schema : Schema) (scope : Scope) (items : List Selection) :
    items.flatMap (scope.pages schema) =
      if scope.inlined then [] else ownPages schema scope.parent items := by
  unfold Scope.pages
  split
  · simp
  · rw [ownPages_eq]

theorem selected_leaf {schema : Schema} {parent : String} {head : Field} {items : List Selection}
    {found : FieldRef} (resolved : schema.field? parent head.name = some found)
    (leaf : schema.isComposite found.typeName = false) (path : ShapePath) (name : String) :
    selected schema parent (.field head items) path name ↔
      path = [.field head.responseName] ∧ head.name = name := by
  constructor
  · rintro ⟨target, selects, rfl⟩
    cases selects with
    | field _ => exact ⟨rfl, rfl⟩
    | nested other composite _ _ =>
        cases resolved.symm.trans other
        rw [leaf] at composite
        cases composite
  · rintro ⟨rfl, rfl⟩
    exact ⟨head, .field resolved, rfl⟩

theorem selected_composite {schema : Schema} {parent : String} {head : Field}
    {items : List Selection} {found : FieldRef}
    (resolved : schema.field? parent head.name = some found)
    (composite : schema.isComposite found.typeName = true) (path : ShapePath) (name : String) :
    selected schema parent (.field head items) path name ↔
      (path = [.field head.responseName] ∧ head.name = name) ∨
        ∃ rest, path = .field head.responseName :: rest ∧
          contentOf schema found.typeName items rest name := by
  constructor
  · rintro ⟨target, selects, rfl⟩
    cases selects with
    | field _ => exact .inl ⟨rfl, rfl⟩
    | nested other _ member inside =>
        cases resolved.symm.trans other
        exact .inr ⟨_, rfl, _, member, target, inside, rfl⟩
  · rintro (⟨rfl, rfl⟩ | ⟨rest, rfl, item, member, target, inside, rfl⟩)
    · exact ⟨head, .field resolved, rfl⟩
    · exact ⟨target, .nested resolved composite member inside, rfl⟩

theorem selected_within {schema : Schema} {parent : String} {head : InlineFragment}
    {items : List Selection} (same : head.typeWithin parent = parent) (path : ShapePath)
    (name : String) :
    selected schema parent (.inline head items) path name ↔ contentOf schema parent items path name := by
  constructor
  · rintro ⟨target, selects, rfl⟩
    cases selects with
    | within _ member inside => exact ⟨_, member, target, inside, rfl⟩
    | condition other _ _ => exact absurd same other
  · rintro ⟨item, member, target, inside, rfl⟩
    exact ⟨target, .within same member inside, rfl⟩

theorem selected_condition {schema : Schema} {parent : String} {head : InlineFragment}
    {items : List Selection} (other : head.typeWithin parent ≠ parent) (path : ShapePath)
    (name : String) :
    selected schema parent (.inline head items) path name ↔
      ∃ rest, path = .type (head.typeWithin parent) :: rest ∧
        contentOf schema (head.typeWithin parent) items rest name := by
  constructor
  · rintro ⟨target, selects, rfl⟩
    cases selects with
    | within same _ _ => exact absurd same other
    | condition _ member inside => exact ⟨_, rfl, _, member, target, inside, rfl⟩
  · rintro ⟨rest, rfl, item, member, target, inside, rfl⟩
    exact ⟨target, .condition other member inside, rfl⟩

theorem compiles_field {schema : Schema} {parent : String} {head : Field} {items : List Selection}
    {found : FieldRef} (resolved : schema.field? parent head.name = some found) :
    (Selection.field head items).Compiles schema parent ↔
      (schema.isComposite found.typeName = true →
        items ≠ [] ∧ ∀ item ∈ items, item.Compiles schema found.typeName) := by
  constructor
  · intro compiles
    cases compiles with
    | field other selected below =>
        cases resolved.symm.trans other
        exact fun composite => ⟨selected composite, below composite⟩
  · exact fun below => .field resolved (fun composite => (below composite).1) fun composite =>
      (below composite).2

theorem compiles_inline {schema : Schema} {parent : String} {head : InlineFragment}
    {items : List Selection} :
    (Selection.inline head items).Compiles schema parent ↔
      ∀ item ∈ items, item.Compiles schema (head.typeWithin parent) := by
  constructor
  · intro compiles
    cases compiles with
    | inline below => exact below
  · exact .inline

private theorem pages_field {schema : Schema} {scope : Scope} {head : Field}
    {items : List Selection}
    {found : FieldRef} (resolved : schema.field? scope.parent head.name = some found) :
    scope.pages schema (.field head items) =
      (if head.isPaginated && !scope.inlined then [(head, found)] else []) ++
        if schema.isComposite found.typeName then
          items.flatMap ((scope.below found.typeName head).pages schema) else [] := by
  rw [flatMap_pages]
  unfold Scope.pages Scope.below
  cases inlined : scope.inlined with
  | true => simp
  | false => simp [Selection.ownPages, resolved]

private theorem pages_inline {schema : Schema} {scope : Scope} {head : InlineFragment}
    {items : List Selection} :
    scope.pages schema (.inline head items) = items.flatMap ((scope.within head).pages schema) := by
  rw [flatMap_pages]
  unfold Scope.pages Scope.within
  cases mark : head.inlined? with
  | none => simp [Selection.ownPages, mark]
  | some entry => simp [Selection.ownPages, mark]

theorem parent_within (scope : Scope) (head : InlineFragment) :
    (scope.within head).parent = head.typeWithin scope.parent := by
  unfold Scope.within
  split <;> rfl

theorem unambiguous_behind (step : ShapeStep) {whole below : ShapeContent}
    (included : ∀ path name, below path name → whole (step :: path) name) (clear : Unambiguous whole) :
    Unambiguous below :=
  fun path first second here there =>
    clear (step :: path) first second (included path first here) (included path second there)

/-- Selections to which adding extends every draft. -/
def AddsUp (config : Config) (document : Document) (selection : Selection) : Prop :=
  ∀ (scope : Scope) (draft : Draft), draft.shape.Distinct →
    Extends config document (selection.Compiles config.schema scope.parent)
      (scope.pages config.schema selection) (selected config.schema scope.parent selection) draft
      (addSelection config document scope selection draft)

theorem addSelections_extends_of_forall {items : List Selection}
    (each : ∀ item ∈ items, AddsUp config document item) (scope : Scope) {draft : Draft}
    (distinct : draft.shape.Distinct) :
    Extends config document (∀ item ∈ items, item.Compiles config.schema scope.parent)
      (items.flatMap (scope.pages config.schema)) (contentOf config.schema scope.parent items) draft
      (addSelections config document scope items draft) := by
  induction items generalizing draft with
  | nil => exact (Extends.refl distinct).congr (by simp) rfl fun path name => by simp [contentOf]
  | cons item rest ih =>
      rw [List.forall_mem_cons] at each
      have first := each.1 scope draft distinct
      refine (first.trans (ih each.2 first.distinct)).congr (by simp) rfl fun path name => ?_
      simp [contentOf, selected]

private theorem addField_composite_extends {head : Field} {items : List Selection} {scope : Scope}
    {found : FieldRef} (each : ∀ item ∈ items, AddsUp config document item)
    (resolved : config.schema.field? scope.parent head.name = some found)
    (composite : config.schema.isComposite found.typeName = true) {draft : Draft}
    (distinct : draft.shape.Distinct) :
    let inner := addSelections config document (scope.below found.typeName head) items
      (draft.withShape .empty)
    Extends config document (∀ item ∈ items, item.Compiles config.schema found.typeName)
      (items.flatMap ((scope.below found.typeName head).pages config.schema))
      (selected config.schema scope.parent (.field head items)) draft
      ((inner.withShape draft.shape).addField head.position
        (.composite head.responseName (fieldInfo config scope head found) inner.shape)) := by
  intro inner
  have inside : Extends config document _ _ _ (draft.withShape .empty) inner :=
    addSelections_extends_of_forall each (scope.below found.typeName head)
      SelectionShape.empty_distinct
  rw [addField_eq_merged]
  refine inside.nested head.position distinct (composite_distinct _ _ inside.distinct)
    (fun silent path name => ?_)
    (unambiguous_behind (.field head.responseName) fun path name below => ?_)
  · rw [content_composite, selected_composite resolved composite]
    simp only [inside.content_apart silent]
    rfl
  · exact (selected_composite resolved composite _ _).2 (.inr ⟨path, rfl, below⟩)

private theorem addField_leaf_extends {head : Field} {items : List Selection} {scope : Scope}
    {found : FieldRef} (resolved : config.schema.field? scope.parent head.name = some found)
    (leaf : config.schema.isComposite found.typeName = false) {draft : Draft}
    (distinct : draft.shape.Distinct) :
    Extends config document True [] (selected config.schema scope.parent (.field head items)) draft
      (draft.addField head.position (.leaf head.responseName (fieldInfo config scope head found))) := by
  have inside : Extends config document True [] (fun _ _ => False) (draft.withShape .empty)
      (draft.withShape .empty) := .refl SelectionShape.empty_distinct
  rw [addField_eq_merged]
  refine inside.nested head.position distinct (leaf_distinct _ _) (fun _ path name => ?_)
    fun _ _ _ _ here => here.elim
  rw [content_leaf, selected_leaf resolved leaf]
  rfl

def started (config : Config) (document : Document) (scope : Scope) (head : Field)
    (items : List Selection) (found : FieldRef) (draft : Draft) : Draft :=
  let paged := withPagination config document scope head found draft
  if items.isEmpty then paged.report head.position (.noSelection head.name) else paged

private theorem started_extends (scope : Scope) (head : Field) (items : List Selection)
    (found : FieldRef) {draft : Draft} (distinct : draft.shape.Distinct) :
    Extends config document (items ≠ [])
        (if head.isPaginated && !scope.inlined then [(head, found)] else []) (fun _ _ => False) draft
        (started config document scope head items found draft) ∧
      (started config document scope head items found draft).shape = draft.shape := by
  have first : Extends config document _ _ _ draft _ :=
    withPagination_extends distinct scope head found
  have shape : (withPagination config document scope head found draft).shape = draft.shape :=
    shape_withPagination scope head found
  unfold started
  cases items with
  | nil =>
      have second : Extends config document (([] : List Selection) ≠ []) [] (fun _ _ => False) _ _ :=
        .report first.distinct (fun ⟨nonempty, _⟩ => nonempty rfl) head.position (.noSelection head.name)
      exact ⟨(first.trans second).congr (by simp) (List.append_nil _) (by simp), shape⟩
  | cons item rest => exact ⟨first.congr (by simp) rfl (by simp), shape⟩

private theorem addSelection_field_extends {head : Field} {items : List Selection}
    (each : ∀ item ∈ items, AddsUp config document item) :
    AddsUp config document (.field head items) := by
  intro scope draft distinct
  rw [addSelection]
  cases resolved : config.schema.field? scope.parent head.name with
  | none =>
      refine .report distinct (fun ⟨compiles, _⟩ => ?_) head.position _
      cases compiles with
      | field other _ _ =>
          rw [resolved] at other
          cases other
  | some found =>
      rw [pages_field resolved, compiles_field resolved]
      have type : (fieldInfo config scope head found).type = found.typeName := rfl
      simp only [type]
      by_cases composite : config.schema.isComposite found.typeName = true
      · obtain ⟨first, shape⟩ : Extends config document _ _ _ draft _ ∧ _ :=
          started_extends scope head items found distinct
        have second := addField_composite_extends each resolved composite first.distinct
        rw [if_pos composite, ← shape, if_pos composite]
        exact (first.trans second).congr (by simp [composite]) rfl (by simp)
      · rw [if_neg composite, if_neg composite, List.append_nil]
        have leaf : config.schema.isComposite found.typeName = false := by simpa using composite
        have first : Extends config document _ _ _ draft _ :=
          withPagination_extends distinct scope head found
        have second : Extends config document True [] (selected _ _ (.field head items)) _ _ :=
          addField_leaf_extends resolved leaf first.distinct
        exact (first.trans second).congr (by simp [leaf]) (List.append_nil _) (by simp)

private theorem addCondition_extends {head : InlineFragment} {items : List Selection}
    {scope : Scope} (each : ∀ item ∈ items, AddsUp config document item)
    (other : head.typeWithin scope.parent ≠ scope.parent) {draft : Draft}
    (distinct : draft.shape.Distinct) :
    let inner := addSelections config document (scope.within head) items (draft.withShape .empty)
    Extends config document
      (∀ item ∈ items, item.Compiles config.schema (head.typeWithin scope.parent))
      (items.flatMap ((scope.within head).pages config.schema))
      (selected config.schema scope.parent (.inline head items)) draft
      ((inner.withShape draft.shape).addCondition head.position (scope.within head).parent
        inner.shape) := by
  intro inner
  have inside : Extends config document _ _ _ (draft.withShape .empty) inner :=
    addSelections_extends_of_forall each (scope.within head) SelectionShape.empty_distinct
  rw [parent_within] at inside ⊢
  rw [addCondition_eq_merged]
  refine inside.nested head.position distinct (condition_distinct _ inside.distinct)
    (fun silent path name => ?_)
    (unambiguous_behind (.type (head.typeWithin scope.parent)) fun path name below => ?_)
  · rw [content_condition, selected_condition other]
    simp only [inside.content_apart silent]
  · exact (selected_condition other _ _).2 ⟨path, rfl, below⟩

private theorem addSelection_inline_extends {head : InlineFragment} {items : List Selection}
    (each : ∀ item ∈ items, AddsUp config document item) :
    AddsUp config document (.inline head items) := by
  intro scope draft distinct
  rw [addSelection, pages_inline, compiles_inline]
  have first : Extends config document True [] (fun _ _ => False) draft (withMark head draft) :=
    withMark_extends distinct head
  simp only
  by_cases same : head.typeWithin scope.parent = scope.parent
  · rw [if_pos ((parent_within scope head).trans same)]
    have second := addSelections_extends_of_forall each (scope.within head) first.distinct
    rw [parent_within] at second
    refine (first.trans second).congr (by simp) rfl fun path name => ?_
    rw [selected_within same, same, false_or]
  · rw [if_neg fun within => same ((parent_within scope head).symm.trans within)]
    exact (first.trans (addCondition_extends each same first.distinct)).congr (by simp) rfl (by simp)

theorem addSelection_extends (selection : Selection) : AddsUp config document selection := by
  induction selection with
  | field head items ih => exact addSelection_field_extends ih
  | spread head =>
      intro scope draft distinct
      refine .report distinct (fun ⟨compiles, _⟩ => ?_) head.position _
      cases compiles
  | inline head items ih => exact addSelection_inline_extends ih

theorem addSelections_extends (items : List Selection) (scope : Scope) {draft : Draft}
    (distinct : draft.shape.Distinct) :
    Extends config document (∀ item ∈ items, item.Compiles config.schema scope.parent)
      (items.flatMap (scope.pages config.schema)) (contentOf config.schema scope.parent items) draft
      (addSelections config document scope items draft) :=
  addSelections_extends_of_forall (fun item _ => addSelection_extends item) scope distinct

/-- An artifact is generated exactly if the selections compile, what the document paginates itself
can be paged through, and no place of the shape is ambiguous. -/
theorem generate_isOk_iff {root : String} {selections : SelectionSet}
    (rooted : document.rootType? config.schema = some root)
    (defined : document.selections? = some selections) :
    (∃ artifact, generate config document = .ok artifact) ↔
      (∀ item ∈ selections.items, item.Compiles config.schema root) ∧
      ((ownPages config.schema root selections.items).length ≤ 1 ∧
        ∀ entry ∈ ownPages config.schema root selections.items, Pageable config document entry) ∧
      Unambiguous (contentOf config.schema root selections.items) := by
  have whole : Extends config document _ _ _ Draft.empty _ :=
    addSelections_extends selections.items ⟨root, false, false, []⟩ SelectionShape.empty_distinct
  have silent := whole.silent
  rw [flatMap_pages] at silent
  have apart : (fun path name => Draft.empty.shape.content path name ∨
      contentOf config.schema root selections.items path name) =
        contentOf config.schema root selections.items := by
    funext path name
    exact propext (or_iff_right (not_content_empty path name))
  have generated : (∃ artifact, generate config document = .ok artifact) ↔
      (addSelections config document ⟨root, false, false, []⟩ selections.items
        Draft.empty).issues = [] := by
    unfold generate
    rw [rooted, defined]
    simp only
    split
    · rename_i none
      simpa using none
    · rename_i some
      simpa using some
  rw [generated, silent, apart]
  simp [Draft.empty, Draft.pageCount, and_assoc]

end Generation

end GraphqlStore
