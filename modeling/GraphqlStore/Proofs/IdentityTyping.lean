import GraphqlStore.Proofs.Documents
import GraphqlStore.Proofs.Supplement

/-!
Identity keeps typed selections: a key that is added is declared by the type
that has it, and the name of the type can be selected on every composite type.
-/

set_option autoImplicit false

namespace GraphqlStore

namespace IdentityCompletion

variable {config : Config} {allowed : String → Prop} {β : Type}
  {view : SelectionView config.schema β}

/-! ## Reserved names -/

private theorem reserveKey_truthful (schema : Schema) (type key : String) (opening : Position)
    (items : List Selection) : (reserveKey schema type key opening items).Truthful items := by
  unfold reserveKey
  split
  · exact ensurePlain_truthful _ key opening items
  · exact fun _ => rfl

private theorem reserveAll_truthful (config : Config) (type : String) (opening : Position)
    (items : List Selection) : (reserveAll config type opening items).Truthful items := by
  unfold reserveAll
  split
  · refine truthful_foldl (fun key items => reserveKey_truthful _ type key opening items) ?_
    split
    · exact ensurePlain_truthful _ _ opening items
    · exact Completed.truthful_keep items
  · exact Completed.truthful_keep items

theorem isKeyField_iff {schema : Schema} {type key : String} :
    isKeyField schema type key = true ↔ ∃ field kind, schema.field? type key = some (.declared field) ∧
      schema.kind? field.type.base = some kind ∧ kind.isLeaf = true := by
  unfold isKeyField
  split
  · rename_i field resolved
    rw [Option.any_eq_true]
    refine ⟨fun ⟨kind, leaf⟩ => ⟨field, kind, resolved, leaf⟩, ?_⟩
    rintro ⟨other, kind, otherResolved, leaf⟩
    cases resolved.symm.trans otherResolved
    exact ⟨kind, leaf⟩
  · rename_i other
    simp only [Bool.false_eq_true, false_iff]
    rintro ⟨field, _, resolved, _⟩
    exact other field resolved

private theorem reserveKey_keeps {type key : String} (opening : Position) {items : List Selection}
    (typed : Typed config.schema allowed type items) :
    Keeps allowed view type items (reserveKey config.schema type key opening items).items := by
  unfold reserveKey
  split
  · rename_i isKey
    obtain ⟨field, _, resolved, _⟩ := isKeyField_iff.1 isKey
    exact ensurePlain_keeps _ resolved opening typed
  · exact .refl typed

theorem field?_typename {schema : Schema} {type : String} (composite : schema.isComposite type = true) :
    schema.field? type Schema.typenameField = some .typename := by
  rw [Schema.field?, if_pos rfl, if_pos composite]

private theorem reserveAll_keeps (type : String) (opening : Position) {items : List Selection}
    (typed : Typed config.schema allowed type items) :
    Keeps allowed view type items (reserveAll config type opening items).items := by
  unfold reserveAll
  split
  · rename_i needed
    have composite : config.schema.isComposite type = true := by
      rw [needsIdentity, Bool.and_eq_true] at needed
      exact needed.1
    refine keeps_foldl (fun key _ items typed => reserveKey_keeps opening typed) ?_
    split
    · exact ensurePlain_keeps _ (field?_typename composite) opening typed
    · exact .refl typed
  · exact .refl typed

/-! ## Selections -/

/-- What is below a declared field with selections is completed, any other field is left alone. -/
theorem completeSelection_field_cases (config : Config) (parent : String) (head : Field)
    (items : List Selection) :
    (∃ field, config.schema.field? parent head.name = some (.declared field) ∧ items ≠ [] ∧
      completeSelection config parent (.field head items) =
        (.field head (complete config field.type.base ⟨head.opening, items⟩).items,
          (complete config field.type.base ⟨head.opening, items⟩).faults,
          (complete config field.type.base ⟨head.opening, items⟩).changed)) ∨
    ((∀ field, config.schema.field? parent head.name = some (.declared field) → items = []) ∧
      completeSelection config parent (.field head items) = (.field head items, [], false)) := by
  unfold completeSelection
  split
  · rename_i field resolved
    cases items with
    | nil => exact .inr ⟨fun _ _ => rfl, rfl⟩
    | cons first rest => exact .inl ⟨field, resolved, List.cons_ne_nil _ _, rfl⟩
  · rename_i other
    exact .inr ⟨fun field resolved => absurd resolved (other field), rfl⟩

theorem completeSelection_inline (config : Config) (parent : String) (head : InlineFragment)
    (items : List Selection) :
    completeSelection config parent (.inline head items) =
      let done :=
        if head.typeWithin parent = parent then completeItems config parent items
        else complete config (head.typeWithin parent) ⟨head.opening, items⟩
      (.inline head done.items, done.faults, done.changed) := by
  unfold completeSelection
  by_cases same : head.typeWithin parent = parent
  · simp only [same, if_true]
  · simp only [same, if_false]
    rfl

theorem completeItems_truthful_of_forall {parent : String} {items : List Selection}
    (each : ∀ item ∈ items, (completeSelection config parent item).2.2 = false →
      (completeSelection config parent item).1 = item) :
    (completeItems config parent items).Truthful items := by
  intro unchanged
  induction items with
  | nil => rfl
  | cons selection rest ih =>
      rw [List.forall_mem_cons] at each
      simp only [completeItems, Completed.cons, Bool.or_eq_false_iff] at unchanged ⊢
      rw [each.1 unchanged.1, ih each.2 unchanged.2]

theorem complete_truthful_of_forall {root : String} {opening : Position} {items : List Selection}
    (each : ∀ item ∈ items, (completeSelection config root item).2.2 = false →
      (completeSelection config root item).1 = item) :
    (complete config root ⟨opening, items⟩).Truthful items :=
  (completeItems_truthful_of_forall each).andThen (reserveAll_truthful config root opening)

private theorem completeSelection_truthful (parent : String) (selection : Selection)
    (unchanged : (completeSelection config parent selection).2.2 = false) :
    (completeSelection config parent selection).1 = selection := by
  induction selection generalizing parent with
  | field head items ih =>
      rcases completeSelection_field_cases config parent head items with
        ⟨field, _, _, same⟩ | ⟨_, same⟩
      · rw [same] at unchanged ⊢
        rw [complete_truthful_of_forall (fun item member => ih item member _) unchanged]
      · rw [same]
  | spread head => rfl
  | inline head items ih =>
      rw [completeSelection_inline] at unchanged ⊢
      simp only at unchanged ⊢
      split at unchanged
      · rename_i same
        rw [if_pos same, completeItems_truthful_of_forall (fun item member => ih item member _) unchanged]
      · rename_i other
        rw [if_neg other, complete_truthful_of_forall (fun item member => ih item member _) unchanged]

theorem complete_truthful (root : String) (selections : SelectionSet) :
    (complete config root selections).Truthful selections.items :=
  complete_truthful_of_forall fun item _ => completeSelection_truthful root item

theorem completeItems_keeps_of_forall {parent : String} {items : List Selection}
    (each : ∀ item ∈ items, (completeSelection config parent item).1.Typed config.schema allowed parent ∧
      view.read parent (completeSelection config parent item).1 = view.read parent item) :
    Keeps allowed view parent items (completeItems config parent items).items := by
  induction items with
  | nil => exact .refl typed_nil
  | cons selection rest ih =>
      rw [List.forall_mem_cons] at each
      exact .cons each.1.1 each.1.2 (ih each.2)

theorem complete_keeps_of_forall {root : String} {opening : Position} {items : List Selection}
    (each : ∀ item ∈ items, (completeSelection config root item).1.Typed config.schema allowed root ∧
      view.read root (completeSelection config root item).1 = view.read root item) :
    Keeps allowed view root items (complete config root ⟨opening, items⟩).items :=
  have below := completeItems_keeps_of_forall each
  below.trans (reserveAll_keeps root opening below.typed)

private theorem completeSelection_keeps {parent : String} {selection : Selection}
    (typed : selection.Typed config.schema allowed parent) :
    (completeSelection config parent selection).1.Typed config.schema allowed parent ∧
      view.read parent (completeSelection config parent selection).1 = view.read parent selection := by
  induction typed with
  | @field parent head items found resolved arguments selected inside ih =>
      rcases completeSelection_field_cases config parent head items with
        ⟨field, declared, some, same⟩ | ⟨_, same⟩
      · cases resolved.symm.trans declared
        have kept : Keeps allowed view field.type.base items
            (complete config field.type.base ⟨head.opening, items⟩).items :=
          complete_keeps_of_forall ih
        rw [same]
        exact ⟨.field resolved arguments (fun _ => selected some) kept.typed,
          view.field resolved kept.same⟩
      · rw [same]
        exact ⟨.field resolved arguments selected inside, rfl⟩
  | spread allows => exact ⟨.spread allows, rfl⟩
  | @inline parent head items composite inside ih =>
      rw [completeSelection_inline]
      have kept : Keeps allowed view (head.typeWithin parent) items
          (if head.typeWithin parent = parent then completeItems config parent items
            else complete config (head.typeWithin parent) ⟨head.opening, items⟩).items := by
        split
        · rename_i same
          rw [same] at ih ⊢
          exact completeItems_keeps_of_forall ih
        · exact complete_keeps_of_forall ih
      exact ⟨.inline composite kept.typed, view.inline kept.same⟩

theorem complete_keeps {root : String} (selections : SelectionSet)
    (typed : Typed config.schema allowed root selections.items) :
    Keeps allowed view root selections.items (complete config root selections).items :=
  complete_keeps_of_forall fun item member => completeSelection_keeps (typed item member)

/-! ## What is added -/

/-- The fields that identity may add to selections on a type. -/
def Supplied (config : Config) (type name : String) : Prop :=
  name = Schema.typenameField ∨ name ∈ config.identityKeys type

private theorem reserveAll_supplements (type : String) (opening : Position)
    (items : List Selection) :
    Supplemented config.schema (Supplied config) type items
      (reserveAll config type opening items).items := by
  unfold reserveAll
  split
  · refine supplemented_foldl (fun key member items => ?_) ?_
    · unfold reserveKey
      split
      · exact ensurePlain_supplements _ (.inr member) opening items
      · exact .refl type items
    · split
      · exact ensurePlain_supplements _ (.inl rfl) opening items
      · exact .refl type items
  · exact .refl type items

theorem completeItems_supplements_of_forall {parent : String} {items : List Selection}
    (each : ∀ item ∈ items, Supplemented config.schema (Supplied config) parent [item]
      [(completeSelection config parent item).1]) :
    Supplemented config.schema (Supplied config) parent items
      (completeItems config parent items).items := by
  induction items with
  | nil => exact .nil
  | cons selection rest ih =>
      rw [List.forall_mem_cons] at each
      exact each.1.append (ih each.2)

theorem complete_supplements_of_forall {root : String} {opening : Position} {items : List Selection}
    (each : ∀ item ∈ items, Supplemented config.schema (Supplied config) root [item]
      [(completeSelection config root item).1]) :
    Supplemented config.schema (Supplied config) root items
      (complete config root ⟨opening, items⟩).items :=
  (completeItems_supplements_of_forall each).trans (reserveAll_supplements root opening _)

private theorem completeSelection_supplements (parent : String) (selection : Selection) :
    Supplemented config.schema (Supplied config) parent [selection]
      [(completeSelection config parent selection).1] := by
  induction selection generalizing parent with
  | field head items ih =>
      rcases completeSelection_field_cases config parent head items with
        ⟨field, resolved, _, same⟩ | ⟨_, same⟩
      · have type : config.schema.typeBelow parent head.name = field.type.base := by
          rw [Schema.typeBelow, resolved]
        rw [same]
        refine .field ?_ .nil
        rw [type]
        exact complete_supplements_of_forall fun item member => ih item member _
      · rw [same]
        exact .single parent _
  | spread head => exact .spread .nil
  | inline head items ih =>
      rw [completeSelection_inline]
      refine .inline ?_ .nil
      split
      · rename_i same
        rw [same]
        exact completeItems_supplements_of_forall fun item member => ih item member _
      · exact complete_supplements_of_forall fun item member => ih item member _

theorem complete_supplements (root : String) (selections : SelectionSet) :
    Supplemented config.schema (Supplied config) root selections.items
      (complete config root selections).items :=
  complete_supplements_of_forall fun item _ => completeSelection_supplements root item

/-! ## Documents -/

theorem step_defines {document : Document} {definition : Definition}
    (defines : document.Defines definition) {root : String}
    (rooted : document.rootType? config.schema = some root) :
    (step config document).1.Defines
        (definition.withItems (complete config root definition.selections).items) ∧
      ((step config document).2 = [] ↔ (complete config root definition.selections).faults = []) := by
  have done := defines.complete (complete config root) (complete_truthful root definition.selections)
  unfold step
  rw [rooted]
  refine ⟨done.1, ?_⟩
  simp only [Document.reports, List.map_eq_nil_iff]
  rw [done.2]

end IdentityCompletion

end GraphqlStore
