import GraphqlStore.Pass.Conformance
import GraphqlStore.Proofs.Selections

/-!
Typing of selections. A selection is typed on a type if the fields in it
resolve, one below the other, take the arguments they are passed and have
selections only where their value is composite, and if its type conditions are
composite types. Which spreads may stand in it is a parameter: with none, a
typed selection has no spreads at any depth.

Documents that conform to the schema are typed, as long as the name of a type
is a text, that is `String` is no composite type: the walk that checks a
document does not go below `__typename`.
-/

set_option autoImplicit false

namespace GraphqlStore

/-- A selection resolves on a type, all the way down. -/
inductive Selection.Typed (schema : Schema) (allowed : String → Prop) : String → Selection → Prop where
  | field {parent : String} {head : Field} {items : List Selection} {found : FieldRef} :
      schema.field? parent head.name = some found →
      (∀ argument ∈ head.arguments, (found.argument? argument.1).isSome) →
      (items ≠ [] → schema.isComposite found.typeName = true) →
      (∀ item ∈ items, Selection.Typed schema allowed found.typeName item) →
      Selection.Typed schema allowed parent (.field head items)
  | spread {parent : String} {head : Spread} :
      allowed head.name → Selection.Typed schema allowed parent (.spread head)
  | inline {parent : String} {head : InlineFragment} {items : List Selection} :
      (∀ condition, head.condition = some condition → schema.isComposite condition = true) →
      (∀ item ∈ items, Selection.Typed schema allowed (head.typeWithin parent) item) →
      Selection.Typed schema allowed parent (.inline head items)

abbrev Typed (schema : Schema) (allowed : String → Prop) (parent : String)
    (items : List Selection) : Prop :=
  ∀ item ∈ items, item.Typed schema allowed parent

abbrev noSpreads : String → Prop := fun _ => False

private theorem Selection.Typed.mem_spreads {schema : Schema} {allowed : String → Prop}
    {parent : String}
    {selection : Selection} (typed : selection.Typed schema allowed parent) {name : String}
    (member : name ∈ selection.spreads) : allowed name := by
  induction typed with
  | field _ _ _ _ ih =>
      obtain ⟨item, inside, later⟩ := mem_spreadNames.1 member
      exact ih item inside later
  | spread allows =>
      rw [List.mem_singleton.1 member]
      exact allows
  | inline _ _ ih =>
      obtain ⟨item, inside, later⟩ := mem_spreadNames.1 member
      exact ih item inside later

theorem Selection.Typed.mono {schema : Schema} {allowed other : String → Prop} {parent : String}
    {selection : Selection} (typed : selection.Typed schema allowed parent)
    (included : ∀ name, allowed name → other name) : selection.Typed schema other parent := by
  induction typed with
  | field resolved arguments selected _ ih => exact .field resolved arguments selected ih
  | spread allows => exact .spread (included _ allows)
  | inline composite _ ih => exact .inline composite ih

theorem Typed.spreadNames_eq_nil {schema : Schema} {parent : String} {items : List Selection}
    (typed : Typed schema noSpreads parent items) : spreadNames items = [] := by
  refine List.eq_nil_iff_forall_not_mem.2 fun name member => ?_
  obtain ⟨item, inside, later⟩ := mem_spreadNames.1 member
  exact (typed item inside).mem_spreads later

/-! ## Composite types -/

namespace Schema

theorem isComposite_iff {schema : Schema} {name : String} :
    schema.isComposite name = true ↔ ∃ kind, schema.kind? name = some kind ∧ kind.isComposite = true := by
  simp [isComposite, Option.any_eq_true]

theorem type?_isSome_of_isComposite {schema : Schema} {name : String}
    (composite : schema.isComposite name = true) : (schema.type? name).isSome := by
  obtain ⟨kind, found, _⟩ := isComposite_iff.1 composite
  obtain ⟨type, present, _⟩ := Option.map_eq_some_iff.1 found
  rw [present]
  rfl

theorem isComposite_of_field? {schema : Schema} {name field : String} {type : TypeDef}
    (found : schema.type? name = some type) (declares : (type.field? field).isSome) :
    schema.isComposite name = true := by
  refine isComposite_iff.2 ⟨type.kind, by rw [kind?, found]; rfl, ?_⟩
  cases body : type.body with
  | object => simp [TypeDef.kind, body, TypeBody.kind, TypeKind.isComposite]
  | interface => simp [TypeDef.kind, body, TypeBody.kind, TypeKind.isComposite]
  | scalar => simp [TypeDef.field?, body, TypeBody.fields, Ordered.find?] at declares
  | union => simp [TypeDef.field?, body, TypeBody.fields, Ordered.find?] at declares
  | enum => simp [TypeDef.field?, body, TypeBody.fields, Ordered.find?] at declares
  | input => simp [TypeDef.field?, body, TypeBody.fields, Ordered.find?] at declares

theorem type?_typeWithin_isSome {schema : Schema} {parent : String} {head : InlineFragment}
    (known : (schema.type? parent).isSome)
    (composite : ∀ condition, head.condition = some condition → schema.isComposite condition = true) :
    (schema.type? (head.typeWithin parent)).isSome := by
  cases given : head.condition with
  | none => simpa [InlineFragment.typeWithin, given] using known
  | some condition =>
      simpa [InlineFragment.typeWithin, given] using
        type?_isSome_of_isComposite (composite condition given)

theorem typeName_typename : FieldRef.typename.typeName = "String" := rfl

theorem field?_eq_some_iff {schema : Schema} {parent name : String} {found : FieldRef} :
    schema.field? parent name = some found ↔
      (name = typenameField ∧ schema.isComposite parent = true ∧ found = .typename) ∨
        (name ≠ typenameField ∧ ∃ type field, schema.type? parent = some type ∧
          type.field? name = some field ∧ found = .declared field) := by
  by_cases isName : name = typenameField
  · by_cases composite : schema.isComposite parent = true
    · simp [field?, isName, composite, eq_comm]
    · simp [field?, isName, composite]
  · simp only [field?, isName, if_false, Option.bind_eq_some_iff, Option.map_eq_some_iff, false_and,
      false_or, ne_eq, not_false_eq_true, true_and]
    grind

end Schema

/-! ## The walk through typed selections -/

/-- Below a field with selections the walk goes on: its type is known, and the field is declared
if texts are not composite. -/
theorem declared_of_isComposite {schema : Schema} (text : schema.isComposite "String" = false)
    {found : FieldRef} (composite : schema.isComposite found.typeName = true) :
    (∃ field, found = .declared field) ∧ (schema.type? found.typeName).isSome := by
  refine ⟨?_, Schema.type?_isSome_of_isComposite composite⟩
  cases found with
  | declared field => exact ⟨field, rfl⟩
  | typename =>
      rw [Schema.typeName_typename, text] at composite
      cases composite

@[elab_as_elim]
theorem Typed.walkInduction {schema : Schema} {allowed : String → Prop}
    {motive : String → List String → Selection → Prop}
    (text : schema.isComposite "String" = false)
    (field : ∀ {parent path head items found}, schema.field? parent head.name = some found →
      (items ≠ [] → schema.isComposite found.typeName = true) →
      (∀ item ∈ items, motive found.typeName (path ++ [head.responseName]) item) →
      Selection.visits schema parent path (.field head items) =
        .field parent head items (some found) (path ++ [head.responseName]) ::
          visits schema found.typeName (path ++ [head.responseName]) items →
      motive parent path (.field head items))
    (spread : ∀ {parent path head}, allowed head.name → motive parent path (.spread head))
    (inline : ∀ {parent path head items}, (∀ item ∈ items, motive (head.typeWithin parent) path item) →
      Selection.visits schema parent path (.inline head items) =
        .inline parent head :: visits schema (head.typeWithin parent) path items →
      motive parent path (.inline head items))
    {parent : String} (path : List String) (known : (schema.type? parent).isSome)
    {selection : Selection} (typed : selection.Typed schema allowed parent) :
    motive parent path selection := by
  induction typed generalizing path with
  | @field parent head items found resolved _ selected _ ih =>
      refine field resolved selected (fun item member => ?_) ?_
      · exact ih item member _
          (declared_of_isComposite text (selected (List.ne_nil_of_mem member))).2
      · by_cases empty : items = []
        · subst empty
          simp only [Selection.visits, resolved]
          cases found <;> rfl
        · obtain ⟨⟨declared, rfl⟩, _⟩ := declared_of_isComposite text (selected empty)
          simp only [Selection.visits, resolved]
          rfl
  | spread allows => exact spread allows
  | @inline parent head items composite _ ih =>
      have knownWithin := Schema.type?_typeWithin_isSome known composite
      refine inline (fun item member => ih item member path knownWithin) ?_
      rw [Selection.visits, if_pos knownWithin]

/-! ## Conformance -/

namespace Conformance

def registered (registry : FragmentRegistry) (name : String) : Prop := (registry.find? name).isSome

theorem fieldIssues_eq_nil {schema : Schema} {parent : String} {head : Field}
    {items : List Selection} {found : FieldRef}
    (sound : fieldIssues schema parent head items found = []) :
    (∀ argument ∈ head.arguments, (found.argument? argument.1).isSome) ∧
      (items ≠ [] ↔ schema.isComposite found.typeName = true) := by
  simp only [fieldIssues, List.append_eq_nil_iff, List.map_eq_nil_iff, List.filter_eq_nil_iff] at sound
  obtain ⟨⟨known, _⟩, selected⟩ := sound
  refine ⟨fun argument member => ?_, ?_⟩
  · simpa [Option.isSome_iff_ne_none] using known argument member
  · by_cases composite : schema.isComposite found.typeName = true <;>
      by_cases none : items = [] <;> simp_all

private theorem isComposite_of_conditionIssues {schema : Schema} {parent condition : String}
    (sound : conditionIssues schema parent condition = []) :
    schema.isComposite condition = true := by
  unfold conditionIssues at sound
  split at sound
  · simp at sound
  · rename_i kind found
    by_cases composite : kind.isComposite = true
    · exact Schema.isComposite_iff.2 ⟨kind, found, composite⟩
    · simp [composite] at sound

private theorem registered_of_spreadIssues {schema : Schema} {registry : FragmentRegistry}
    {parent : String} {head : Spread} (sound : spreadIssues schema registry parent head = []) :
    registered registry head.name := by
  unfold spreadIssues at sound
  split at sound
  · simp at sound
  · rename_i fragment found
    simp [registered, found]

/-- Induction along a walk that finds nothing wrong and meets visits with a property. It goes below
declared fields only. -/
@[elab_as_elim]
theorem walkInduction {schema : Schema} {registry : FragmentRegistry} (visited : Visit → Prop)
    {motive : String → Selection → Prop}
    (field : ∀ {parent head items found path}, schema.field? parent head.name = some found →
      fieldIssues schema parent head items found = [] →
      visited (.field parent head items (some found) path) →
      (∀ declared, found = .declared declared → ∀ item ∈ items, motive declared.type.base item) →
      motive parent (.field head items))
    (spread : ∀ {parent head}, spreadIssues schema registry parent head = [] →
      visited (.spread parent head) → motive parent (.spread head))
    (inline : ∀ {parent head items},
      (∀ condition, head.condition = some condition → schema.isComposite condition = true) →
      visited (.inline parent head) →
      (∀ item ∈ items, motive (head.typeWithin parent) item) → motive parent (.inline head items))
    {parent : String} (path : List String) (known : (schema.type? parent).isSome)
    (selection : Selection)
    (sound : ∀ visit ∈ selection.visits schema parent path,
      visitFaults schema registry visit = [] ∧ visited visit) : motive parent selection := by
  induction selection generalizing parent path with
  | field head items ih =>
      simp only [Selection.visits, List.forall_mem_cons] at sound
      obtain ⟨⟨here, met⟩, below⟩ := sound
      cases resolved : schema.field? parent head.name with
      | none => simp [visitFaults, resolved] at here
      | some found =>
          simp only [visitFaults, resolved, List.map_eq_nil_iff] at here
          rw [resolved] at met below
          refine field resolved here met ?_
          rintro declared rfl item member
          have composite := (fieldIssues_eq_nil here).2.1 (List.ne_nil_of_mem member)
          have knownBelow := Schema.type?_isSome_of_isComposite composite
          refine ih item member (path ++ [head.responseName]) knownBelow fun visit later => ?_
          exact below visit (mem_visits.2 ⟨item, member, later⟩)
  | spread head =>
      obtain ⟨here, met⟩ := sound (.spread parent head) List.mem_cons_self
      exact spread (by simpa [visitFaults] using here) met
  | inline head items ih =>
      simp only [Selection.visits, List.forall_mem_cons] at sound
      obtain ⟨⟨here, met⟩, below⟩ := sound
      have composite : ∀ condition, head.condition = some condition →
          schema.isComposite condition = true := by
        intro condition given
        simp only [visitFaults, given, List.map_eq_nil_iff] at here
        exact isComposite_of_conditionIssues here
      have knownWithin := Schema.type?_typeWithin_isSome known composite
      rw [if_pos knownWithin] at below
      refine inline composite met fun item member =>
        ih item member path knownWithin fun visit later => ?_
      exact below visit (mem_visits.2 ⟨item, member, later⟩)

theorem typed_of_visitFaults {schema : Schema} {registry : FragmentRegistry}
    (text : schema.isComposite "String" = false) {parent : String} (path : List String)
    (known : (schema.type? parent).isSome) (selection : Selection)
    (sound : ∀ visit ∈ selection.visits schema parent path, visitFaults schema registry visit = []) :
    selection.Typed schema (registered registry) parent := by
  refine walkInduction (fun _ => True) ?_ ?_ ?_ path known selection
    fun visit member => ⟨sound visit member, trivial⟩
  · intro parent head items found path resolved silent _ below
    obtain ⟨declared, selected⟩ := fieldIssues_eq_nil silent
    refine .field resolved declared selected.1 fun item member => ?_
    have composite := selected.1 (List.ne_nil_of_mem member)
    obtain ⟨⟨field, rfl⟩, _⟩ := declared_of_isComposite text composite
    exact below field rfl item member
  · exact fun silent _ => .spread (registered_of_spreadIssues silent)
  · exact fun composite _ within => .inline composite within

end Conformance

end GraphqlStore
