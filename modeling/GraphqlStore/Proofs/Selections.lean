import GraphqlStore.Document.Visit
import GraphqlStore.Fragment.Inlining

/-!
Induction on selections, and the functions that go through a list of
selections one by one, as functions of each selection of the list.
-/

set_option autoImplicit false

namespace GraphqlStore

/-- What holds of a selection if it holds of all selections right below it holds of every
selection. -/
@[elab_as_elim, induction_eliminator]
theorem Selection.induction {motive : Selection → Prop}
    (field : ∀ head items, (∀ item ∈ items, motive item) → motive (.field head items))
    (spread : ∀ head, motive (.spread head))
    (inline : ∀ head items, (∀ item ∈ items, motive item) → motive (.inline head items))
    (selection : Selection) : motive selection :=
  @Selection.rec motive (fun items => ∀ item ∈ items, motive item) field spread inline (by simp)
    (fun _ _ first rest => List.forall_mem_cons.2 ⟨first, rest⟩) selection

theorem spreadNames_eq (items : List Selection) :
    spreadNames items = items.flatMap Selection.spreads := by
  induction items with
  | nil => rfl
  | cons selection rest ih => rw [spreadNames, List.flatMap_cons, ih]

theorem mem_spreadNames {name : String} {items : List Selection} :
    name ∈ spreadNames items ↔ ∃ selection ∈ items, name ∈ selection.spreads := by
  rw [spreadNames_eq, List.mem_flatMap]

theorem visits_eq (schema : Schema) (parent : String) (path : List String) (items : List Selection) :
    visits schema parent path items = items.flatMap (Selection.visits schema parent path) := by
  induction items with
  | nil => rfl
  | cons selection rest ih => rw [visits, List.flatMap_cons, ih]

theorem mem_visits {schema : Schema} {parent : String} {path : List String}
    {items : List Selection} {visit : Visit} :
    visit ∈ visits schema parent path items ↔
      ∃ selection ∈ items, visit ∈ selection.visits schema parent path := by
  rw [visits_eq, List.mem_flatMap]

theorem mapSpreads_eq (replace : Spread → Selection) (items : List Selection) :
    mapSpreads replace items = items.map (Selection.mapSpreads replace) := by
  induction items with
  | nil => rfl
  | cons selection rest ih => rw [mapSpreads, List.map_cons, ih]

theorem anySpread_eq (test : Spread → Bool) (items : List Selection) :
    anySpread test items = items.any (Selection.anySpread test) := by
  induction items with
  | nil => rfl
  | cons selection rest ih => rw [anySpread, List.any_cons, ih]

end GraphqlStore
