import GraphqlStore.Pass.Inlining
import GraphqlStore.Proofs.Documents
import GraphqlStore.Proofs.Names.Closure

/-!
Inlining removes all spreads. If the bodies of the registered fragments are
typed and no fragment leads back to itself, then a spread of a fragment that is
being expanded is never met, and typed selections become typed selections
without spreads.
-/

set_option autoImplicit false

namespace GraphqlStore

/-- Fragments that can be inlined: their bodies are typed, spread only fragments that are
registered, and do not lead back to the fragment. -/
structure FragmentRegistry.Sound (schema : Schema) (registry : FragmentRegistry) : Prop where
  composite : ∀ {name fragment}, registry.find? name = some fragment →
    schema.isComposite fragment.condition = true
  typed : ∀ {name fragment}, registry.find? name = some fragment →
    Typed schema (Conformance.registered registry) fragment.condition fragment.selections.items
  acyclic : ∀ {name fragment}, registry.find? name = some fragment →
    ¬ registry.Reaches fragment.selections.items name

namespace Inlining

variable {schema : Schema} {registry : FragmentRegistry} {masking : FragmentMasking}

private theorem mapSpreads_typed {allowed remaining : String → Prop} {replace : Spread → Selection}
    {parent : String} {selection : Selection} (typed : selection.Typed schema allowed parent)
    (replaced : ∀ spread : Spread, spread.name ∈ selection.spreads → allowed spread.name →
      ∀ type, (replace spread).Typed schema remaining type) :
    (selection.mapSpreads replace).Typed schema remaining parent := by
  induction typed with
  | @field parent head items found resolved arguments selected inside ih =>
      refine .field resolved arguments (fun some => selected ?_) fun item member => ?_
      · rintro rfl
        exact some rfl
      · rw [mapSpreads_eq] at member
        obtain ⟨original, inItems, rfl⟩ := List.mem_map.1 member
        exact ih original inItems fun spread inside =>
          replaced spread (mem_spreadNames.2 ⟨original, inItems, inside⟩)
  | @spread parent head allows => exact replaced head (List.mem_singleton_self _) allows parent
  | @inline parent head items composite inside ih =>
      refine .inline composite fun item member => ?_
      rw [mapSpreads_eq] at member
      obtain ⟨original, inItems, rfl⟩ := List.mem_map.1 member
      exact ih original inItems fun spread inside =>
        replaced spread (mem_spreadNames.2 ⟨original, inItems, inside⟩)

/-- A registered spread that leads to no fragment of the stack is expanded to typed selections
without spreads. -/
theorem expandSpread_typed (sound : registry.Sound schema) (stack : List String) (spread : Spread)
    (known : Conformance.registered registry spread.name) (fresh : spread.name ∉ stack)
    (apart : ∀ fragment, registry.find? spread.name = some fragment → ∀ name ∈ stack,
      ¬ registry.Reaches fragment.selections.items name) (type : String) :
    (expandSpread registry masking stack spread).Typed schema noSpreads type := by
  fun_induction expandSpread registry masking stack spread generalizing type with
  | case1 stack spread none =>
      rw [Conformance.registered, none] at known
      cases known
  | case2 stack spread fragment found fresh smaller ih =>
      refine .inline (fun condition given => ?_) fun item member => ?_
      · cases given
        exact sound.composite found
      · rw [mapSpreads_eq] at member
        obtain ⟨original, inBody, rfl⟩ := List.mem_map.1 member
        refine mapSpreads_typed (sound.typed found original inBody) fun inner inside allowed => ?_
        have reached : inner.name ∈ spreadNames fragment.selections.items :=
          mem_spreadNames.2 ⟨original, inBody, inside⟩
        have avoided : ∀ name ∈ spread.name :: stack,
            ¬ registry.Reaches fragment.selections.items name := by
          intro name member
          rcases List.mem_cons.1 member with rfl | later
          · exact sound.acyclic found
          · exact apart fragment found name later
        refine ih inner allowed (fun again => avoided _ again (.start reached)) ?_
        exact fun body bodyFound name member reaches =>
          avoided name member (.of_spread reached bodyFound reaches)
  | case3 stack spread fragment found again => exact absurd fresh again

theorem expand_typed (sound : registry.Sound schema) {stack : List String} {parent : String}
    {items : List Selection}
    (typed : Typed schema (Conformance.registered registry) parent items)
    (apart : ∀ name ∈ stack, ¬ registry.Reaches items name) :
    Typed schema noSpreads parent (expand registry masking stack items) := by
  intro item member
  rw [expand, mapSpreads_eq] at member
  obtain ⟨original, inItems, rfl⟩ := List.mem_map.1 member
  refine mapSpreads_typed (typed original inItems) fun spread inside known => ?_
  have reached : spread.name ∈ spreadNames items := mem_spreadNames.2 ⟨original, inItems, inside⟩
  refine expandSpread_typed sound stack spread known (fun again => apart _ again (.start reached)) ?_
  exact fun body bodyFound name member reaches =>
    apart name member (.of_spread reached bodyFound reaches)

/-! ## Documents -/

theorem expandSpread_of_replaces {stack : List String} {spread : Spread}
    (stays : replaces registry stack spread = false) :
    expandSpread registry masking stack spread = .spread spread := by
  unfold expandSpread
  split
  · rfl
  · rename_i fragment found
    split
    · rename_i fresh
      simp [replaces, NameMap.contains, found, fresh] at stays
    · rfl

private theorem mapSpreads_of_forall {test : Spread → Bool} {replace : Spread → Selection}
    {items : List Selection}
    (each : ∀ item ∈ items, item.anySpread test = false → item.mapSpreads replace = item)
    (none : anySpread test items = false) : mapSpreads replace items = items := by
  rw [anySpread_eq, List.any_eq_false] at none
  rw [mapSpreads_eq]
  refine (List.map_congr_left fun item member => ?_).trans (List.map_id' items)
  exact each item member (by simpa using none item member)

private theorem mapSpreads_of_anySpread {test : Spread → Bool} {replace : Spread → Selection}
    (same : ∀ spread, test spread = false → replace spread = .spread spread) (selection : Selection)
    (none : selection.anySpread test = false) : selection.mapSpreads replace = selection := by
  induction selection with
  | field head items ih =>
      rw [Selection.mapSpreads, mapSpreads_of_forall ih none]
  | spread head => exact same head none
  | inline head items ih =>
      rw [Selection.mapSpreads, mapSpreads_of_forall ih none]

theorem expand_of_changes {stack : List String} {items : List Selection}
    (none : anySpread (replaces registry stack) items = false) :
    expand registry masking stack items = items :=
  mapSpreads_of_forall
    (fun item _ => mapSpreads_of_anySpread (fun _ => expandSpread_of_replaces) item) none

theorem step_defines (context : PassContext) {document : Document} {definition : Definition}
    (defines : document.Defines definition) :
    (step context document).1.Defines (definition.withItems
      (expand context.registry context.config.fragmentMasking (initialStack definition)
        definition.selections.items)) := by
  unfold step
  rw [defines.working]
  exact defines.revise expand_of_changes

end Inlining

end GraphqlStore
