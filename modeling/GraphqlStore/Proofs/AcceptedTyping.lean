import GraphqlStore.Proofs.AcceptedRun

/-!
The documents of an accepted run stay typed all the way. They conform to the
schema at the start, pagination keeps them typed and leads to no other
fragments, so that inlining leaves no spreads, and identity adds none.
-/

set_option autoImplicit false

namespace GraphqlStore

/-! ## Registered fragments after pagination -/

def SelectionView.spreads (schema : Schema) : SelectionView schema String where
  read _ selection := selection.spreads
  field _ same := by rw [Selection.spreads, Selection.spreads, spreadNames_eq, spreadNames_eq, same]
  plain _ none := by rw [Selection.spreads, spreadNames_eq, none]
  inline same := by rw [Selection.spreads, Selection.spreads, spreadNames_eq, spreadNames_eq, same]

theorem NameMap.Leads.congr {α : Type} {map other : NameMap α} {next : α → List String}
    (same : ∀ name, map.successors next name = other.successors next name) {starts : List String}
    {name : String} (leads : map.Leads next starts name) : other.Leads next starts name := by
  induction leads with
  | start member => exact .start member
  | step _ successor ih => exact .step ih (same _ ▸ successor)

namespace Pipeline

variable {config : Config} {documents : List Document} {definitions : List SchemaDefinition}

theorem paginated_collected (collected : Collected documents) :
    Collected (paginated config documents) :=
  collected.map (PaginationCompletion.name_step config) fun _ _ _ defines =>
    ⟨_, PaginationCompletion.step_defines config defines⟩

theorem find?_paginated (config : Config) (collected : Collected documents) (name : String) :
    (FragmentRegistry.ofDocuments documents).find? name = none ∧
        (FragmentRegistry.ofDocuments (paginated config documents)).find? name = none ∨
      ∃ document ∈ documents, ∃ fragment, document.Defines (.fragment fragment) ∧
        document.name = name ∧
        (FragmentRegistry.ofDocuments documents).find? name = some fragment ∧
        (FragmentRegistry.ofDocuments (paginated config documents)).find? name =
          some { fragment with selections := { fragment.selections with
            items := PaginationCompletion.completedItems config document
              fragment.selections.items } } := by
  have after {document : Document} (member : document ∈ documents) {fragment : Fragment}
      (defines : document.Defines (.fragment fragment)) (named : document.name = name) :
      (FragmentRegistry.ofDocuments (paginated config documents)).find? name = some _ :=
    (paginated_collected collected).find?_eq_some_iff.2
      ⟨_, List.mem_map_of_mem member, PaginationCompletion.step_defines config defines,
        (PaginationCompletion.name_step config document).trans named⟩
  cases found : (FragmentRegistry.ofDocuments documents).find? name with
  | some fragment =>
      obtain ⟨document, member, defines, named⟩ := collected.find?_eq_some_iff.1 found
      exact .inr ⟨document, member, fragment, defines, named, rfl, after member defines named⟩
  | none =>
      refine .inl ⟨rfl, Option.eq_none_iff_forall_ne_some.2 fun fragment present => ?_⟩
      obtain ⟨revised, revisedMember, definesRevised, named⟩ :=
        (paginated_collected collected).find?_eq_some_iff.1 present
      obtain ⟨document, member, rfl⟩ := List.mem_map.1 revisedMember
      obtain ⟨definition, defines⟩ := collected.defines document member
      obtain ⟨original, rfl⟩ := Definition.eq_fragment_of_withItems
        ((PaginationCompletion.step_defines config defines).unique definesRevised)
      have absent := collected.find?_eq_some_iff.2 ⟨document, member, defines,
        (PaginationCompletion.name_step config document).symm.trans named⟩
      rw [found] at absent
      cases absent

private theorem registered_paginated (collected : Collected documents) (name : String) :
    Conformance.registered (FragmentRegistry.ofDocuments (paginated config documents)) name ↔
      Conformance.registered (FragmentRegistry.ofDocuments documents) name := by
  unfold Conformance.registered
  rcases find?_paginated config collected name with
    ⟨before, after⟩ | ⟨_, _, _, _, _, before, after⟩ <;> simp [before, after]

theorem successors_paginated (config : Config) (collected : Collected documents) (name : String) :
    (FragmentRegistry.ofDocuments (paginated config documents)).successors FragmentRegistry.spreads
        name =
      (FragmentRegistry.ofDocuments documents).successors FragmentRegistry.spreads name := by
  unfold NameMap.successors
  rcases find?_paginated config collected name with
    ⟨before, after⟩ | ⟨document, _, fragment, _, _, before, after⟩
  · rw [before, after]
  · rw [before, after]
    exact PaginationCompletion.spreadNames_completedItems config document _

/-- What holds of the selections of all documents as they are written holds of them after a run, if
each way in which the passes change selections keeps it. -/
theorem revisedItems_of_written (collected : Collected documents)
    {motive : String → List Selection → Prop}
    (written : ∀ document ∈ documents, ∀ definition, document.Defines definition →
      ∀ root, document.rootType? config.schema = some root → motive root definition.selections.items)
    (paged : ∀ document root items, motive root items →
      motive root (PaginationCompletion.completedItems config document items))
    (inlined : ∀ (registry : FragmentRegistry) stack root items,
      (∀ name fragment, registry.find? name = some fragment →
        motive fragment.condition fragment.selections.items) →
      motive root items → motive root (Inlining.expand registry config.fragmentMasking stack items))
    (completed : ∀ root selections, motive root selections.items →
      motive root (IdentityCompletion.complete config root selections).items)
    {document : Document} (member : document ∈ documents) {definition : Definition}
    (defines : document.Defines definition) {root : String}
    (rooted : document.rootType? config.schema = some root) :
    motive root (revisedItems config documents document definition root) := by
  have own := paged document root _ (written document member definition defines root rooted)
  refine completed root ⟨_, _⟩ (inlined _ _ root _ (fun name fragment found => ?_) own)
  rcases find?_paginated config collected name with
    ⟨_, after⟩ | ⟨source, inDocuments, original, definesSource, _, _, after⟩
  · cases after.symm.trans found
  · cases after.symm.trans found
    exact paged source _ _ (written source inDocuments _ definesSource _
      (definesSource.rootType?_eq config.schema))

/-! ## An accepted run -/

section Accepted

variable (built : Schema.ofDefinitions definitions = .ok config.schema)
  (text : config.schema.isComposite "String" = false) (collected : Collected documents)
  (accepts : Accepts config documents)

include built text accepts

theorem typedOn_of_mem {document : Document} (member : document ∈ documents)
    {definition : Definition} (defines : document.Defines definition) :
    ∃ root, document.TypedOn config.schema
      (Conformance.registered (FragmentRegistry.ofDocuments documents)) definition root :=
  Conformance.typedOn_of_faults built text defines (accepts.conforms document member)

theorem completedItems_keeps {β : Type} (view : SelectionView config.schema β) {document : Document}
    (member : document ∈ documents) {definition : Definition} (defines : document.Defines definition)
    {root : String} (rooted : document.rootType? config.schema = some root) :
    Keeps (Conformance.registered (FragmentRegistry.ofDocuments documents)) view root
      definition.selections.items
      (PaginationCompletion.completedItems config document definition.selections.items) := by
  obtain ⟨other, typedOn⟩ := typedOn_of_mem built text accepts member defines
  obtain rfl : other = root := Option.some.inj (typedOn.rooted.symm.trans rooted)
  exact PaginationCompletion.completedItems_keeps text defines rooted
    (Schema.type?_isSome_of_isComposite typedOn.composite) typedOn.typed
    (PaginationCompletion.check_of_step (accepts.pages document member))

include collected

private theorem sound_paginated :
    (FragmentRegistry.ofDocuments (paginated config documents)).Sound config.schema := by
  have source {name : String} {fragment : Fragment}
      (found : (FragmentRegistry.ofDocuments (paginated config documents)).find? name = some fragment) :
      ∃ document ∈ documents, ∃ original, document.Defines (.fragment original) ∧
        (FragmentRegistry.ofDocuments documents).find? name = some original ∧
        original.name = name ∧ fragment.condition = original.condition ∧
        fragment.selections.items =
          PaginationCompletion.completedItems config document original.selections.items := by
    rcases find?_paginated config collected name with
      ⟨_, after⟩ | ⟨document, member, original, defines, named, before, after⟩
    · rw [after] at found
      cases found
    · rw [after] at found
      cases found
      exact ⟨document, member, original, defines, before, (defines.name_eq rfl).trans named, rfl, rfl⟩
  refine ⟨fun found => ?_, fun found => ?_, fun found reaches => ?_⟩
  · obtain ⟨document, member, original, defines, _, _, same, _⟩ := source found
    obtain ⟨root, typedOn⟩ := typedOn_of_mem built text accepts member defines
    cases typedOn.rooted.symm.trans (defines.rootType?_eq config.schema)
    rw [same]
    exact typedOn.composite
  · obtain ⟨document, member, original, defines, _, _, same, items⟩ := source found
    rw [same, items]
    have kept := completedItems_keeps built text accepts
      (SelectionView.spreads config.schema) member defines (defines.rootType?_eq config.schema)
    exact fun item inside => (kept.typed item inside).mono fun name =>
      (registered_paginated collected name).2
  · rename_i name fragment
    obtain ⟨document, member, original, defines, before, named, _, items⟩ := source found
    obtain ⟨root, _, head, _⟩ :=
      Conformance.sound_of_faults defines.definition?_eq (accepts.conforms document member)
    have acyclic := (Conformance.fragment_of_headFaults head).2
    have spreads : spreadNames fragment.selections.items = spreadNames original.selections.items := by
      rw [items]
      exact PaginationCompletion.spreadNames_completedItems config document _
    have back : (FragmentRegistry.ofDocuments documents).isCyclic original.name = true := by
      refine FragmentRegistry.isCyclic_iff.2 ⟨original, named ▸ before, ?_⟩
      rw [FragmentRegistry.Reaches, ← spreads, named]
      exact reaches.congr (successors_paginated config collected)
    rw [acyclic] at back
    cases back

private theorem inlinedItems_typed {document : Document} (member : document ∈ documents)
    {definition : Definition} (defines : document.Defines definition) {root : String}
    (rooted : document.rootType? config.schema = some root) :
    Typed config.schema noSpreads root (inlinedItems config documents document definition) := by
  have sound := sound_paginated built text collected accepts
  have kept := completedItems_keeps built text accepts (SelectionView.spreads config.schema) member
    defines rooted
  refine Inlining.expand_typed sound (fun item inside => ?_) fun name onStack => ?_
  · exact (kept.typed item inside).mono fun name => (registered_paginated collected name).2
  · cases definition with
    | shorthand written => cases onStack
    | operation declared => cases onStack
    | fragment declared =>
        obtain rfl := List.mem_singleton.1 onStack
        have found := (paginated_collected collected).find?_eq_some_iff.2
          ⟨_, List.mem_map_of_mem member, PaginationCompletion.step_defines config defines,
            (PaginationCompletion.name_step config document).trans (defines.name_eq rfl).symm⟩
        exact sound.acyclic found

theorem revisedItems_keeps {β : Type} (view : SelectionView config.schema β) {document : Document}
    (member : document ∈ documents) {definition : Definition} (defines : document.Defines definition)
    {root : String} (rooted : document.rootType? config.schema = some root) :
    Keeps noSpreads view root (inlinedItems config documents document definition)
      (revisedItems config documents document definition root) :=
  IdentityCompletion.complete_keeps ⟨_, _⟩
    (inlinedItems_typed built text collected accepts member defines rooted)

end Accepted

/-- The documents of an accepted run have no spreads at any depth and resolve against the schema
all the way down, unless the schema makes texts composite. -/
theorem run_standard_typed {definitions : List SchemaDefinition} {config : Config}
    {sources : List DocumentSource} {collection : Collection} {documents revised : List Document}
    {cancelled : Bool} (built : Schema.ofDefinitions definitions = .ok config.schema)
    (text : config.schema.isComposite "String" = false)
    (collects : Collection.collect sources = .ok collection)
    (clean : collection.toExcept = .ok documents)
    (accepted : run config (Pass.standard []) documents false = .ok (revised, cancelled)) :
    ∀ document ∈ revised, ∃ root selections, document.rootType? config.schema = some root ∧
      document.selections? = some selections ∧ spreadNames selections.items = [] ∧
      Typed config.schema noSpreads root selections.items := by
  intro document member
  obtain ⟨accepts, rfl, _⟩ := run_standard_eq_ok_iff.1 accepted
  have collected := collected_of_collect collects clean
  obtain ⟨source, inDocuments, definition, root, defines, rooted, definesLast, rootedLast⟩ :=
    mem_completed collected accepts member
  have kept := revisedItems_keeps built text collected accepts
    (SelectionView.spreads config.schema) inDocuments defines rooted
  refine ⟨root, _, rootedLast, definesLast.selections?_eq, ?_⟩
  rw [Definition.selections_withItems]
  exact ⟨kept.typed.spreadNames_eq_nil, kept.typed⟩

end Pipeline

end GraphqlStore
