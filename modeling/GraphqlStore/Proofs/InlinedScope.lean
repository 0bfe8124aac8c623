import GraphqlStore.Proofs.FragmentAgreement

/-!
Scopes before and after inlining. A scope enters a fragment at its first spread
only, while inlining copies the body to every spread and keeps a stack of the
fragments that it is expanding. If no fragment leads back to itself the two
come to the same: the stack never keeps a spread from being expanded, and the
copies bring in what the first spread has brought in.
-/

set_option autoImplicit false

namespace GraphqlStore

variable {registry : FragmentRegistry} {masking : FragmentMasking}

/-! ## Stacks -/

namespace FragmentRegistry

def Acyclic (registry : FragmentRegistry) : Prop := ∀ name, registry.isCyclic name = false

theorem acyclic_of_keys (each : ∀ name ∈ registry.keys, registry.isCyclic name = false) :
    registry.Acyclic := by
  intro name
  cases found : registry.find? name with
  | none => rw [isCyclic, found, Option.any_none]
  | some fragment => exact each name (NameMap.find?_isSome_iff.1 (by rw [found]; rfl))

/-- Spreads lead from some names to none of the stack. -/
def Avoids (registry : FragmentRegistry) (starts stack : List String) : Prop :=
  ∀ name ∈ stack, ¬ registry.Leads spreads starts name

namespace Avoids

variable {starts others stack : List String}

theorem nil : registry.Avoids starts [] := fun _ member => absurd member List.not_mem_nil

theorem not_mem (avoids : registry.Avoids starts stack) {name : String} (start : name ∈ starts) :
    name ∉ stack :=
  fun again => avoids name again (.start start)

theorem mono (avoids : registry.Avoids starts stack)
    (included : ∀ name ∈ others, registry.Leads spreads starts name) :
    registry.Avoids others stack :=
  fun name member leads => avoids name member (leads.mono included)

theorem subset (avoids : registry.Avoids starts stack) (included : ∀ name ∈ others, name ∈ starts) :
    registry.Avoids others stack :=
  avoids.mono fun name member => .start (included name member)

theorem body (acyclic : registry.Acyclic) (avoids : registry.Avoids starts stack) {name : String}
    (start : name ∈ starts) {fragment : Fragment} (found : registry.find? name = some fragment) :
    registry.Avoids (spreadNames fragment.selections.items) (name :: stack) := by
  intro other member leads
  rcases List.mem_cons.1 member with rfl | onStack
  · have cyclic := isCyclic_iff.2 ⟨fragment, found, leads⟩
    rw [acyclic] at cyclic
    cases cyclic
  · refine avoids other onStack (leads.mono fun inner inside => .step (.start start) ?_)
    rwa [NameMap.successors, found]

end Avoids

end FragmentRegistry

/-! ## Expansion on different stacks -/

namespace Inlining

private theorem expandSpread_eq_of_avoids (acyclic : registry.Acyclic) {stack other : List String}
    {spread : Spread} (avoids : registry.Avoids [spread.name] stack)
    (avoidsOther : registry.Avoids [spread.name] other) :
    expandSpread registry masking stack spread = expandSpread registry masking other spread := by
  have here : spread.name ∈ [spread.name] := List.mem_singleton.2 rfl
  fun_induction expandSpread registry masking stack spread generalizing other with
  | case1 stack spread missing =>
      refine (expandSpread_of_replaces ?_).symm
      rw [replaces, NameMap.contains, missing]
      rfl
  | case2 stack spread fragment found fresh _ ih =>
      rw [expandSpread_of_find? found (avoidsOther.not_mem here)]
      refine congrArg _ (mapSpreads_congr fun inner inside => ?_)
      have only : ∀ name ∈ [inner.name], name ∈ spreadNames fragment.selections.items :=
        fun name same => List.mem_singleton.1 same ▸ inside
      exact ih inner ((avoids.body acyclic here found).subset only)
        ((avoidsOther.body acyclic here found).subset only) (List.mem_singleton.2 rfl)
  | case3 stack spread fragment found again => exact absurd (avoids.not_mem here) again

private theorem expand_eq_of_avoids (acyclic : registry.Acyclic) {stack : List String}
    {items : List Selection} (avoids : registry.Avoids (spreadNames items) stack) :
    expand registry masking stack items = expand registry masking [] items :=
  mapSpreads_congr fun _ inside => expandSpread_eq_of_avoids acyclic
    (avoids.subset fun _ same => List.mem_singleton.1 same ▸ inside) .nil

private theorem mapSpreads_eq_inline {stack : List String} {selection : Selection}
    {head : InlineFragment} {items : List Selection}
    (same : selection.mapSpreads (expandSpread registry masking stack) = .inline head items) :
    (∃ inner, selection = .inline head inner ∧ items = expand registry masking stack inner) ∨
      ∃ spread fragment, selection = .spread spread ∧ registry.find? spread.name = some fragment ∧
        head = spread.inlinedHead masking fragment ∧
        items = expand registry masking (spread.name :: stack) fragment.selections.items := by
  cases selection with
  | field => cases same
  | inline => cases same; exact .inl ⟨_, rfl, rfl⟩
  | spread spread =>
      rw [Selection.mapSpreads] at same
      cases kept : replaces registry stack spread with
      | false => cases (expandSpread_of_replaces kept).symm.trans same
      | true =>
          rw [replaces, NameMap.contains, Bool.and_eq_true, Option.isSome_iff_exists] at kept
          obtain ⟨⟨fragment, found⟩, fresh⟩ := kept
          rw [expandSpread_of_find? found (by simpa using fresh)] at same
          cases same
          exact .inr ⟨spread, fragment, rfl, found, rfl, rfl⟩

private theorem find?_of_mapSpreads_eq_spread {stack : List String} {selection : Selection}
    {head : Spread} (avoids : registry.Avoids selection.spreads stack)
    (same : selection.mapSpreads (expandSpread registry masking stack) = .spread head) :
    registry.find? head.name = none := by
  cases selection with
  | field => cases same
  | inline => cases same
  | spread spread =>
      rw [Selection.mapSpreads] at same
      cases found : registry.find? spread.name with
      | some fragment =>
          have fresh := avoids.not_mem (List.mem_singleton.2 rfl : spread.name ∈ [spread.name])
          rw [expandSpread_of_find? found fresh] at same
          cases same
      | none =>
          have stays : replaces registry stack spread = false := by
            rw [replaces, NameMap.contains, found]
            rfl
          cases (expandSpread_of_replaces stays).symm.trans same
          exact found

end Inlining

/-! ## What expanded selections bring in -/

namespace Selection.Brings

variable {parent : String} {selection : Selection} {level : Level} {below : List Selection}
  {stack : List String}

theorem expanded (acyclic : registry.Acyclic)
    (brings : selection.Brings registry.find? parent level below)
    (avoids : registry.Avoids selection.spreads stack) :
    (selection.mapSpreads (Inlining.expandSpread registry masking stack)).Brings registry.find?
      parent level (Inlining.expand registry masking [] below) := by
  induction brings generalizing stack with
  | field =>
      rw [← Inlining.expand_eq_of_avoids acyclic avoids]
      exact .field
  | @inline parent head items below inner level member _ ih =>
      have within := ih (avoids.subset fun _ inside => mem_spreadNames.2 ⟨inner, member, inside⟩)
      rw [Selection.mapSpreads, mapSpreads_eq]
      exact .inline (List.mem_map_of_mem member) within
  | @spread parent head fragment below inner level found member _ ih =>
      have here : head.name ∈ (Selection.spread head).spreads := List.mem_singleton.2 rfl
      have within := ih ((avoids.body acyclic here found).subset fun _ inside =>
        mem_spreadNames.2 ⟨inner, member, inside⟩)
      rw [Selection.mapSpreads, Inlining.expandSpread_of_find? found (avoids.not_mem here),
        mapSpreads_eq]
      exact .inline (List.mem_map_of_mem member) within

private theorem of_expanded (acyclic : registry.Acyclic)
    (brings : (selection.mapSpreads (Inlining.expandSpread registry masking stack)).Brings
      registry.find? parent level below)
    (avoids : registry.Avoids selection.spreads stack) :
    ∃ original, selection.Brings registry.find? parent level original ∧
      below = Inlining.expand registry masking [] original := by
  generalize same : selection.mapSpreads (Inlining.expandSpread registry masking stack) = copy
    at brings
  induction brings generalizing selection stack with
  | field =>
      cases selection with
      | field head items =>
          cases same
          exact ⟨items, .field, Inlining.expand_eq_of_avoids acyclic avoids⟩
      | inline => cases same
      | spread spread =>
          rw [Selection.mapSpreads, Inlining.expandSpread] at same
          split at same
          · cases same
          · split at same <;> cases same
  | inline member _ ih =>
      rcases Inlining.mapSpreads_eq_inline same with
        ⟨items, rfl, rfl⟩ | ⟨spread, fragment, rfl, found, rfl, rfl⟩
      · rw [Inlining.expand, mapSpreads_eq] at member
        obtain ⟨inner, inItems, rfl⟩ := List.mem_map.1 member
        obtain ⟨original, brings, related⟩ := ih
          (avoids.subset fun _ inside => mem_spreadNames.2 ⟨inner, inItems, inside⟩) rfl
        exact ⟨original, .inline inItems brings, related⟩
      · rw [Inlining.expand, mapSpreads_eq] at member
        obtain ⟨inner, inBody, rfl⟩ := List.mem_map.1 member
        have here : spread.name ∈ (Selection.spread spread).spreads := List.mem_singleton.2 rfl
        obtain ⟨original, brings, related⟩ := ih
          ((avoids.body acyclic here found).subset fun _ inside =>
            mem_spreadNames.2 ⟨inner, inBody, inside⟩) rfl
        exact ⟨original, .spread found inBody brings, related⟩
  | spread found =>
      rw [Inlining.find?_of_mapSpreads_eq_spread avoids same] at found
      cases found

end Selection.Brings

/-! ## Fields of scopes -/

namespace Merge

variable {parent : String} {via : Option Position} {items : List Selection} {level : Level}
  {below : List Selection}

theorem mem_fields_parts :
    (∃ field ∈ fields registry [] (parts parent via items),
        field.level = level ∧ field.items = below) ↔
      ∃ item ∈ items, item.Brings registry.find? parent level below := by
  rw [mem_fields, brings_parts, FragmentRegistry.without_nil]

/-- A field of the copy, with what the original has below it. -/
def ScopedField.InlinedAs (registry : FragmentRegistry) (masking : FragmentMasking)
    (field copy : ScopedField) : Prop :=
  copy.level = field.level ∧ copy.items = Inlining.expand registry masking [] field.items

private theorem exists_inlinedAs (acyclic : registry.Acyclic) {stack : List String}
    (avoids : registry.Avoids (spreadNames items) stack) {field : ScopedField}
    (member : field ∈ fields registry [] (parts parent via items)) :
    ∃ copy ∈ fields registry [] (parts parent via (Inlining.expand registry masking stack items)),
      field.InlinedAs registry masking copy := by
  obtain ⟨item, inItems, brings⟩ := mem_fields_parts.1 ⟨field, member, rfl, rfl⟩
  refine mem_fields_parts.2 ⟨_, ?_, brings.expanded acyclic (avoids.subset fun _ inside => ?_)⟩
  · rw [Inlining.expand, mapSpreads_eq]
    exact List.mem_map_of_mem inItems
  · exact mem_spreadNames.2 ⟨item, inItems, inside⟩

private theorem exists_of_inlinedAs (acyclic : registry.Acyclic) {stack : List String}
    (avoids : registry.Avoids (spreadNames items) stack) {copy : ScopedField}
    (member : copy ∈
      fields registry [] (parts parent via (Inlining.expand registry masking stack items))) :
    ∃ field ∈ fields registry [] (parts parent via items),
      field.InlinedAs registry masking copy := by
  obtain ⟨expanded, inCopy, brings⟩ := mem_fields_parts.1 ⟨copy, member, rfl, rfl⟩
  rw [Inlining.expand, mapSpreads_eq] at inCopy
  obtain ⟨item, inItems, rfl⟩ := List.mem_map.1 inCopy
  have avoidsItem := avoids.subset fun _ inside => mem_spreadNames.2 ⟨item, inItems, inside⟩
  obtain ⟨original, brought, related⟩ := brings.of_expanded acyclic avoidsItem
  obtain ⟨field, inScope, same, rfl⟩ := mem_fields_parts.2 ⟨item, inItems, brought⟩
  exact ⟨field, inScope, same.symm, related⟩

/-- What is compared of a field: its parent, the name it answers to, its own name and its
arguments. -/
def ScopedField.entry (field : ScopedField) : String × String × String × List Argument :=
  (field.parent, field.head.responseName, field.head.name, field.head.arguments)

theorem ScopedField.InlinedAs.entry_eq {field copy : ScopedField}
    (inlined : field.InlinedAs registry masking copy) : copy.entry = field.entry := by
  obtain ⟨sameParent, sameHead⟩ := Level.mk.inj inlined.1
  rw [entry, entry, sameParent, sameHead]

/-- Selections and their inlined copy make up the same scope: the same entries, with the inlined
copy of what is below them. This needs that no fragment leads back to itself, and that nothing
leads to a fragment that is being expanded already. -/
theorem fields_expand (acyclic : registry.Acyclic) (masking : FragmentMasking) {stack : List String}
    {items : List Selection} (apart : ∀ name ∈ stack, name ∉ registry.reachable items)
    (parent : String) (via : Option Position) :
    let original := fields registry [] (parts parent via items)
    let copy := fields registry [] (parts parent via (Inlining.expand registry masking stack items))
    (∀ entry, entry ∈ copy.map ScopedField.entry ↔ entry ∈ original.map ScopedField.entry) ∧
      (∀ field ∈ original, ∃ twin ∈ copy, field.InlinedAs registry masking twin) ∧
      ∀ twin ∈ copy, ∃ field ∈ original, field.InlinedAs registry masking twin := by
  intro original copy
  have avoids : registry.Avoids (spreadNames items) stack :=
    fun name member leads => apart name member (FragmentRegistry.mem_reachable_iff.2 leads)
  have forth : ∀ field ∈ original, ∃ twin ∈ copy, field.InlinedAs registry masking twin :=
    fun _ member => exists_inlinedAs acyclic avoids member
  have back : ∀ twin ∈ copy, ∃ field ∈ original, field.InlinedAs registry masking twin :=
    fun _ member => exists_of_inlinedAs acyclic avoids member
  refine ⟨fun entry => ⟨fun listed => ?_, fun listed => ?_⟩, forth, back⟩
  · obtain ⟨twin, member, rfl⟩ := List.mem_map.1 listed
    obtain ⟨field, inOriginal, inlined⟩ := back twin member
    exact List.mem_map.2 ⟨field, inOriginal, inlined.entry_eq.symm⟩
  · obtain ⟨field, member, rfl⟩ := List.mem_map.1 listed
    obtain ⟨twin, inCopy, inlined⟩ := forth field member
    exact List.mem_map.2 ⟨twin, inCopy, inlined.entry_eq⟩

/-- Fragments of which each spreads the next, the last one below a field. -/
def chained : FragmentRegistry :=
  let fragment := fun (name condition : String) (items : List Selection) =>
    (name, Fragment.mk .start name condition [] ⟨.start, items⟩)
  let field := fun (name : String) (items : List Selection) =>
    Selection.field (Field.plain name .start) items
  .ofList [fragment "F" "Item" [field "title" [], .spread ⟨.start, "G", []⟩],
    fragment "G" "Node" [field "owner" [.spread ⟨.start, "H", []⟩]],
    fragment "H" "User" [field "name" []]]

/-- The body of another fragment `E`: it spreads two of them, one of which spreads the other, and
one that does not exist. -/
def repeatedSpreads : List Selection :=
  [.spread ⟨.start, "G", []⟩, .inline ⟨.start, some "Item", [], .start⟩ [.spread ⟨.start, "F", []⟩],
    .spread ⟨.start, "Missing", []⟩, .spread ⟨.start, "F", []⟩]

theorem fields_expand_chained :
    let original := fields chained [] (parts "Node" none repeatedSpreads)
    let copy := fields chained []
      (parts "Node" none (Inlining.expand chained .enable ["E"] repeatedSpreads))
    original.map (fun field => field.head.name) = ["owner", "title"] ∧
      copy.map (fun field => field.head.name) = ["owner", "title", "owner", "title", "owner"] ∧
      (∀ entry, entry ∈ copy.map ScopedField.entry ↔ entry ∈ original.map ScopedField.entry) ∧
      (∀ field ∈ original, ∃ twin ∈ copy, field.InlinedAs chained .enable twin) ∧
      ∀ twin ∈ copy, ∃ field ∈ original, field.InlinedAs chained .enable twin := by
  have acyclic : chained.Acyclic := FragmentRegistry.acyclic_of_keys (by decide +kernel)
  exact ⟨by decide +kernel, by decide +kernel,
    fields_expand acyclic .enable (List.forall_mem_singleton.2 (by decide +kernel)) "Node" none⟩

end Merge

end GraphqlStore
