import GraphqlStore.Proofs.MergeCheck
import GraphqlStore.Proofs.Names.Closure
import GraphqlStore.Proofs.Selections

/-!
How deep scopes are nested. Going below a field of a body for the second time
would lead back to it; so if no fragment reaches itself below a field, each
body adds its depth once at most, and the check of response names goes through
all scopes.
-/

set_option autoImplicit false

namespace GraphqlStore

/-! ## Sizes under some names -/

namespace NameMap

variable {α : Type}

/-- The sizes of the values under all names but some. -/
def totalOutside (size : α → Nat) (map : NameMap α) (names : List String) : Nat :=
  (map.entries.filter fun entry => !names.contains entry.1).foldr
    (fun entry sum => size entry.2 + sum) 0

theorem totalOutside_nil (size : α → Nat) (map : NameMap α) :
    map.totalOutside size [] = map.total size := by
  simp [totalOutside, total, values, List.foldr_map]

private theorem foldr_filter_cons_le (size : α → Nat) (entries : List (String × α)) (name : String)
    (names : List String) :
    (entries.filter fun entry => !(name :: names).contains entry.1).foldr
        (fun entry sum => size entry.2 + sum) 0 ≤
      (entries.filter fun entry => !names.contains entry.1).foldr
        (fun entry sum => size entry.2 + sum) 0 := by
  induction entries with
  | nil => simp
  | cons entry rest ih =>
      by_cases same : entry.1 = name <;> by_cases known : entry.1 ∈ names <;> simp_all
      omega

private theorem size_add_totalOutside_le (size : α → Nat) {map : NameMap α} {name : String}
    {value : α} (found : map.find? name = some value) {names : List String} (fresh : name ∉ names) :
    size value + map.totalOutside size (name :: names) ≤ map.totalOutside size names := by
  unfold totalOutside
  unfold find? at found
  generalize map.entries = entries at found
  induction entries with
  | nil => simp [lookup] at found
  | cons entry rest ih =>
      obtain ⟨key, present⟩ := entry
      by_cases same : key = name
      · subst same
        have atMost := foldr_filter_cons_le size rest key names
        simp only [lookup, if_true, Option.some.injEq] at found
        subst found
        rw [List.filter_cons_of_neg (by simp), List.filter_cons_of_pos (by simpa using fresh),
          List.foldr_cons]
        exact Nat.add_le_add_left atMost _
      · simp only [lookup, same, if_false] at found
        have smaller := ih found
        by_cases known : key ∈ names <;> simp_all
        omega

end NameMap

/-! ## Spreads below fields -/

mutual
/-- The fragments that are spread below a field of a selection. -/
def Selection.nestedSpreads : Selection → List String
  | .field _ items => spreadNames items
  | .spread _ => []
  | .inline _ items => nestedSpreads items

def nestedSpreads : List Selection → List String
  | [] => []
  | selection :: rest => selection.nestedSpreads ++ nestedSpreads rest
end

theorem mem_nestedSpreads {name : String} {items : List Selection} :
    name ∈ nestedSpreads items ↔ ∃ selection ∈ items, name ∈ selection.nestedSpreads := by
  induction items with
  | nil => simp [nestedSpreads]
  | cons selection rest ih => simp [nestedSpreads, ih]

theorem mem_spreads_of_mem_nestedSpreads {name : String} {selection : Selection}
    (nested : name ∈ selection.nestedSpreads) : name ∈ selection.spreads := by
  induction selection with
  | field head items _ => exact nested
  | spread head => cases nested
  | inline head items ih =>
      rw [Selection.nestedSpreads, mem_nestedSpreads] at nested
      obtain ⟨item, member, inside⟩ := nested
      exact mem_spreadNames.2 ⟨item, member, ih item member inside⟩

/-- No spread below a field of a body leads back to its fragment. -/
def FragmentRegistry.FieldAcyclic (registry : FragmentRegistry) : Prop :=
  ∀ name fragment, registry.find? name = some fragment →
    ¬ registry.Leads spreads (nestedSpreads fragment.selections.items) name

theorem FragmentRegistry.fieldAcyclic_of_isCyclic {registry : FragmentRegistry}
    (acyclic : ∀ name fragment, registry.find? name = some fragment → registry.isCyclic name = false) :
    registry.FieldAcyclic := by
  intro name fragment found leads
  have cyclic : registry.isCyclic name = true := by
    refine isCyclic_iff.2 ⟨fragment, found, leads.mono fun start nested => ?_⟩
    rw [mem_nestedSpreads] at nested
    obtain ⟨item, member, inside⟩ := nested
    exact .start (mem_spreadNames.2 ⟨item, member, mem_spreads_of_mem_nestedSpreads inside⟩)
  rw [acyclic name fragment found] at cyclic
  cases cyclic

/-! ## Depth -/

namespace Merge

variable {schema : Schema} {registry : FragmentRegistry}

theorem selectionDepth_le {item : Selection} {items : List Selection} (member : item ∈ items) :
    selectionDepth item ≤ depth items := by
  induction items with
  | nil => cases member
  | cons first rest ih =>
      rw [depth]
      rcases List.mem_cons.1 member with rfl | later
      · exact Nat.le_max_left _ _
      · exact Nat.le_trans (ih later) (Nat.le_max_right _ _)

def bodyDepth (fragment : Fragment) : Nat := depth fragment.selections.items

/-- What is brought in stands below a field of the selection itself, or of a body that spreads lead
to. -/
theorem origin_of_brings {selection : Selection} {parent : String} {level : Level}
    {below : List Selection} (brings : selection.Brings registry.find? parent level below) :
    (depth below < selectionDepth selection ∧
      ∀ name ∈ spreadNames below, name ∈ selection.nestedSpreads) ∨
    ∃ name fragment, registry.find? name = some fragment ∧
      registry.Leads FragmentRegistry.spreads selection.spreads name ∧ depth below < bodyDepth fragment ∧
      ∀ other ∈ spreadNames below, other ∈ nestedSpreads fragment.selections.items := by
  induction brings with
  | field => exact .inl ⟨Nat.lt_succ_self _, fun _ member => member⟩
  | @inline parent head items below inner level member _ ih =>
      refine ih.imp (fun ⟨shallow, nested⟩ => ?_) fun ⟨name, fragment, found, leads, inBody⟩ => ?_
      · refine ⟨Nat.lt_of_lt_of_le shallow (selectionDepth_le member), fun name inside => ?_⟩
        exact mem_nestedSpreads.2 ⟨inner, member, nested name inside⟩
      · refine ⟨name, fragment, found, leads.mono fun start inside => ?_, inBody⟩
        exact .start (mem_spreadNames.2 ⟨inner, member, inside⟩)
  | @spread parent head fragment below inner level found member _ ih =>
      have here : registry.Leads FragmentRegistry.spreads (Selection.spread head).spreads head.name :=
        .start (by simp [Selection.spreads])
      right
      rcases ih with ⟨shallow, nested⟩ | ⟨name, other, otherFound, leads, inBody⟩
      · refine ⟨head.name, fragment, found, here,
          Nat.lt_of_lt_of_le shallow (selectionDepth_le member), fun name inside => ?_⟩
        exact mem_nestedSpreads.2 ⟨inner, member, nested name inside⟩
      · refine ⟨name, other, otherFound, leads.mono fun start inside => .step here ?_, inBody⟩
        rw [NameMap.successors, found]
        exact mem_spreadNames.2 ⟨inner, member, inside⟩

/-- At most so many fields are nested in a selection, since its spreads do not lead to bodies that
have been entered. -/
def Nests (registry : FragmentRegistry) (limit : Nat) (selection : Selection) : Prop :=
  ∃ entered : List String,
    (∀ name ∈ entered, ¬ registry.Leads FragmentRegistry.spreads selection.spreads name) ∧
    selectionDepth selection + registry.totalOutside bodyDepth entered ≤ limit

private theorem Nests.of_brings (acyclic : registry.FieldAcyclic) {limit : Nat}
    {selection : Selection}
    (nests : Nests registry limit selection) {parent : String} {level : Level}
    {below : List Selection} (brings : selection.Brings registry.find? parent level below) :
    ∃ smaller, limit = smaller + 1 ∧ ∀ item ∈ below, Nests registry smaller item := by
  obtain ⟨entered, avoids, within⟩ := nests
  rcases origin_of_brings brings with
    ⟨shallow, nested⟩ | ⟨name, fragment, found, leads, shallow, nested⟩
  · refine ⟨limit - 1, by omega, fun item member => ⟨entered, fun name known reached => ?_, ?_⟩⟩
    · refine avoids name known (reached.mono fun start inside => .start ?_)
      exact mem_spreads_of_mem_nestedSpreads (nested start (mem_spreadNames.2 ⟨item, member, inside⟩))
    · have inside := selectionDepth_le member
      omega
  · have fresh : name ∉ entered := fun known => avoids name known leads
    have less := NameMap.size_add_totalOutside_le bodyDepth found fresh
    refine ⟨limit - 1, by omega, fun item member => ⟨name :: entered, fun other known reached => ?_, ?_⟩⟩
    · have below {target : String}
          (reached : registry.Leads FragmentRegistry.spreads item.spreads target) :
          registry.Leads FragmentRegistry.spreads (nestedSpreads fragment.selections.items) target :=
        reached.mono fun start inside =>
          .start (nested start (mem_spreadNames.2 ⟨item, member, inside⟩))
      rcases List.mem_cons.1 known with rfl | known
      · exact acyclic _ _ found (below reached)
      · refine avoids other known ((below reached).mono fun start inside => .step leads ?_)
        rw [mem_nestedSpreads] at inside
        obtain ⟨inner, inBody, inside⟩ := inside
        rw [NameMap.successors, found]
        exact mem_spreadNames.2 ⟨inner, inBody, mem_spreads_of_mem_nestedSpreads inside⟩
    · have inside := selectionDepth_le member
      omega

theorem brings_of_mem_compare {scope : List Part} {group : Group}
    (member : group ∈ groups (fields registry [] scope)) {part : Part}
    (below : part ∈ (compare schema group).2) :
    ∃ source ∈ scope, ∃ level items, source.selection.Brings registry.find? source.parent level items ∧
      part.selection ∈ items := by
  obtain ⟨field, inGroup, inChildren⟩ :
      ∃ field ∈ group.first :: group.others, part ∈ children schema field := by
    rw [compare_eq, List.mem_append, List.mem_flatMap] at below
    rcases below with first | ⟨other, inOthers, added⟩
    · exact ⟨group.first, List.mem_cons_self, first⟩
    · refine ⟨other, List.mem_cons_of_mem _ inOthers, ?_⟩
      unfold sharedWith at added
      split at added
      · exact added
      · cases added
  have inItems : part.selection ∈ field.items := by
    unfold children at inChildren
    split at inChildren
    · obtain ⟨item, inItems, rfl⟩ := List.mem_map.1 inChildren
      exact inItems
    · cases inChildren
  rw [← mem_groups.1 member, mem_named] at inGroup
  obtain ⟨source, inScope, brings⟩ := mem_fields.1 ⟨field, inGroup.1, rfl, rfl⟩
  rw [FragmentRegistry.without_nil] at brings
  exact ⟨source, inScope, _, _, brings, inItems⟩

theorem nests_of_mem_compare (acyclic : registry.FieldAcyclic) {limit : Nat} {scope : List Part}
    (nests : ∀ part ∈ scope, Nests registry limit part.selection) {group : Group}
    (member : group ∈ groups (fields registry [] scope)) {part : Part}
    (below : part ∈ (compare schema group).2) :
    ∃ smaller, limit = smaller + 1 ∧ Nests registry smaller part.selection := by
  obtain ⟨source, inScope, level, items, brings, inItems⟩ := brings_of_mem_compare member below
  obtain ⟨smaller, same, inside⟩ := (nests source inScope).of_brings acyclic brings
  exact ⟨smaller, same, inside _ inItems⟩

theorem faults?_succ_isSome {limit : Nat} {scope : List Part}
    (each : ∀ group ∈ groups (fields registry [] scope), (compare schema group).2 = [] ∨
      (faults? schema registry limit (compare schema group).2).isSome) :
    (faults? schema registry (limit + 1) scope).isSome := by
  rw [faults?_succ, Option.isSome_map]
  refine isSome_mapM fun group member => ?_
  unfold groupFaults?
  split
  · rfl
  · rename_i some
    rw [Option.isSome_map]
    exact (each group member).resolve_left fun empty => some (List.isEmpty_iff.2 empty)

theorem faults?_isSome (acyclic : registry.FieldAcyclic) {limit : Nat} {scope : List Part}
    (nests : ∀ part ∈ scope, Nests registry limit part.selection) :
    (faults? schema registry (limit + 1) scope).isSome := by
  induction limit generalizing scope with
  | zero =>
      refine faults?_succ_isSome fun group member => .inl (List.eq_nil_iff_forall_not_mem.2 ?_)
      intro part below
      obtain ⟨smaller, absurd, _⟩ := nests_of_mem_compare acyclic nests member below
      cases absurd
  | succ limit ih =>
      refine faults?_succ_isSome fun group member => .inr (ih fun part below => ?_)
      obtain ⟨smaller, same, inside⟩ := nests_of_mem_compare acyclic nests member below
      rwa [Nat.succ.inj same]

theorem faults?_depthBound_isSome (acyclic : registry.FieldAcyclic) (root : String)
    (items : List Selection) :
    (faults? schema registry (depthBound registry items) (parts root none items)).isSome := by
  refine faults?_isSome acyclic fun part member => ?_
  obtain ⟨item, inItems, rfl⟩ := List.mem_map.1 member
  refine ⟨[], by simp, ?_⟩
  rw [NameMap.totalOutside_nil]
  exact Nat.add_le_add_right (selectionDepth_le inItems) _

/-- If no fragment reaches itself below a field, nothing is reported of a document exactly if the
check goes through all scopes without any report. -/
theorem faults_eq_nil_iff (acyclic : registry.FieldAcyclic) {root : String} {items : List Selection} :
    faults schema registry root items = [] ↔
      faults? schema registry (depthBound registry items) (parts root none items) = some [] := by
  have through :
      (faults? schema registry (depthBound registry items) (parts root none items)).isSome :=
    faults?_depthBound_isSome acyclic root items
  obtain ⟨found, same⟩ := Option.isSome_iff_exists.1 through
  rw [faults, same, Option.getD_some, Option.some.injEq]

end Merge

end GraphqlStore
