import GraphqlStore.Proofs.FragmentAgreement
import GraphqlStore.Proofs.SpreadChains

/-!
The check of response names ends, on documents with errors too. What may lead
around is a chain of spreads that stays in one scope, since a scope enters a
fragment once. So the check ends if no fragment is led back to itself by a
chain that passes below a field, and it gives one answer at every limit that
is large enough.
-/

set_option autoImplicit false

namespace GraphqlStore

/-! ## Chains that pass below a field -/

/-- A spread of this fragment stands below a field of the selections. -/
inductive SpreadBelow : List Selection → String → Prop where
  | field {items inner : List Selection} {head : Field} {name : String} :
      .field head inner ∈ items → SpreadIn inner name → SpreadBelow items name
  | inline {items inner : List Selection} {head : InlineFragment} {name : String} :
      .inline head inner ∈ items → SpreadBelow inner name → SpreadBelow items name

private theorem spreadBelow_of_mem_nestedSpreads {selection : Selection} {items : List Selection}
    {name : String} (member : selection ∈ items) (nested : name ∈ selection.nestedSpreads) :
    SpreadBelow items name := by
  induction selection generalizing items with
  | field head inner => exact .field member (mem_spreadNames_iff_spreadIn.1 nested)
  | spread head => cases nested
  | inline head inner ih =>
      obtain ⟨item, below, inItem⟩ := mem_nestedSpreads.1 nested
      exact .inline member (ih item below below inItem)

theorem mem_nestedSpreads_iff_spreadBelow {items : List Selection} {name : String} :
    name ∈ nestedSpreads items ↔ SpreadBelow items name := by
  constructor
  · intro nested
    obtain ⟨item, member, inItem⟩ := mem_nestedSpreads.1 nested
    exact spreadBelow_of_mem_nestedSpreads member inItem
  · intro below
    induction below with
    | field member spread =>
        exact mem_nestedSpreads.2 ⟨_, member, mem_spreadNames_iff_spreadIn.2 spread⟩
    | inline member _ ih => exact mem_nestedSpreads.2 ⟨_, member, ih⟩

namespace FragmentRegistry

/-- One or more spreads lead from selections to a fragment, each but the first from the body of
the fragment that the one before names, and one of them at least stands below a field. -/
inductive DescendingChain (registry : FragmentRegistry) : List Selection → String → Prop where
  | last {items : List Selection} {name : String} :
      SpreadBelow items name → DescendingChain registry items name
  | descend {items : List Selection} {passed name : String} {fragment : Fragment} :
      SpreadBelow items passed → registry.find? passed = some fragment →
      SpreadChain registry fragment.selections.items name → DescendingChain registry items name
  | through {items : List Selection} {passed name : String} {fragment : Fragment} :
      SpreadIn items passed → registry.find? passed = some fragment →
      DescendingChain registry fragment.selections.items name → DescendingChain registry items name

variable {registry : FragmentRegistry} {items : List Selection} {name : String}

theorem DescendingChain.extend {other : String} (chain : registry.DescendingChain items name)
    (spreads : other ∈ registry.spreadsOf name) : registry.DescendingChain items other := by
  induction chain with
  | last below =>
      obtain ⟨fragment, found, inBody⟩ := mem_spreadsOf.1 spreads
      exact .descend below found (.last inBody)
  | descend below found chain => exact .descend below found (chain.extend spreads)
  | through spread found _ ih => exact .through spread found (ih spreads)

private theorem descendingChain_of_leads
    (leads : registry.Leads FragmentRegistry.spreads (nestedSpreads items) name) :
    registry.DescendingChain items name := by
  induction leads with
  | start nested => exact .last (mem_nestedSpreads_iff_spreadBelow.1 nested)
  | step _ spread ih => exact ih.extend spread

theorem DescendingChain.leads (chain : registry.DescendingChain items name) :
    registry.Leads FragmentRegistry.spreads (nestedSpreads items) name ∨
      ∃ passed fragment, registry.Reaches items passed ∧ registry.find? passed = some fragment ∧
        registry.Leads FragmentRegistry.spreads (nestedSpreads fragment.selections.items) name := by
  induction chain with
  | last below => exact .inl (.start (mem_nestedSpreads_iff_spreadBelow.2 below))
  | @descend items passed name fragment below found chain =>
      refine .inl ((reaches_iff_spreadChain.2 chain).mono fun start inBody => ?_)
      refine .step (.start (mem_nestedSpreads_iff_spreadBelow.2 below)) ?_
      exact mem_spreadsOf.2 ⟨fragment, found, mem_spreadNames_iff_spreadIn.1 inBody⟩
  | @through items passed name fragment spread found _ ih =>
      have here := mem_spreadNames_iff_spreadIn.2 spread
      rcases ih with nested | ⟨later, body, reaches, inBody, nested⟩
      · exact .inr ⟨passed, fragment, .start here, found, nested⟩
      · exact .inr ⟨later, body, .of_spread here found reaches, inBody, nested⟩

/-- Wherever a chain starts that comes back, it can be started at the body in which it goes below a
field. -/
theorem fieldAcyclic_iff : registry.FieldAcyclic ↔
    ∀ name fragment, registry.find? name = some fragment →
      ¬ registry.DescendingChain fragment.selections.items name := by
  constructor
  · intro acyclic name fragment found chain
    rcases chain.leads with nested | ⟨passed, body, reaches, inBody, nested⟩
    · exact acyclic name fragment found nested
    · refine acyclic passed body inBody (reaches.mono fun start spread => .step nested ?_)
      exact mem_spreadsOf.2 ⟨fragment, found, mem_spreadNames_iff_spreadIn.1 spread⟩
  · intro none name fragment found leads
    exact none name fragment found (descendingChain_of_leads leads)

private theorem fieldAcyclic_iff_entries : registry.FieldAcyclic ↔ ∀ entry ∈ registry.entries,
    entry.1 ∉ registry.reach spreads [] (nestedSpreads entry.2.selections.items) := by
  simp only [NameMap.mem_reach_iff]
  constructor
  · intro acyclic entry member
    exact acyclic entry.1 entry.2 ((NameMap.mem_iff_lookup registry.increasing).1 member)
  · intro each name fragment found
    exact each (name, fragment) ((NameMap.mem_iff_lookup registry.increasing).2 found)

instance (registry : FragmentRegistry) : Decidable registry.FieldAcyclic :=
  decidable_of_iff _ fieldAcyclic_iff_entries.symm

end FragmentRegistry

namespace Merge

variable {schema : Schema} {registry : FragmentRegistry}

/-! ## Calls -/

/-- What the check is at: a scope, or the selections of a scope whose fields are still to be
found. -/
inductive Call where
  | check (scope : List Part)
  | gather (visited : List String) (pending : List Part)

/-- What is called next. To check a scope is to find its fields and then to check the scopes below
them. -/
inductive Calls (schema : Schema) (registry : FragmentRegistry) : Call → Call → Prop where
  | gather {scope : List Part} : Calls schema registry (.check scope) (.gather [] scope)
  | field {visited : List String} {parent : String} {via : Option Position} {head : Field}
      {items : List Selection} {pending : List Part} :
      Calls schema registry (.gather visited (⟨parent, via, .field head items⟩ :: pending))
        (.gather visited pending)
  | inline {visited : List String} {parent : String} {via : Option Position}
      {head : InlineFragment} {items : List Selection} {pending : List Part} :
      Calls schema registry (.gather visited (⟨parent, via, .inline head items⟩ :: pending))
        (.gather visited (parts (head.typeWithin parent) via items ++ pending))
  | known {visited : List String} {parent : String} {via : Option Position} {head : Spread}
      {pending : List Part} : head.name ∈ visited →
      Calls schema registry (.gather visited (⟨parent, via, .spread head⟩ :: pending))
        (.gather visited pending)
  | missing {visited : List String} {parent : String} {via : Option Position} {head : Spread}
      {pending : List Part} : head.name ∉ visited → registry.find? head.name = none →
      Calls schema registry (.gather visited (⟨parent, via, .spread head⟩ :: pending))
        (.gather (head.name :: visited) pending)
  | enter {visited : List String} {parent : String} {via : Option Position} {head : Spread}
      {pending : List Part} {fragment : Fragment} :
      head.name ∉ visited → registry.find? head.name = some fragment →
      Calls schema registry (.gather visited (⟨parent, via, .spread head⟩ :: pending))
        (.gather (head.name :: visited)
          (parts fragment.condition (via.or (some head.position)) fragment.selections.items ++ pending))
  | inner {scope : List Part} {group : Group} : group ∈ groups (fields registry [] scope) →
      (compare schema group).2 ≠ [] →
      Calls schema registry (.check scope) (.check (compare schema group).2)

private theorem acc_gather (visited : List String) (pending : List Part) :
    Acc (fun later earlier => Calls schema registry earlier later) (.gather visited pending) := by
  fun_induction fields registry visited pending with
  | case1 =>
      refine ⟨_, fun later step => ?_⟩
      cases step
  | case2 visited parent via head items pending ih =>
      refine ⟨_, fun later step => ?_⟩
      cases step with
      | field => exact ih
  | case3 visited parent via head items pending ih =>
      refine ⟨_, fun later step => ?_⟩
      cases step with
      | inline => exact ih
  | case4 visited parent via head pending fresh absent ih =>
      refine ⟨_, fun later step => ?_⟩
      cases step with
      | known seen => exact absurd seen fresh
      | missing => exact ih
      | enter _ found => cases absent.symm.trans found
  | case5 visited parent via head pending fresh fragment found ih =>
      refine ⟨_, fun later step => ?_⟩
      cases step with
      | known seen => exact absurd seen fresh
      | missing _ absent => cases absent.symm.trans found
      | enter _ also =>
          cases found.symm.trans also
          exact ih
  | case6 visited parent via head pending seen ih =>
      refine ⟨_, fun later step => ?_⟩
      cases step with
      | known => exact ih
      | missing fresh => exact absurd fresh seen
      | enter fresh => exact absurd fresh seen

private theorem acc_check (acyclic : registry.FieldAcyclic) {limit : Nat} {scope : List Part}
    (nests : ∀ part ∈ scope, Nests registry limit part.selection) :
    Acc (fun later earlier => Calls schema registry earlier later) (.check scope) := by
  -- The induction is on the limit: it is what gets smaller, while the scope may well grow.
  induction limit generalizing scope with
  | zero =>
      refine ⟨_, fun later step => ?_⟩
      cases step with
      | gather => exact acc_gather [] scope
      | inner member some =>
          obtain ⟨part, below⟩ := List.exists_mem_of_ne_nil _ some
          obtain ⟨smaller, absurd, _⟩ := nests_of_mem_compare acyclic nests member below
          cases absurd
  | succ limit ih =>
      refine ⟨_, fun later step => ?_⟩
      cases step with
      | gather => exact acc_gather [] scope
      | inner member some =>
          refine ih fun part below => ?_
          obtain ⟨smaller, same, inside⟩ := nests_of_mem_compare acyclic nests member below
          rwa [Nat.succ.inj same]

theorem nests_of_mem {scope : List Part} {part : Part} (member : part ∈ scope) :
    Nests registry (depth (scope.map Part.selection) + registry.total bodyDepth) part.selection := by
  refine ⟨[], by simp, ?_⟩
  rw [NameMap.totalOutside_nil]
  exact Nat.add_le_add_right (selectionDepth_le (List.mem_map_of_mem member)) _

/-! ## Answers -/

private theorem faults?_mono {limit more : Nat} (atMost : limit ≤ more) {scope : List Part}
    {found : List Fault} (answer : faults? schema registry limit scope = some found) :
    faults? schema registry more scope = some found := by
  obtain ⟨extra, rfl⟩ := Nat.exists_eq_add_of_le atMost
  exact faults?_of_agree (fun _ _ => rfl) answer

theorem exists_answer (schema : Schema) (acyclic : registry.FieldAcyclic) (scope : List Part) :
    ∃ found, ∀ limit, depthBound registry (scope.map Part.selection) ≤ limit →
      faults? schema registry limit scope = some found := by
  have through : (faults? schema registry (depthBound registry (scope.map Part.selection)) scope).isSome :=
    faults?_isSome acyclic fun part member => nests_of_mem member
  obtain ⟨found, answer⟩ := Option.isSome_iff_exists.1 through
  exact ⟨found, fun limit atMost => faults?_mono atMost answer⟩

/-- If no chain of spreads that passes below a field leads from a fragment back to it, the check of
response names ends in every scope: no calls follow each other for ever, each scope has an answer
from some limit on, and the limit that is set for a document is large enough. -/
theorem check_terminates (schema : Schema) (registry : FragmentRegistry)
    (descends : ∀ name fragment, registry.find? name = some fragment →
      ¬ registry.DescendingChain fragment.selections.items name) :
    (WellFounded fun later earlier => Calls schema registry earlier later) ∧
      (∀ scope, ∃ found, ∀ limit, depthBound registry (scope.map Part.selection) ≤ limit →
        faults? schema registry limit scope = some found) ∧
      ∀ root items limit, depthBound registry items ≤ limit →
        faults? schema registry limit (parts root none items) =
          some (faults schema registry root items) := by
  have acyclic := FragmentRegistry.fieldAcyclic_iff.2 descends
  refine ⟨⟨fun call => ?_⟩, exists_answer schema acyclic, fun root items limit atMost => ?_⟩
  · cases call with
    | check scope => exact acc_check acyclic fun part member => nests_of_mem member
    | gather visited pending => exact acc_gather visited pending
  · obtain ⟨found, answer⟩ := exists_answer schema acyclic (parts root none items)
    have selections : (parts root none items).map Part.selection = items := by
      simp [parts, Function.comp_def]
    rw [selections] at answer
    rw [answer limit atMost, faults, answer _ (Nat.le_refl _), Option.getD_some]

/-- Two fragments that spread each other beside their fields, one of them inside an inline fragment.
Below a field stand spreads of a third one and of one that is missing. -/
def loopedFragments : FragmentRegistry :=
  let body (name : String) (items : List Selection) : String × Fragment :=
    (name, ⟨.start, name, "User", [], ⟨.start, items⟩⟩)
  let spread (name : String) : Selection := .spread ⟨.start, name, []⟩
  let friends (items : List Selection) : Selection := .field (Field.plain "friends" .start) items
  .ofList [body "A" [spread "B", friends [.field (Field.plain "unknown" .start) [spread "C"]]],
    body "B" [.inline ⟨.start, some "User", [], .start⟩ [spread "A"], friends [spread "C", spread "D"]],
    body "C" [friends [.field (Field.plain "name" .start) []]]]

/-- Users have friends, who are users. -/
def friendsSchema : Schema :=
  ⟨.ofList [("User", ⟨.object [⟨"friends", .list (.named "User"), []⟩] [], .empty⟩)], "User", none, none,
    .empty⟩

theorem check_terminates_looped :
    loopedFragments.isCyclic "A" ∧
      (∀ name fragment, loopedFragments.find? name = some fragment →
        ¬ loopedFragments.DescendingChain fragment.selections.items name) ∧
      Acc (fun later earlier => Calls friendsSchema loopedFragments earlier later)
        (.check (parts "User" none [.spread ⟨.start, "A", []⟩])) ∧
      ∀ limit, 6 ≤ limit → faults? friendsSchema loopedFragments limit
        (parts "User" none [.spread ⟨.start, "A", []⟩]) =
          some (faults friendsSchema loopedFragments "User" [.spread ⟨.start, "A", []⟩]) := by
  have descends := FragmentRegistry.fieldAcyclic_iff.1
    (by decide +kernel : loopedFragments.FieldAcyclic)
  obtain ⟨ends, _, answers⟩ := check_terminates friendsSchema loopedFragments descends
  refine ⟨by decide +kernel, descends, ends.apply _, fun limit atMost => answers "User" _ limit ?_⟩
  exact Nat.le_trans (by decide +kernel) atMost

end Merge

end GraphqlStore
