import GraphqlStore.Proofs.Names.Closure
import GraphqlStore.Proofs.Selections
import Mathlib.Data.Finset.Card
import Mathlib.Data.Finset.SDiff
import Mathlib.Logic.Relation

/-!
Fragments that are reached through spreads are those to which a chain of
spreads leads. Besides the list of names that is worked off in order, this is
shown of every way to work off the names that are pending: whichever is taken
next, the work ends, and it ends with the same names.
-/

set_option autoImplicit false

namespace GraphqlStore

/-- A spread of this fragment stands in the selections, at any depth. -/
inductive SpreadIn : List Selection → String → Prop where
  | here {items : List Selection} {head : Spread} : .spread head ∈ items → SpreadIn items head.name
  | field {items inner : List Selection} {head : Field} {name : String} :
      .field head inner ∈ items → SpreadIn inner name → SpreadIn items name
  | inline {items inner : List Selection} {head : InlineFragment} {name : String} :
      .inline head inner ∈ items → SpreadIn inner name → SpreadIn items name

private theorem spreadIn_of_mem_spreads {selection : Selection} {items : List Selection}
    {name : String}
    (member : selection ∈ items) (spreads : name ∈ selection.spreads) : SpreadIn items name := by
  induction selection generalizing items with
  | field head inner ih =>
      obtain ⟨item, below, inItem⟩ := mem_spreadNames.1 spreads
      exact .field member (ih item below below inItem)
  | spread head =>
      obtain rfl := List.mem_singleton.1 spreads
      exact .here member
  | inline head inner ih =>
      obtain ⟨item, below, inItem⟩ := mem_spreadNames.1 spreads
      exact .inline member (ih item below below inItem)

theorem mem_spreadNames_iff_spreadIn {items : List Selection} {name : String} :
    name ∈ spreadNames items ↔ SpreadIn items name := by
  constructor
  · intro spreads
    obtain ⟨item, member, inItem⟩ := mem_spreadNames.1 spreads
    exact spreadIn_of_mem_spreads member inItem
  · intro spread
    induction spread with
    | here member => exact mem_spreadNames.2 ⟨_, member, List.mem_singleton.2 rfl⟩
    | field member _ ih => exact mem_spreadNames.2 ⟨_, member, ih⟩
    | inline member _ ih => exact mem_spreadNames.2 ⟨_, member, ih⟩

namespace FragmentRegistry

/-- One or more spreads lead from selections to a fragment, each but the first from the body of
the fragment that the one before names. -/
inductive SpreadChain (registry : FragmentRegistry) : List Selection → String → Prop where
  | last {items : List Selection} {name : String} :
      SpreadIn items name → SpreadChain registry items name
  | through {items : List Selection} {passed name : String} {fragment : Fragment} :
      SpreadIn items passed → registry.find? passed = some fragment →
      SpreadChain registry fragment.selections.items name → SpreadChain registry items name

variable {registry : FragmentRegistry} {items : List Selection} {name : String}

theorem mem_spreadsOf {other : String} :
    other ∈ registry.spreadsOf name ↔
      ∃ fragment, registry.find? name = some fragment ∧ SpreadIn fragment.selections.items other := by
  unfold spreadsOf NameMap.successors
  cases registry.find? name with
  | none => simp
  | some fragment => simp [spreads, mem_spreadNames_iff_spreadIn]

theorem SpreadChain.extend {other : String} (chain : registry.SpreadChain items name)
    (spreads : other ∈ registry.spreadsOf name) : registry.SpreadChain items other := by
  induction chain with
  | last spread =>
      obtain ⟨fragment, found, inBody⟩ := mem_spreadsOf.1 spreads
      exact .through spread found (.last inBody)
  | through spread found _ ih => exact .through spread found (ih spreads)

theorem reaches_iff_spreadChain : registry.Reaches items name ↔ registry.SpreadChain items name := by
  constructor
  · intro reaches
    induction reaches with
    | start member => exact .last (mem_spreadNames_iff_spreadIn.1 member)
    | step _ spreads ih => exact ih.extend spreads
  · intro chain
    induction chain with
    | last spread => exact .start (mem_spreadNames_iff_spreadIn.2 spread)
    | through spread found _ ih => exact .of_spread (mem_spreadNames_iff_spreadIn.2 spread) found ih

end FragmentRegistry

/-! ## Working off pending names in any order -/

/-- The names that are still to be followed, and those that have been met. -/
structure Sweep where
  pending : Finset String
  seen : Finset String

namespace Sweep

def start (items : List Selection) : Sweep := ⟨(spreadNames items).toFinset, ∅⟩

/-- Takes any name that is pending. A new one is noted, and what its body spreads and has not been
met becomes pending. -/
inductive Step (registry : FragmentRegistry) : Sweep → Sweep → Prop where
  | drop {pending seen : Finset String} {name : String} : name ∈ pending → name ∈ seen →
      Step registry ⟨pending, seen⟩ ⟨pending.erase name, seen⟩
  | follow {pending seen : Finset String} {name : String} : name ∈ pending → name ∉ seen →
      Step registry ⟨pending, seen⟩
        ⟨pending.erase name ∪ ((registry.spreadsOf name).toFinset \ insert name seen),
          insert name seen⟩

/-- What holds on the way: nothing is met that cannot be reached, and nothing is left out that is
not pending. -/
structure Invariant (registry : FragmentRegistry) (items : List Selection) (sweep : Sweep) : Prop where
  reached : ∀ name ∈ sweep.seen ∪ sweep.pending, registry.Reaches items name
  started : ∀ name ∈ spreadNames items, name ∈ sweep.seen ∪ sweep.pending
  closed : ∀ name ∈ sweep.seen, ∀ other ∈ registry.spreadsOf name, other ∈ sweep.seen ∪ sweep.pending

variable {registry : FragmentRegistry} {items : List Selection} {sweep next : Sweep}

private theorem invariant_start (registry : FragmentRegistry) (items : List Selection) :
    Invariant registry items (start items) where
  reached name member := .start (by simpa [start] using member)
  started name member := by simpa [start] using member
  closed name member := by simp [start] at member

theorem Step.invariant (step : Step registry sweep next) (invariant : Invariant registry items sweep) :
    Invariant registry items next := by
  obtain ⟨reached, started, closed⟩ := invariant
  cases step with
  | @drop pending seen name waiting known =>
      have same : seen ∪ pending.erase name = seen ∪ pending := by
        ext other
        simp only [Finset.mem_union, Finset.mem_erase]
        grind
      exact ⟨by rwa [same], by rwa [same], by rwa [same]⟩
  | @follow pending seen name waiting fresh =>
      have grown : insert name seen ∪
          (pending.erase name ∪ ((registry.spreadsOf name).toFinset \ insert name seen)) =
          seen ∪ pending ∪ (registry.spreadsOf name).toFinset := by
        ext other
        simp only [Finset.mem_union, Finset.mem_insert, Finset.mem_erase, Finset.mem_sdiff]
        grind
      refine ⟨?_, ?_, ?_⟩ <;> simp only [grown]
      · intro other member
        rcases Finset.mem_union.1 member with old | spread
        · exact reached other old
        · exact .step (reached name (Finset.mem_union_right _ waiting)) (List.mem_toFinset.1 spread)
      · exact fun other member => Finset.mem_union_left _ (started other member)
      · intro met member other spread
        rcases Finset.mem_insert.1 member with rfl | member
        · exact Finset.mem_union_right _ (List.mem_toFinset.2 spread)
        · exact Finset.mem_union_left _ (closed met member other spread)

private theorem invariant_of_run (run : Relation.ReflTransGen (Step registry) (start items) sweep) :
    Invariant registry items sweep := by
  induction run with
  | refl => exact invariant_start registry items
  | tail _ step ih => exact step.invariant ih

private theorem Invariant.seen_eq (invariant : Invariant registry items sweep)
    (done : sweep.pending = ∅) :
    sweep.seen = (registry.reachable items).names.toFinset := by
  obtain ⟨reached, started, closed⟩ := invariant
  simp only [done, Finset.union_empty] at reached started closed
  ext name
  rw [List.mem_toFinset, ← NameSet.mem_iff, FragmentRegistry.mem_reachable_iff]
  refine ⟨reached name, fun reaches => ?_⟩
  induction reaches with
  | start member => exact started _ member
  | step _ spread ih => exact closed _ ih _ spread

private theorem exists_step (pending : sweep.pending.Nonempty) :
    ∃ next, Step registry sweep next := by
  obtain ⟨name, waiting⟩ := pending
  by_cases known : name ∈ sweep.seen
  · exact ⟨_, .drop waiting known⟩
  · exact ⟨_, .follow waiting known⟩

/-! ## The work ends -/

/-- All names that the bodies of registered fragments spread. -/
def spreadAnywhere (registry : FragmentRegistry) : Finset String :=
  (registry.values.flatMap FragmentRegistry.spreads).toFinset

/-- The names that can still be met for the first time. -/
def unmet (registry : FragmentRegistry) (sweep : Sweep) : Finset String :=
  (sweep.pending ∪ spreadAnywhere registry) \ sweep.seen

private theorem spreadsOf_subset (name : String) :
    (registry.spreadsOf name).toFinset ⊆ spreadAnywhere registry := by
  intro other member
  obtain ⟨fragment, found, spread⟩ := FragmentRegistry.mem_spreadsOf.1 (List.mem_toFinset.1 member)
  exact List.mem_toFinset.2 (List.mem_flatMap.2
    ⟨fragment, NameMap.mem_values_of_lookup found, mem_spreadNames_iff_spreadIn.2 spread⟩)

private theorem Step.decreases (step : Step registry sweep next) :
    (next.unmet registry).card < (sweep.unmet registry).card ∨
      next.unmet registry = sweep.unmet registry ∧ next.pending.card < sweep.pending.card := by
  cases step with
  | @drop pending seen name waiting known =>
      refine .inr ⟨?_, Finset.card_erase_lt_of_mem waiting⟩
      ext other
      simp only [unmet, Finset.mem_sdiff, Finset.mem_union, Finset.mem_erase]
      grind
  | @follow pending seen name waiting fresh =>
      refine .inl (Finset.card_lt_card ((Finset.ssubset_iff_of_subset ?_).2 ⟨name, ?_, ?_⟩))
      · intro other member
        have inBodies := @spreadsOf_subset registry name other
        simp only [unmet, Finset.mem_sdiff, Finset.mem_union, Finset.mem_erase, Finset.mem_insert] at *
        grind
      · simp [unmet, waiting, fresh]
      · simp [unmet]

private theorem wellFounded_step (registry : FragmentRegistry) :
    WellFounded fun later earlier => Step registry earlier later := by
  have ranked := InvImage.wf
    (fun sweep : Sweep => ((sweep.unmet registry).card, sweep.pending.card))
    (Nat.lt_wfRel.wf.prod_lex Nat.lt_wfRel.wf)
  refine Subrelation.wf ?_ ranked
  intro later earlier step
  refine Prod.lex_def.2 ?_
  rcases step.decreases with fewer | ⟨same, fewer⟩
  · exact .inl fewer
  · exact .inr ⟨congrArg Finset.card same, fewer⟩

end Sweep

/-- The fragments that selections reach are those to which a chain of spreads leads, and a fragment
is cyclic exactly if one leads from its body back to it. To find them, the pending names can be
taken in any order: the work ends, and with these names. -/
theorem FragmentRegistry.reachable_closure (registry : FragmentRegistry) (items : List Selection) :
    (∀ name, name ∈ registry.reachable items ↔ registry.SpreadChain items name) ∧
      (∀ name, registry.isCyclic name = true ↔
        ∃ fragment, registry.find? name = some fragment ∧
          registry.SpreadChain fragment.selections.items name) ∧
      (WellFounded fun later earlier => Sweep.Step registry earlier later) ∧
      ∀ sweep, Relation.ReflTransGen (Sweep.Step registry) (Sweep.start items) sweep →
        (sweep.pending.Nonempty → ∃ next, Sweep.Step registry sweep next) ∧
          (sweep.pending = ∅ → sweep.seen = (registry.reachable items).names.toFinset) := by
  refine ⟨fun name => mem_reachable_iff.trans reaches_iff_spreadChain, fun name => ?_,
    Sweep.wellFounded_step registry, fun sweep run => ?_⟩
  · simp only [isCyclic_iff, reaches_iff_spreadChain]
  · exact ⟨Sweep.exists_step, (Sweep.invariant_of_run run).seen_eq⟩

def spreading (name : String) (others : List String) : String × Fragment :=
  (name, ⟨.start, name, "Query", [], ⟨.start, [.field (Field.plain "x" .start)
    (others.map fun other => .spread ⟨.start, other, []⟩)]⟩⟩)

/-- Two fragments that spread each other, one of them a third that is not registered too. -/
def crossedFragments : FragmentRegistry := .ofList [spreading "A" ["B"], spreading "B" ["A", "C"]]

theorem FragmentRegistry.reachable_closure_crossed :
    let items := [Selection.spread ⟨.start, "A", []⟩]
    crossedFragments.SpreadChain items "C" ∧ ¬ crossedFragments.SpreadChain items "x" ∧
      (∃ fragment, crossedFragments.find? "A" = some fragment ∧
        crossedFragments.SpreadChain fragment.selections.items "A") ∧
      ¬ crossedFragments.isCyclic "C" := by
  intro items
  obtain ⟨chains, cyclic, -, -⟩ := crossedFragments.reachable_closure items
  refine ⟨(chains "C").1 (by decide +kernel), fun chain => ?_, (cyclic "A").1 (by decide +kernel),
    by decide +kernel⟩
  exact absurd ((chains "x").2 chain) (by decide +kernel)

end GraphqlStore
