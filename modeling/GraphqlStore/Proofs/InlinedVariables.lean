import GraphqlStore.Proofs.DeclaredVariables
import GraphqlStore.Proofs.FragmentAgreement

/-!
Variables before and after inlining. The variables of selections are looked up
in the fragments that a worklist finds, while inlining follows the spreads with
a stack and leaves those that lead back to it. Every fragment that is found is
expanded somewhere all the same, since it is reached without passing any other
one twice. So both ways give the same variables, those that only masking
directives use apart: inlining drops the directives with their arguments.
-/

set_option autoImplicit false

namespace GraphqlStore

/-! ## Spreads and the directives that mask them -/

mutual
/-- The spreads at any depth of a selection, in document order. -/
def Selection.spreadHeads : Selection → List Spread
  | .field _ items => spreadHeads items
  | .spread head => [head]
  | .inline _ items => spreadHeads items

/-- The spreads at any depth of selections, in document order. -/
def spreadHeads : List Selection → List Spread
  | [] => []
  | selection :: rest => selection.spreadHeads ++ spreadHeads rest
end

theorem spreadHeads_eq (items : List Selection) :
    spreadHeads items = items.flatMap Selection.spreadHeads := by
  induction items with
  | nil => rfl
  | cons item rest ih => rw [spreadHeads, List.flatMap_cons, ih]

private theorem mem_selectionVariables {items : List Selection} {name : String} :
    name ∈ selectionVariables items ↔ ∃ item ∈ items, name ∈ item.variableNames := by
  induction items with
  | nil => simp [selectionVariables]
  | cons item rest ih => simp [selectionVariables, ih]

private theorem Selection.spreads_eq_map (selection : Selection) :
    selection.spreads = selection.spreadHeads.map Spread.name := by
  have each {items : List Selection}
      (same : ∀ item ∈ items, item.spreads = item.spreadHeads.map Spread.name) :
      spreadNames items = (GraphqlStore.spreadHeads items).map Spread.name := by
    rw [spreadNames_eq, spreadHeads_eq, List.map_flatMap]
    exact List.flatMap_congr same
  induction selection with
  | field head items ih => exact each ih
  | spread head => rfl
  | inline head items ih => exact each ih

theorem mem_spreadNames_iff {items : List Selection} {name : String} :
    name ∈ spreadNames items ↔ ∃ spread ∈ spreadHeads items, spread.name = name := by
  simp only [spreadNames_eq, spreadHeads_eq, List.mem_flatMap, Selection.spreads_eq_map, List.mem_map]
  grind

private theorem Selection.mapSpreads_spread (selection : Selection) :
    selection.mapSpreads .spread = selection := by
  have each {items : List Selection} (same : ∀ item ∈ items, item.mapSpreads .spread = item) :
      GraphqlStore.mapSpreads .spread items = items := by
    rw [mapSpreads_eq]
    exact (List.map_congr_left same).trans (List.map_id' items)
  induction selection with
  | field head items ih => rw [Selection.mapSpreads, each ih]
  | spread head => rfl
  | inline head items ih => rw [Selection.mapSpreads, each ih]

/-- A spread that uses no variables, in the place of another one. -/
def Spread.silent (spread : Spread) : Selection := .spread ⟨spread.position, spread.name, []⟩

private theorem mem_mapSpreads_of_forall {replace : Spread → Selection} {items : List Selection}
    {name : String} (each : ∀ item ∈ items, name ∈ (item.mapSpreads replace).variableNames ↔
      name ∈ (item.mapSpreads Spread.silent).variableNames ∨
        ∃ spread ∈ item.spreadHeads, name ∈ (replace spread).variableNames) :
    name ∈ selectionVariables (mapSpreads replace items) ↔
      name ∈ selectionVariables (mapSpreads Spread.silent items) ∨
        ∃ spread ∈ spreadHeads items, name ∈ (replace spread).variableNames := by
  simp only [mem_selectionVariables, mapSpreads_eq, spreadHeads_eq, List.mem_map, List.mem_flatMap,
    exists_exists_and_eq_and]
  grind

private theorem Selection.mem_mapSpreads {replace : Spread → Selection} {selection : Selection}
    {name : String} :
    name ∈ (selection.mapSpreads replace).variableNames ↔
      name ∈ (selection.mapSpreads Spread.silent).variableNames ∨
        ∃ spread ∈ selection.spreadHeads, name ∈ (replace spread).variableNames := by
  induction selection with
  | field head items ih =>
      simp only [Selection.mapSpreads, Selection.variableNames, List.mem_append,
        mem_mapSpreads_of_forall ih, Selection.spreadHeads, or_assoc]
  | spread head =>
      simp [Selection.mapSpreads, Selection.variableNames, Selection.spreadHeads, Spread.silent,
        directiveVariables]
  | inline head items ih =>
      simp only [Selection.mapSpreads, Selection.variableNames, List.mem_append,
        mem_mapSpreads_of_forall ih, Selection.spreadHeads, or_assoc]

/-- The variables outside of spreads stay when spreads are replaced, and those of what stands in
their place are added. -/
theorem mem_selectionVariables_mapSpreads {replace : Spread → Selection} {items : List Selection}
    {name : String} :
    name ∈ selectionVariables (mapSpreads replace items) ↔
      name ∈ selectionVariables (mapSpreads Spread.silent items) ∨
        ∃ spread ∈ spreadHeads items, name ∈ (replace spread).variableNames :=
  mem_mapSpreads_of_forall fun _ _ => Selection.mem_mapSpreads

theorem mem_selectionVariables_iff {items : List Selection} {name : String} :
    name ∈ selectionVariables items ↔
      name ∈ selectionVariables (mapSpreads Spread.silent items) ∨
        ∃ spread ∈ spreadHeads items, name ∈ directiveVariables spread.directives := by
  have same : mapSpreads .spread items = items := by
    rw [mapSpreads_eq]
    exact (List.map_congr_left fun item _ => item.mapSpreads_spread).trans (List.map_id' items)
  conv_lhs => rw [← same, mem_selectionVariables_mapSpreads]
  rfl

/-- The directives of a spread that tell whether it is masked. -/
def Spread.maskDirectives (spread : Spread) : List Directive :=
  spread.directives.filter fun directive =>
    directive.name == Directive.maskEnable || directive.name == Directive.maskDisable

/-- The variables of the directives that mask spreads. -/
def maskVariables (items : List Selection) : List String :=
  (spreadHeads items).flatMap fun spread => directiveVariables spread.maskDirectives

private theorem mem_of_mem_maskVariables {items : List Selection} {name : String}
    (masks : name ∈ maskVariables items) : name ∈ selectionVariables items := by
  obtain ⟨spread, member, masks⟩ := List.mem_flatMap.1 masks
  obtain ⟨directive, isMask, used⟩ := mem_directiveVariables.1 masks
  exact mem_selectionVariables_iff.2 (.inr ⟨spread, member,
    mem_directiveVariables.2 ⟨directive, List.mem_of_mem_filter isMask, used⟩⟩)

/-! ## Names reached around a stack -/

namespace NameMap

variable {α : Type} {map : NameMap α} {next : α → List String}

/-- The names to which some names lead without passing certain others. -/
inductive LeadsAround (map : NameMap α) (next : α → List String) (avoided starts : List String) :
    String → Prop where
  | start {name : String} : name ∈ starts → name ∉ avoided → LeadsAround map next avoided starts name
  | step {name other : String} : LeadsAround map next avoided starts name →
      other ∈ map.successors next name → other ∉ avoided → LeadsAround map next avoided starts other

private theorem Leads.leadsAround {starts : List String} {name : String}
    (leads : map.Leads next starts name) :
    map.LeadsAround next [] starts name := by
  induction leads with
  | start member => exact .start member List.not_mem_nil
  | step _ successor ih => exact .step ih successor List.not_mem_nil

theorem LeadsAround.exists_start {avoided starts : List String} {name : String}
    (leads : map.LeadsAround next avoided starts name) :
    ∃ start ∈ starts, start ∉ avoided ∧
      (name = start ∨ map.LeadsAround next (start :: avoided) (map.successors next start) name) := by
  induction leads with
  | start member fresh => exact ⟨_, member, fresh, .inl rfl⟩
  | @step name other _ successor fresh ih =>
      obtain ⟨start, member, startFresh, last⟩ := ih
      refine ⟨start, member, startFresh, ?_⟩
      by_cases again : other = start
      · exact .inl again
      · have freshAround : other ∉ start :: avoided := by simp [again, fresh]
        rcases last with rfl | further
        · exact .inr (.start successor freshAround)
        · exact .inr (.step further successor freshAround)

end NameMap

/-! ## Expansion -/

namespace FragmentRegistry

/-- Selections, and the bodies of the fragments that they reach. -/
inductive Within (registry : FragmentRegistry) (items : List Selection) : List Selection → Prop where
  | here : Within registry items items
  | body {name : String} {fragment : Fragment} : registry.Reaches items name →
      registry.find? name = some fragment → Within registry items fragment.selections.items

theorem mem_variableNames_iff {registry : FragmentRegistry} {items : List Selection} {name : String} :
    name ∈ registry.variableNames items ↔
      ∃ part, registry.Within items part ∧ name ∈ selectionVariables part := by
  simp only [variableNames, NameSet.mem_ofList, List.mem_append, List.mem_flatMap, ← NameSet.mem_iff,
    mem_reachable_iff]
  constructor
  · rintro (used | ⟨reached, reaches, used⟩)
    · exact ⟨items, .here, used⟩
    · unfold fragmentVariables at used
      split at used
      · rename_i fragment found
        exact ⟨_, .body reaches found, used⟩
      · cases used
  · rintro ⟨part, within, used⟩
    cases within with
    | here => exact .inl used
    | @body reached fragment reaches found =>
        exact .inr ⟨reached, reaches, by rwa [fragmentVariables, found]⟩

end FragmentRegistry

namespace Inlining

variable {registry : FragmentRegistry} {masking : FragmentMasking} {stack : List String}
  {items : List Selection} {name : String}

private theorem mem_mask_or_inlined {spread : Spread}
    (used : name ∈ directiveVariables spread.directives) :
    name ∈ directiveVariables spread.maskDirectives ∨
      name ∈ directiveVariables (spread.inlinedDirectives masking) := by
  obtain ⟨directive, member, argument, inArguments, used⟩ := mem_directiveVariables.1 used
  by_cases masks : (directive.name == Directive.maskEnable || directive.name == Directive.maskDisable) = true
  · exact .inl (mem_directiveVariables.2
      ⟨directive, List.mem_filter.2 ⟨member, masks⟩, argument, inArguments, used⟩)
  · refine .inr (mem_directiveVariables.2 ⟨directive, ?_, argument, inArguments, used⟩)
    refine List.mem_append_left _ (List.mem_filter.2 ⟨member, ?_⟩)
    simpa using masks

private theorem mem_mask_or_expandSpread {spread : Spread}
    (used : name ∈ directiveVariables spread.directives) :
    name ∈ directiveVariables spread.maskDirectives ∨
      name ∈ (expandSpread registry masking stack spread).variableNames := by
  rw [expandSpread]
  split
  · exact .inr used
  · split
    · exact (mem_mask_or_inlined used).imp_right (List.mem_append_left _)
    · exact .inr used

private theorem mem_expand_or_mask (used : name ∈ selectionVariables items) :
    name ∈ selectionVariables (expand registry masking stack items) ∨ name ∈ maskVariables items := by
  rw [mem_selectionVariables_iff] at used
  rw [expand, mem_selectionVariables_mapSpreads]
  rcases used with own | ⟨spread, member, used⟩
  · exact .inl (.inl own)
  · rcases mem_mask_or_expandSpread used with masks | kept
    · exact .inr (List.mem_flatMap.2 ⟨spread, member, masks⟩)
    · exact .inl (.inr ⟨spread, member, kept⟩)

private theorem mem_expand_of_mem_body {start : String} {fragment : Fragment}
    (spreads : start ∈ spreadNames items)
    (found : registry.find? start = some fragment) (fresh : start ∉ stack)
    (used : name ∈ selectionVariables
      (expand registry masking (start :: stack) fragment.selections.items)) :
    name ∈ selectionVariables (expand registry masking stack items) := by
  obtain ⟨spread, member, rfl⟩ := mem_spreadNames_iff.1 spreads
  rw [expand, mem_selectionVariables_mapSpreads]
  refine .inr ⟨spread, member, ?_⟩
  rw [expandSpread_of_find? found fresh]
  exact List.mem_append_right _ used

private theorem mem_expand_of_leadsAround {reached : String} {fragment : Fragment}
    (leads : registry.LeadsAround FragmentRegistry.spreads stack (spreadNames items) reached)
    (found : registry.find? reached = some fragment)
    (used : name ∈ selectionVariables fragment.selections.items) :
    name ∈ selectionVariables (expand registry masking stack items) ∨
      name ∈ maskVariables fragment.selections.items := by
  induction size : registry.outside stack using Nat.strongRecOn generalizing stack items with
  | ind size ih =>
      obtain ⟨start, spreads, fresh, last⟩ := leads.exists_start
      rcases last with rfl | further
      · exact (mem_expand_or_mask used).imp_left (mem_expand_of_mem_body spreads found fresh)
      · cases registered : registry.find? start with
        | none =>
            rw [NameMap.successors, registered] at further
            obtain ⟨_, absent, _⟩ := further.exists_start
            cases absent
        | some body =>
            rw [NameMap.successors, registered] at further
            have smaller := NameMap.outside_cons_lt registry registered fresh
            exact (ih _ (size ▸ smaller) further rfl).imp_left
              (mem_expand_of_mem_body spreads registered fresh)

/-- What selections use, in the fragments they reach too, is what they use after the expansion and
what the directives use that mask spreads. -/
theorem mem_variableNames_iff_expand (masking : FragmentMasking) :
    name ∈ registry.variableNames items ↔
      name ∈ selectionVariables (expand registry masking [] items) ∨
        ∃ part, registry.Within items part ∧ name ∈ maskVariables part := by
  rw [FragmentRegistry.mem_variableNames_iff]
  constructor
  · rintro ⟨part, within, used⟩
    have kept : name ∈ selectionVariables (expand registry masking [] items) ∨
        name ∈ maskVariables part := by
      cases within with
      | here => exact mem_expand_or_mask used
      | body reaches found => exact mem_expand_of_leadsAround reaches.leadsAround found used
    exact kept.imp_right fun masks => ⟨part, within, masks⟩
  · rintro (kept | ⟨part, within, masks⟩)
    · let allowed := fun name => ∃ part, registry.Within items part ∧ name ∈ selectionVariables part
      have own : UsesOnly allowed items := usesOnly_iff.2 fun name used => ⟨items, .here, used⟩
      have bodies (reached : String) (fragment : Fragment) (reaches : registry.Reaches items reached)
          (found : registry.find? reached = some fragment) :
          UsesOnly allowed fragment.selections.items :=
        usesOnly_iff.2 fun name used => ⟨_, .body reaches found, used⟩
      exact usesOnly_iff.1 (usesOnly_expand own bodies) name kept
    · exact ⟨part, within, mem_of_mem_maskVariables masks⟩

end Inlining

namespace FragmentRegistry

/-- The directives that mask spreads, in selections and in the fragments that they reach, have no
arguments. -/
def BareMasks (registry : FragmentRegistry) (items : List Selection) : Prop :=
  ∀ part, registry.Within items part → ∀ spread ∈ spreadHeads part,
    ∀ directive ∈ spread.maskDirectives, directive.arguments = []

theorem BareMasks.not_mem {registry : FragmentRegistry} {items part : List Selection} {name : String}
    (bare : registry.BareMasks items) (within : registry.Within items part) :
    name ∉ maskVariables part := by
  intro masks
  obtain ⟨spread, member, masks⟩ := List.mem_flatMap.1 masks
  obtain ⟨directive, isMask, argument, inArguments, _⟩ := mem_directiveVariables.1 masks
  rw [bare part within spread member directive isMask] at inArguments
  cases inArguments

/-- The variables that selections use, in the fragments they reach too, are those that they use
after inlining, exactly if each variable of a directive that masks a spread is among the latter.
So they are if such directives have no arguments. -/
theorem variableNames_eq_expand_iff (registry : FragmentRegistry) (masking : FragmentMasking)
    (items : List Selection) :
    let inlined := selectionVariables (Inlining.expand registry masking [] items)
    (registry.variableNames items = NameSet.ofList inlined ↔
        ∀ part, registry.Within items part → ∀ name ∈ maskVariables part, name ∈ inlined) ∧
      (registry.BareMasks items → registry.variableNames items = NameSet.ofList inlined) := by
  intro inlined
  have same_iff : registry.variableNames items = NameSet.ofList inlined ↔
      ∀ part, registry.Within items part → ∀ name ∈ maskVariables part, name ∈ inlined := by
    constructor
    · intro same part within name masks
      rw [← NameSet.mem_ofList, ← same]
      exact (Inlining.mem_variableNames_iff_expand masking).2 (.inr ⟨part, within, masks⟩)
    · intro kept
      refine NameSet.ext fun name => ?_
      rw [Inlining.mem_variableNames_iff_expand masking, NameSet.mem_ofList]
      exact or_iff_left_of_imp fun ⟨part, within, masks⟩ => kept part within name masks
  refine ⟨same_iff, fun bare => same_iff.2 fun part within name masks => ?_⟩
  exact absurd masks (bare.not_mem within)

private theorem bareMasks_of_values {registry : FragmentRegistry} {items : List Selection}
    (own : ∀ spread ∈ spreadHeads items, ∀ directive ∈ spread.maskDirectives, directive.arguments = [])
    (bodies : ∀ fragment ∈ registry.values, ∀ spread ∈ spreadHeads fragment.selections.items,
      ∀ directive ∈ spread.maskDirectives, directive.arguments = []) :
    registry.BareMasks items := by
  intro part within
  cases within with
  | here => exact own
  | body _ found => exact bodies _ (NameMap.mem_values_of_lookup found)

def fragmentOf (name : String) (items : List Selection) : String × Fragment :=
  (name, ⟨.start, name, "Query", [], ⟨.start, items⟩⟩)

def looped : FragmentRegistry :=
  .ofList [fragmentOf "A" [.field ⟨.start, none, "x", [("of", .variable "a")], [], .start⟩ [],
      .spread ⟨.start, "B", [⟨.start, Directive.maskDisable, []⟩]⟩],
    fragmentOf "B" [.spread ⟨.start, "A", [⟨.start, "skip", [("if", .variable "b")]⟩]⟩,
      .field ⟨.start, none, "y", [("of", .variable "c")], [], .start⟩ []]]

/-- Spreads of one of them and of one that does not exist. -/
def loopedSpreads : List Selection :=
  [.spread ⟨.start, "A", [⟨.start, Directive.maskEnable, []⟩]⟩,
    .spread ⟨.start, "Missing", [⟨.start, "include", [("if", .variable "d")]⟩]⟩]

theorem variableNames_eq_expand_looped :
    looped.isCyclic "A" = true ∧ (looped.variableNames loopedSpreads).names = ["a", "b", "c", "d"] ∧
      looped.variableNames loopedSpreads =
        NameSet.ofList (selectionVariables (Inlining.expand looped .enable [] loopedSpreads)) := by
  have bare : looped.BareMasks loopedSpreads := bareMasks_of_values (by decide +kernel) (by decide +kernel)
  exact ⟨by decide +kernel, by decide +kernel,
    (variableNames_eq_expand_iff looped .enable loopedSpreads).2 bare⟩

/-- A fragment whose spread of another one is masked on a condition. -/
def conditional : FragmentRegistry :=
  .ofList [fragmentOf "A" [.spread ⟨.start, "B", [⟨.start, Directive.maskEnable, [("if", .variable "v")]⟩]⟩],
    fragmentOf "B" [.field (Field.plain "x" .start) []]]

/-- The directive is dropped with its argument, though none stands in the selections themselves. -/
theorem variable_of_mask_dropped :
    let items := [Selection.spread ⟨.start, "A", []⟩]
    maskVariables items = [] ∧ (conditional.variableNames items).names = ["v"] ∧
      selectionVariables (Inlining.expand conditional .enable [] items) = [] := by
  decide +kernel

end FragmentRegistry

end GraphqlStore
