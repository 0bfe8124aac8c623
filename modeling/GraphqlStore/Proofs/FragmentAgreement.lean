import GraphqlStore.Pass.Conformance
import GraphqlStore.Proofs.InliningTyping
import GraphqlStore.Proofs.ScopeDepth

/-!
Registries that agree on what selections reach. If two registries hold the
same fragment, or both none, under each name to which spreads lead from some
selections, then all that is read off the fragments is the same for these
selections: what is reachable, which variables are used, what is expanded,
which fields make up a scope, and what conformance reports.
-/

set_option autoImplicit false

namespace GraphqlStore

namespace FragmentRegistry

/-- Two registries hold the same under each name to which some names lead. -/
def AgreeFrom (registry other : FragmentRegistry) (starts : List String) : Prop :=
  ∀ name, registry.Leads spreads starts name → registry.find? name = other.find? name

namespace AgreeFrom

variable {registry other : FragmentRegistry} {starts others : List String} {name : String}

theorem mono (agree : registry.AgreeFrom other starts)
    (included : ∀ name ∈ others, registry.Leads spreads starts name) :
    registry.AgreeFrom other others :=
  fun name leads => agree name (leads.mono included)

theorem subset (agree : registry.AgreeFrom other starts) (included : ∀ name ∈ others, name ∈ starts) :
    registry.AgreeFrom other others :=
  agree.mono fun name member => .start (included name member)

theorem find?_eq (agree : registry.AgreeFrom other starts) (member : name ∈ starts) :
    registry.find? name = other.find? name :=
  agree name (.start member)

private theorem successors_eq (agree : registry.AgreeFrom other starts) (member : name ∈ starts) :
    registry.successors spreads name = other.successors spreads name := by
  rw [NameMap.successors, NameMap.successors, agree.find?_eq member]

theorem successors (agree : registry.AgreeFrom other starts) (member : name ∈ starts) :
    registry.AgreeFrom other (registry.successors spreads name) :=
  agree.mono fun _ inside => .step (.start member) inside

theorem body (agree : registry.AgreeFrom other starts) (member : name ∈ starts) {fragment : Fragment}
    (found : registry.find? name = some fragment) :
    registry.AgreeFrom other (spreadNames fragment.selections.items) := by
  have inside := agree.successors member
  rwa [NameMap.successors, found] at inside

theorem append (first : registry.AgreeFrom other starts) (second : registry.AgreeFrom other others) :
    registry.AgreeFrom other (starts ++ others) := by
  intro name leads
  have either : registry.Leads spreads starts name ∨ registry.Leads spreads others name := by
    induction leads with
    | start member =>
        exact (List.mem_append.1 member).imp NameMap.Leads.start NameMap.Leads.start
    | step _ successor ih => exact ih.imp (·.step successor) (·.step successor)
  exact either.elim (first name) (second name)

/-! ## What is reached -/

private theorem reach_eq (seen : List String) (agree : registry.AgreeFrom other starts) :
    registry.reach spreads seen starts = other.reach spreads seen starts := by
  fun_induction registry.reach spreads seen starts with
  | case1 seen => rw [NameMap.reach]
  | case2 seen name pending known ih =>
      rw [NameMap.reach, if_pos known]
      exact ih (agree.subset fun _ later => List.mem_cons_of_mem _ later)
  | case3 seen name pending fresh ih =>
      have here : name ∈ name :: pending := List.mem_cons_self
      have inside := (agree.successors here).append
        (agree.subset fun _ later => List.mem_cons_of_mem name later)
      rw [NameMap.reach, if_neg fresh, ← agree.successors_eq here, ih inside]

variable {items : List Selection}

theorem reachable_eq (agree : registry.AgreeFrom other (spreadNames items)) :
    registry.reachable items = other.reachable items := by
  rw [reachable, reachable, agree.reach_eq]

private theorem variableNames_eq (agree : registry.AgreeFrom other (spreadNames items)) :
    registry.variableNames items = other.variableNames items := by
  have bodies : (registry.reachable items).names.flatMap registry.fragmentVariables =
      (registry.reachable items).names.flatMap other.fragmentVariables := by
    refine List.flatMap_congr fun name member => ?_
    rw [fragmentVariables, fragmentVariables, agree name (mem_reachable_iff.1 member)]
  rw [variableNames, variableNames, bodies, agree.reachable_eq]

private theorem isCyclic_eq {fragment : Fragment} (found : registry.find? name = some fragment)
    (otherFound : other.find? name = some fragment)
    (agree : registry.AgreeFrom other (spreadNames fragment.selections.items)) :
    registry.isCyclic name = other.isCyclic name := by
  rw [isCyclic, isCyclic, found, otherFound, Option.any_some, Option.any_some, agree.reachable_eq]

end AgreeFrom

end FragmentRegistry

/-! ## Expansion -/

section Spreads

variable {replace other : Spread → Selection} {test otherTest : Spread → Bool} {items : List Selection}

theorem mapSpreads_congr_of_forall
    (each : ∀ item ∈ items, (∀ spread, spread.name ∈ item.spreads → replace spread = other spread) →
      item.mapSpreads replace = item.mapSpreads other)
    (same : ∀ spread, spread.name ∈ spreadNames items → replace spread = other spread) :
    mapSpreads replace items = mapSpreads other items := by
  rw [mapSpreads_eq, mapSpreads_eq]
  refine List.map_congr_left fun item member => each item member fun spread inside => ?_
  exact same spread (mem_spreadNames.2 ⟨item, member, inside⟩)

theorem Selection.mapSpreads_congr {selection : Selection}
    (same : ∀ spread, spread.name ∈ selection.spreads → replace spread = other spread) :
    selection.mapSpreads replace = selection.mapSpreads other := by
  induction selection with
  | field head items ih =>
      rw [Selection.mapSpreads, Selection.mapSpreads, mapSpreads_congr_of_forall ih same]
  | spread head => exact same head (List.mem_singleton.2 rfl)
  | inline head items ih =>
      rw [Selection.mapSpreads, Selection.mapSpreads, mapSpreads_congr_of_forall ih same]

theorem mapSpreads_congr
    (same : ∀ spread, spread.name ∈ spreadNames items → replace spread = other spread) :
    mapSpreads replace items = mapSpreads other items :=
  mapSpreads_congr_of_forall (fun _ _ => Selection.mapSpreads_congr) same

theorem anySpread_congr_of_forall
    (each : ∀ item ∈ items, (∀ spread, spread.name ∈ item.spreads → test spread = otherTest spread) →
      item.anySpread test = item.anySpread otherTest)
    (same : ∀ spread, spread.name ∈ spreadNames items → test spread = otherTest spread) :
    anySpread test items = anySpread otherTest items := by
  have tested : items.map (Selection.anySpread test) = items.map (Selection.anySpread otherTest) :=
    List.map_congr_left fun item member => each item member fun spread inside =>
      same spread (mem_spreadNames.2 ⟨item, member, inside⟩)
  have whole := congrArg (·.any id) tested
  simpa only [anySpread_eq, List.any_map, Function.id_comp] using whole

theorem Selection.anySpread_congr {selection : Selection}
    (same : ∀ spread, spread.name ∈ selection.spreads → test spread = otherTest spread) :
    selection.anySpread test = selection.anySpread otherTest := by
  induction selection with
  | field head items ih => exact anySpread_congr_of_forall ih same
  | spread head => exact same head (List.mem_singleton.2 rfl)
  | inline head items ih => exact anySpread_congr_of_forall ih same

theorem anySpread_congr
    (same : ∀ spread, spread.name ∈ spreadNames items → test spread = otherTest spread) :
    anySpread test items = anySpread otherTest items :=
  anySpread_congr_of_forall (fun _ _ => Selection.anySpread_congr) same

end Spreads

variable {registry other : FragmentRegistry}

namespace Inlining

variable {masking : FragmentMasking} {stack : List String}

theorem expandSpread_of_find? {spread : Spread} {fragment : Fragment}
    (found : registry.find? spread.name = some fragment) (fresh : spread.name ∉ stack) :
    expandSpread registry masking stack spread =
      .inline (spread.inlinedHead masking fragment)
        (mapSpreads (expandSpread registry masking (spread.name :: stack)) fragment.selections.items) := by
  rw [expandSpread]
  split
  · rename_i missing
    rw [found] at missing
    cases missing
  · rename_i other here
    cases found.symm.trans here
    rw [dif_pos fresh]

theorem replaces_eq {spread : Spread} (agree : registry.AgreeFrom other [spread.name]) :
    replaces registry stack spread = replaces other stack spread := by
  rw [replaces, replaces, NameMap.contains, NameMap.contains,
    agree.find?_eq (List.mem_singleton.2 rfl)]

private theorem expandSpread_eq {spread : Spread} (agree : registry.AgreeFrom other [spread.name]) :
    expandSpread registry masking stack spread = expandSpread other masking stack spread := by
  have here : spread.name ∈ [spread.name] := List.mem_singleton.2 rfl
  fun_induction expandSpread registry masking stack spread with
  | case1 stack spread missing =>
      refine (expandSpread_of_replaces ?_).symm
      rw [← replaces_eq agree, replaces, NameMap.contains, missing]
      rfl
  | case2 stack spread fragment found fresh _ ih =>
      rw [expandSpread_of_find? ((agree.find?_eq here).symm.trans found) fresh]
      refine congrArg _ (mapSpreads_congr fun inner inside => ih inner ?_ (List.mem_singleton.2 rfl))
      exact (agree.body here found).subset fun name same => List.mem_singleton.1 same ▸ inside
  | case3 stack spread fragment found known =>
      refine (expandSpread_of_replaces ?_).symm
      rw [replaces, Decidable.of_not_not known |> List.contains_iff_mem.2, Bool.not_true, Bool.and_false]

theorem expand_eq {items : List Selection} (agree : registry.AgreeFrom other (spreadNames items)) :
    expand registry masking stack items = expand other masking stack items :=
  mapSpreads_congr fun _ inside => expandSpread_eq <|
    agree.subset fun _ same => List.mem_singleton.1 same ▸ inside

theorem changes_eq {definition : Definition} {rest : ExecutableDocument}
    (agree : registry.AgreeFrom other (spreadNames definition.selections.items)) :
    changes registry (definition :: rest) = changes other (definition :: rest) :=
  anySpread_congr fun _ inside => replaces_eq <|
    agree.subset fun _ same => List.mem_singleton.1 same ▸ inside

end Inlining

/-! ## Scopes -/

namespace Merge

variable {schema : Schema}

def pendingSpreads (pending : List Part) : List String :=
  pending.flatMap fun part => part.selection.spreads

theorem pendingSpreads_parts (parent : String) (via : Option Position) (items : List Selection) :
    pendingSpreads (parts parent via items) = spreadNames items := by
  rw [pendingSpreads, parts, List.flatMap_map, spreadNames_eq]

theorem pendingSpreads_append (first second : List Part) :
    pendingSpreads (first ++ second) = pendingSpreads first ++ pendingSpreads second :=
  List.flatMap_append

private theorem fields_eq {visited : List String} {pending : List Part}
    (agree : registry.AgreeFrom other (pendingSpreads pending)) :
    fields registry visited pending = fields other visited pending := by
  have later {part : Part} {pending : List Part}
      (agree : registry.AgreeFrom other (pendingSpreads (part :: pending))) :
      registry.AgreeFrom other (pendingSpreads pending) :=
    agree.subset fun _ inside => List.mem_append_right _ inside
  fun_induction fields registry visited pending with
  | case1 visited => rw [fields]
  | case2 visited parent via head items pending ih => rw [fields, ih (later agree)]
  | case3 visited parent via head items pending ih =>
      rw [fields, ih]
      rwa [pendingSpreads_append, pendingSpreads_parts]
  | case4 visited parent via head pending fresh missing ih =>
      have here : head.name ∈ pendingSpreads (⟨parent, via, .spread head⟩ :: pending) :=
        List.mem_cons_self
      rw [fields, dif_pos fresh]
      split
      · exact ih (later agree)
      · rename_i found
        rw [← agree.find?_eq here, missing] at found
        cases found
  | case5 visited parent via head pending fresh fragment found ih =>
      have here : head.name ∈ pendingSpreads (⟨parent, via, .spread head⟩ :: pending) :=
        List.mem_cons_self
      rw [fields, dif_pos fresh]
      split
      · rename_i missing
        rw [← agree.find?_eq here, found] at missing
        cases missing
      · rename_i twin same
        rw [← agree.find?_eq here, found] at same
        cases same
        refine ih ?_
        rw [pendingSpreads_append, pendingSpreads_parts]
        exact (agree.body here found).append (later agree)
  | case6 visited _ via head pending known ih =>
      rw [fields, dif_neg known, ih (later agree)]

private theorem leads_of_brings {selection : Selection} {parent : String} {level : Level}
    {below : List Selection} (brings : selection.Brings registry.find? parent level below)
    {name : String} (inside : name ∈ spreadNames below) :
    registry.Leads FragmentRegistry.spreads selection.spreads name := by
  rcases origin_of_brings brings with ⟨_, nested⟩ | ⟨body, fragment, found, leads, _, nested⟩
  · exact .start (mem_spreads_of_mem_nestedSpreads (nested name inside))
  · obtain ⟨item, member, spread⟩ := mem_nestedSpreads.1 (nested name inside)
    refine .step leads ?_
    rw [NameMap.successors, found]
    exact mem_spreadNames.2 ⟨item, member, mem_spreads_of_mem_nestedSpreads spread⟩

private theorem agreeFrom_below {scope : List Part}
    (agree : registry.AgreeFrom other (pendingSpreads scope)) {group : Group}
    (member : group ∈ groups (fields registry [] scope)) :
    registry.AgreeFrom other (pendingSpreads (compare schema group).2) := by
  refine agree.mono fun name inside => ?_
  obtain ⟨part, below, spread⟩ := List.mem_flatMap.1 inside
  obtain ⟨source, inScope, level, items, brings, inItems⟩ := brings_of_mem_compare member below
  refine (leads_of_brings brings (mem_spreadNames.2 ⟨_, inItems, spread⟩)).mono fun start here => ?_
  exact .start (List.mem_flatMap.2 ⟨source, inScope, here⟩)

theorem faults?_of_agree {depth extra : Nat} {scope : List Part} {found : List Fault}
    (agree : registry.AgreeFrom other (pendingSpreads scope))
    (checked : faults? schema registry depth scope = some found) :
    faults? schema other (depth + extra) scope = some found := by
  induction depth generalizing scope found with
  | zero => cases checked
  | succ depth ih =>
      rw [faults?_succ, Option.map_eq_some_iff] at checked
      obtain ⟨groupFaults, all, rfl⟩ := checked
      rw [Nat.succ_add, faults?_succ, ← fields_eq agree, Option.map_eq_some_iff]
      refine ⟨groupFaults, mapM_eq_some_mono (fun group member value here => ?_) all, rfl⟩
      unfold groupFaults? at here ⊢
      split
      · rename_i nothing
        rwa [if_pos nothing] at here
      · rename_i some
        rw [if_neg some, Option.map_eq_some_iff] at here
        obtain ⟨below, deeper, rfl⟩ := here
        rw [ih (agreeFrom_below agree member) deeper]
        rfl

theorem faults_eq (acyclic : registry.FieldAcyclic) (otherAcyclic : other.FieldAcyclic) {root : String}
    {items : List Selection} (agree : registry.AgreeFrom other (spreadNames items)) :
    faults schema registry root items = faults schema other root items := by
  have one : (faults? schema registry (depthBound registry items) (parts root none items)).isSome :=
    faults?_depthBound_isSome acyclic root items
  have two : (faults? schema other (depthBound other items) (parts root none items)).isSome :=
    faults?_depthBound_isSome otherAcyclic root items
  obtain ⟨found, checked⟩ := Option.isSome_iff_exists.1 one
  obtain ⟨others, otherChecked⟩ := Option.isSome_iff_exists.1 two
  rw [← pendingSpreads_parts root none] at agree
  have same : other.AgreeFrom other (pendingSpreads (parts root none items)) := fun _ _ => rfl
  have deep : faults? schema other (depthBound registry items + depthBound other items) _ = _ :=
    faults?_of_agree agree checked
  have alsoDeep : faults? schema other (depthBound other items + depthBound registry items) _ = _ :=
    faults?_of_agree same otherChecked
  rw [Nat.add_comm, alsoDeep, Option.some.injEq] at deep
  rw [faults, faults, checked, otherChecked, deep]

end Merge

/-! ## Conformance -/

private theorem name_mem_spreadNames_of_visit {schema : Schema} {parent type : String}
    {path : List String} {selection : Selection} {head : Spread}
    (member : .spread type head ∈ selection.visits schema parent path) :
    head.name ∈ selection.spreads := by
  induction selection generalizing parent path with
  | field other items ih =>
      simp only [Selection.visits, List.mem_cons, reduceCtorEq, false_or] at member
      split at member
      · obtain ⟨item, inItems, inside⟩ := mem_visits.1 member
        exact mem_spreadNames.2 ⟨item, inItems, ih item inItems inside⟩
      · cases member
  | spread other =>
      cases List.mem_singleton.1 member
      exact List.mem_singleton.2 rfl
  | inline other items ih =>
      simp only [Selection.visits, List.mem_cons, reduceCtorEq, false_or] at member
      split at member
      · obtain ⟨item, inItems, inside⟩ := mem_visits.1 member
        exact mem_spreadNames.2 ⟨item, inItems, ih item inItems inside⟩
      · cases member

namespace Conformance

variable {schema : Schema}

private theorem visitFaults_eq {root : String} {items : List Selection}
    (agree : registry.AgreeFrom other (spreadNames items)) :
    (visits schema root [] items).flatMap (visitFaults schema registry) =
      (visits schema root [] items).flatMap (visitFaults schema other) := by
  refine List.flatMap_congr fun visit member => ?_
  cases visit with
  | field _ _ _ _ _ => rfl
  | spread parent head =>
      obtain ⟨item, inItems, inside⟩ := mem_visits.1 member
      have spread : head.name ∈ spreadNames items :=
        mem_spreadNames.2 ⟨item, inItems, name_mem_spreadNames_of_visit inside⟩
      rw [visitFaults, visitFaults, spreadIssues, spreadIssues, agree.find?_eq spread]
  | inline _ _ => rfl

private theorem headFaults_eq {definition : Definition}
    (agree : registry.AgreeFrom other (spreadNames definition.selections.items))
    (own : ∀ fragment, definition = .fragment fragment →
      registry.find? fragment.name = some fragment ∧ other.find? fragment.name = some fragment) :
    headFaults schema registry definition = headFaults schema other definition := by
  cases definition with
  | shorthand written => rfl
  | operation declared => rfl
  | fragment declared =>
      obtain ⟨found, otherFound⟩ := own declared rfl
      have cyclic : registry.isCyclic declared.name = other.isCyclic declared.name :=
        FragmentRegistry.AgreeFrom.isCyclic_eq found otherFound agree
      rw [headFaults, headFaults, fragmentFaults, fragmentFaults, cyclic]

private theorem definitionVariableFaults_eq {document : Document} {definition : Definition}
    (agree : registry.AgreeFrom other (spreadNames definition.selections.items)) :
    definitionVariableFaults schema registry document definition =
      definitionVariableFaults schema other document definition := by
  unfold definitionVariableFaults undefinedFaults
  rw [agree.variableNames_eq]

theorem faults_eq (acyclic : registry.FieldAcyclic) (otherAcyclic : other.FieldAcyclic)
    {document : Document} {definition : Definition} (defines : document.Defines definition)
    (agree : registry.AgreeFrom other (spreadNames definition.selections.items))
    (own : ∀ fragment, definition = .fragment fragment →
      registry.find? fragment.name = some fragment ∧ other.find? fragment.name = some fragment) :
    faults schema registry document = faults schema other document := by
  unfold faults
  rw [defines.definition?_eq]
  cases document.rootType? schema with
  | none => rfl
  | some root =>
      simp only [headFaults_eq agree own, definitionVariableFaults_eq agree, visitFaults_eq agree,
        Merge.faults_eq acyclic otherAcyclic agree]

end Conformance

end GraphqlStore
