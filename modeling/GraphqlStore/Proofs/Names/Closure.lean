import GraphqlStore.Fragment.Registry

/-!
The worklist that follows names is exact: it lists the names to which some
names lead in any number of steps, and no others. For fragments this says
what is reachable through spreads, and which fragments are cyclic.
-/

set_option autoImplicit false

namespace GraphqlStore

variable {α : Type}

namespace NameMap

/-- The names to which some names lead, themselves included. -/
inductive Leads (map : NameMap α) (next : α → List String) (starts : List String) : String → Prop where
  | start {name : String} : name ∈ starts → Leads map next starts name
  | step {name other : String} :
      Leads map next starts name → other ∈ map.successors next name → Leads map next starts other

variable {map : NameMap α} {next : α → List String}

theorem Leads.mono {starts others : List String} {name : String}
    (leads : map.Leads next starts name)
    (included : ∀ start ∈ starts, map.Leads next others start) : map.Leads next others name := by
  induction leads with
  | start member => exact included _ member
  | step _ successor ih => exact .step ih successor

private theorem leads_of_mem_reach {seen pending : List String} {name : String}
    (member : name ∈ map.reach next seen pending) : map.Leads next pending name := by
  fun_induction map.reach next seen pending with
  | case1 => simp at member
  | case2 seen first pending _ ih =>
      exact (ih member).mono fun start later => .start (List.mem_cons_of_mem _ later)
  | case3 seen first pending _ ih =>
      rcases List.mem_cons.1 member with rfl | later
      · exact .start List.mem_cons_self
      · refine (ih later).mono fun start found => ?_
        rcases List.mem_append.1 found with successor | waiting
        · exact .step (.start List.mem_cons_self) successor
        · exact .start (List.mem_cons_of_mem _ waiting)

private theorem mem_seen_or_reach {seen pending : List String} {name : String}
    (waiting : name ∈ pending) :
    name ∈ seen ∨ name ∈ map.reach next seen pending := by
  fun_induction map.reach next seen pending with
  | case1 => simp at waiting
  | case2 seen first pending known ih =>
      rcases List.mem_cons.1 waiting with rfl | later
      · exact .inl known
      · exact ih later
  | case3 seen first pending _ ih =>
      rcases List.mem_cons.1 waiting with rfl | later
      · exact .inr List.mem_cons_self
      · rcases ih (List.mem_append_right _ later) with known | found
        · rcases List.mem_cons.1 known with rfl | known
          · exact .inr List.mem_cons_self
          · exact .inl known
        · exact .inr (List.mem_cons_of_mem _ found)

/-- Where seen names lead to seen or pending ones only, seen and listed names together lead
nowhere else. -/
theorem reach_closed {seen pending : List String}
    (closed : ∀ name ∈ seen, ∀ other ∈ map.successors next name, other ∈ seen ∨ other ∈ pending)
    {name other : String} (known : name ∈ seen ∨ name ∈ map.reach next seen pending)
    (successor : other ∈ map.successors next name) :
    other ∈ seen ∨ other ∈ map.reach next seen pending := by
  fun_induction map.reach next seen pending with
  | case1 seen =>
      rcases known with known | listed
      · exact closed name known other successor
      · simp at listed
  | case2 seen first pending firstSeen ih =>
      refine ih (fun inner member target leads => ?_) known
      rcases closed inner member target leads with known | waiting
      · exact .inl known
      · rcases List.mem_cons.1 waiting with rfl | later
        · exact .inl firstSeen
        · exact .inr later
  | case3 seen first pending _ ih =>
      have stillClosed : ∀ inner ∈ first :: seen, ∀ target ∈ map.successors next inner,
          target ∈ first :: seen ∨ target ∈ map.successors next first ++ pending := by
        intro inner member target leads
        rcases List.mem_cons.1 member with rfl | member
        · exact .inr (List.mem_append_left _ leads)
        · rcases closed inner member target leads with known | waiting
          · exact .inl (List.mem_cons_of_mem _ known)
          · rcases List.mem_cons.1 waiting with rfl | later
            · exact .inl List.mem_cons_self
            · exact .inr (List.mem_append_right _ later)
      have moved : ∀ target, target ∈ first :: seen ∨
            target ∈ map.reach next (first :: seen) (map.successors next first ++ pending) ↔
          target ∈ seen ∨
            target ∈ first :: map.reach next (first :: seen) (map.successors next first ++ pending) := by
        intro target
        simp only [List.mem_cons]
        grind
      exact (moved other).1 (ih stillClosed ((moved name).2 known))

theorem mem_reach_iff {starts : List String} {name : String} :
    name ∈ map.reach next [] starts ↔ map.Leads next starts name := by
  refine ⟨leads_of_mem_reach, fun leads => ?_⟩
  have listed : name ∈ ([] : List String) ∨ name ∈ map.reach next [] starts := by
    induction leads with
    | start member => exact mem_seen_or_reach member
    | step _ successor ih => exact reach_closed (by simp) ih successor
  simpa using listed

end NameMap

namespace FragmentRegistry

/-- The fragments, registered or not, to which spreads lead from selections. -/
abbrev Reaches (registry : FragmentRegistry) (selections : List Selection) (name : String) : Prop :=
  registry.Leads spreads (spreadNames selections) name

theorem mem_reachable_iff {registry : FragmentRegistry} {selections : List Selection}
    {name : String} : name ∈ registry.reachable selections ↔ registry.Reaches selections name := by
  rw [reachable, NameSet.mem_ofList, NameMap.mem_reach_iff]

theorem isCyclic_iff {registry : FragmentRegistry} {name : String} :
    registry.isCyclic name = true ↔
      ∃ fragment, registry.find? name = some fragment ∧
        registry.Reaches fragment.selections.items name := by
  cases found : registry.find? name with
  | none => simp [isCyclic, found]
  | some fragment => simp [isCyclic, found, NameSet.contains, mem_reachable_iff]

theorem Reaches.of_spread {registry : FragmentRegistry} {selections : List Selection}
    {spread name : String} {fragment : Fragment} (spreadHere : spread ∈ spreadNames selections)
    (found : registry.find? spread = some fragment)
    (reaches : registry.Reaches fragment.selections.items name) :
    registry.Reaches selections name :=
  reaches.mono fun other member =>
    .step (.start spreadHere) (by simpa [NameMap.successors, found, spreads] using member)

end FragmentRegistry

end GraphqlStore
