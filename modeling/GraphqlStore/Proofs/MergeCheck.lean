import GraphqlStore.Proofs.Scope
import GraphqlStore.Proofs.Sequences
import Mathlib.Data.List.Induction
import Mathlib.Data.List.Nodup
import Mathlib.Data.List.Perm.Subperm

/-!
What the check of response names compares. The fields of a scope under one
name are compared with the first of them, the leader, if their types can
coincide with its type; the selections below those that are compared make up
the next scope. Where nothing is reported, every field that is compared agrees
with its leader, unless the leader passes an argument twice.
-/

set_option autoImplicit false

namespace GraphqlStore

namespace Merge

/-! ## Groups -/

def named (name : String) (scope : List ScopedField) : List ScopedField :=
  scope.filter fun field => field.head.responseName == name

theorem mem_named {name : String} {scope : List ScopedField} {field : ScopedField} :
    field ∈ named name scope ↔ field ∈ scope ∧ field.head.responseName = name := by
  simp [named]

private theorem mem_addToGroup {field : ScopedField} {found : List Group}
    (distinct : (found.map Group.name).Nodup) {group : Group} :
    group ∈ addToGroup field found ↔
      (group ∈ found ∧ group.name ≠ field.head.responseName) ∨
      (∃ other ∈ found, other.name = field.head.responseName ∧
        group = { other with others := other.others ++ [field] }) ∨
      ((∀ other ∈ found, other.name ≠ field.head.responseName) ∧
        group = ⟨field.head.responseName, field, []⟩) := by
  induction found with
  | nil => simp [addToGroup]
  | cons first rest ih =>
      rw [List.map_cons, List.nodup_cons] at distinct
      unfold addToGroup
      split
      · rename_i same
        have others : ∀ other ∈ rest, other.name ≠ field.head.responseName := by
          intro other member equal
          exact distinct.1 (List.mem_map.2 ⟨other, member, equal.trans same.symm⟩)
        grind
      · rename_i different
        rw [List.mem_cons, ih distinct.2]
        grind

private theorem name_mem_addToGroup {field : ScopedField} {found : List Group} {name : String} :
    name ∈ (addToGroup field found).map Group.name ↔
      name = field.head.responseName ∨ name ∈ found.map Group.name := by
  induction found with
  | nil => simp [addToGroup]
  | cons first rest ih =>
      unfold addToGroup
      split
      · rename_i same
        simp [same]
      · rw [List.map_cons, List.mem_cons, ih, List.map_cons, List.mem_cons]
        exact or_left_comm

private theorem addToGroup_distinct (field : ScopedField) {found : List Group}
    (distinct : (found.map Group.name).Nodup) : ((addToGroup field found).map Group.name).Nodup := by
  induction found with
  | nil => simp [addToGroup]
  | cons first rest ih =>
      rw [List.map_cons, List.nodup_cons] at distinct
      unfold addToGroup
      split
      · exact List.nodup_cons.2 distinct
      · rename_i different
        refine List.nodup_cons.2 ⟨fun repeated => ?_, ih distinct.2⟩
        rcases name_mem_addToGroup.1 repeated with same | later
        · exact different same
        · exact distinct.1 later

theorem groups_append (scope : List ScopedField) (field : ScopedField) :
    groups (scope ++ [field]) = addToGroup field (groups scope) := by
  rw [groups, List.foldl_append]
  rfl

private theorem groups_distinct (scope : List ScopedField) :
    ((groups scope).map Group.name).Nodup := by
  induction scope using List.reverseRecOn with
  | nil => exact List.nodup_nil
  | append_singleton scope field ih =>
      rw [groups_append]
      exact addToGroup_distinct field ih

theorem mem_groups {scope : List ScopedField} {group : Group} :
    group ∈ groups scope ↔ named group.name scope = group.first :: group.others := by
  induction scope using List.reverseRecOn generalizing group with
  | nil => simp [groups, named]
  | append_singleton scope field ih =>
      rw [groups_append, mem_addToGroup (groups_distinct scope)]
      have split (name : String) : named name (scope ++ [field]) =
          named name scope ++ if field.head.responseName = name then [field] else [] := by
        by_cases same : field.head.responseName = name <;> simp [named, same]
      rw [split]
      obtain ⟨name, first, others⟩ := group
      by_cases same : field.head.responseName = name
      · subst same
        simp only [ne_eq, not_true_eq_false, and_false, false_or, if_true]
        cases held : named field.head.responseName scope with
        | nil =>
            have new : ∀ other ∈ groups scope, other.name ≠ field.head.responseName := by
              intro other member equal
              rw [ih, equal, held] at member
              cases member
            simp only [List.nil_append, List.cons.injEq, Group.mk.injEq, true_and, eq_comm]
            grind
        | cons leader rest =>
            have only : ⟨field.head.responseName, leader, rest⟩ ∈ groups scope := ih.2 held
            grind
      · rw [if_neg same, List.append_nil, ih]
        grind

/-! ## One scope -/

variable {schema : Schema} {registry : FragmentRegistry}

def conflictsWith (schema : Schema) (name : String) (leader other : ScopedField) : List Fault :=
  if canCoincide schema leader.parent other.parent then
    (conflict? name leader.head other.head).toList.map (Conflict.fault other.position)
  else []

def sharedWith (schema : Schema) (name : String) (leader other : ScopedField) : List Part :=
  if canCoincide schema leader.parent other.parent ∧ conflict? name leader.head other.head = none then
    children schema other
  else []

theorem foldl_append_append {α β γ : Type} {step : List β × List γ → α → List β × List γ}
    {first : α → List β} {second : α → List γ}
    (each : ∀ found item, step found item = (found.1 ++ first item, found.2 ++ second item))
    (items : List α) (found : List β × List γ) :
    items.foldl step found = (found.1 ++ items.flatMap first, found.2 ++ items.flatMap second) := by
  induction items generalizing found with
  | nil => simp
  | cons item rest ih =>
      rw [List.foldl_cons, ih, each]
      simp

theorem compare_eq (schema : Schema) (group : Group) :
    compare schema group =
      (group.others.flatMap (conflictsWith schema group.name group.first),
        children schema group.first ++
          group.others.flatMap (sharedWith schema group.name group.first)) := by
  refine foldl_append_append (fun found other => ?_) group.others ([], children schema group.first)
  by_cases coincide : canCoincide schema group.first.parent other.parent = true
  · cases conflict : conflict? group.name group.first.head other.head <;>
      simp [conflictsWith, sharedWith, coincide, conflict]
  · simp [conflictsWith, sharedWith, coincide]

/-- The field with which the fields of a scope under a name are compared. -/
def leader? (name : String) (scope : List ScopedField) : Option ScopedField :=
  (named name scope).head?

/-- The selections below the fields under a name that can coincide with the leader. -/
def shared (schema : Schema) (name : String) (scope : List ScopedField) : List Part :=
  match leader? name scope with
  | none => []
  | some leader =>
      (named name scope).flatMap fun field =>
        if canCoincide schema leader.parent field.parent then children schema field else []

theorem canCoincide_self (schema : Schema) (type : String) : canCoincide schema type type = true := by
  simp [canCoincide]

/-- Where no conflict is reported in a group, its fields are the same but for repeated arguments, and
all those that are compared go into the next scope. -/
theorem compare_of_silent {scope : List ScopedField} {group : Group} (member : group ∈ groups scope)
    (silent : (compare schema group).1 = []) :
    (∀ field ∈ named group.name scope, canCoincide schema group.first.parent field.parent = true →
      field = group.first ∨ conflict? group.name group.first.head field.head = none) ∧
    (compare schema group).2 = shared schema group.name scope := by
  have held := mem_groups.1 member
  rw [compare_eq] at silent ⊢
  have sound : ∀ other ∈ group.others, canCoincide schema group.first.parent other.parent = true →
      conflict? group.name group.first.head other.head = none := by
    intro other inOthers coincide
    have none := List.flatMap_eq_nil_iff.1 silent other inOthers
    simpa [conflictsWith, coincide] using none
  refine ⟨fun field inNamed coincide => ?_, ?_⟩
  · rw [held, List.mem_cons] at inNamed
    exact inNamed.imp_right fun later => sound field later coincide
  · rw [shared, leader?, held]
    simp only [List.head?_cons, List.flatMap_cons, canCoincide_self, if_true]
    congr 1
    refine List.flatMap_congr fun other inOthers => ?_
    by_cases coincide : canCoincide schema group.first.parent other.parent = true
    · simp [sharedWith, coincide, sound other inOthers coincide]
    · simp [sharedWith, coincide]

/-- The conflicts of a group and of the scopes below it, down to a depth. -/
def groupFaults? (schema : Schema) (registry : FragmentRegistry) (depth : Nat) (group : Group) :
    Option (List Fault) :=
  if (compare schema group).2.isEmpty then some (compare schema group).1
  else (faults? schema registry depth (compare schema group).2).map ((compare schema group).1 ++ ·)

theorem faults?_succ (schema : Schema) (registry : FragmentRegistry) (depth : Nat)
    (scope : List Part) :
    faults? schema registry (depth + 1) scope =
      ((groups (fields registry [] scope)).mapM (groupFaults? schema registry depth)).map
        List.flatten := by
  rw [faults?, Option.map_eq_bind]
  rfl

/-- A scope of which nothing is reported: under each name, what is compared with the leader is the
same but for repeated arguments, and of the scope that they share nothing is reported either. -/
theorem faults?_succ_of_silent {depth : Nat} {scope : List Part}
    (silent : faults? schema registry (depth + 1) scope = some []) {name : String}
    {leader : ScopedField} (leads : leader? name (fields registry [] scope) = some leader) :
    (∀ field ∈ named name (fields registry [] scope),
      canCoincide schema leader.parent field.parent = true →
        field = leader ∨ conflict? name leader.head field.head = none) ∧
    (shared schema name (fields registry [] scope) = [] ∨
      faults? schema registry depth (shared schema name (fields registry [] scope)) = some []) := by
  obtain ⟨others, held⟩ := List.head?_eq_some_iff.1 leads
  have member : ⟨name, leader, others⟩ ∈ groups (fields registry [] scope) := mem_groups.2 held
  rw [faults?_succ, Option.map_eq_some_iff] at silent
  obtain ⟨found, all, none⟩ := silent
  have here := forall_of_mapM_flatten all none _ member
  unfold groupFaults? at here
  split at here
  · rename_i empty
    obtain ⟨agree, below⟩ := compare_of_silent member (Option.some.inj here)
    refine ⟨agree, .inl ?_⟩
    rw [← below]
    exact List.isEmpty_iff.1 empty
  · rw [Option.map_eq_some_iff] at here
    obtain ⟨inner, found, both⟩ := here
    rw [List.append_eq_nil_iff] at both
    obtain ⟨agree, below⟩ := compare_of_silent member both.1
    refine ⟨agree, .inr ?_⟩
    rw [← below, found, both.2]

/-! ## All scopes -/

/-- The leader with which a field is compared, if every field above it is compared with one and is
declared by its type. -/
def leaderAt? (schema : Schema) (registry : FragmentRegistry) :
    List Part → List Level → Level → Option ScopedField
  | scope, [], last =>
      (leader? last.head.responseName (fields registry [] scope)).filter fun leader =>
        canCoincide schema leader.parent last.parent
  | scope, level :: above, last =>
      match leader? level.head.responseName (fields registry [] scope),
        schema.field? level.parent level.head.name with
      | some leader, some (.declared _) =>
          if canCoincide schema leader.parent level.parent then
            leaderAt? schema registry
              (shared schema level.head.responseName (fields registry [] scope)) above last
          else none
      | _, _ => none

theorem exists_field_of_brings {scope : List Part} {part : Part} (member : part ∈ scope)
    {level : Level} {below : List Selection}
    (brings : part.selection.Brings registry.find? part.parent level below) :
    ∃ field ∈ fields registry [] scope, field.level = level ∧ field.items = below := by
  rw [mem_fields, FragmentRegistry.without_nil]
  exact ⟨part, member, brings⟩

private theorem mem_shared {scope : List ScopedField} {name : String} {leader field : ScopedField}
    (leads : leader? name scope = some leader) (inNamed : field ∈ named name scope)
    (coincide : canCoincide schema leader.parent field.parent = true) {declared : FieldDef}
    (resolved : schema.field? field.parent field.head.name = some (.declared declared))
    {inner : Selection} (inBelow : inner ∈ field.items) :
    ⟨declared.type.base, field.via, inner⟩ ∈ shared schema name scope := by
  simp only [shared, leads, List.mem_flatMap]
  refine ⟨field, inNamed, ?_⟩
  rw [if_pos coincide, children, resolved]
  exact List.mem_map.2 ⟨inner, inBelow, rfl⟩

private theorem conflict?_leaderAt? {depth : Nat} {scope : List Part} {above : List Level}
    {last : Level}
    (silent : faults? schema registry depth scope = some []) {part : Part} (member : part ∈ scope)
    (occurs : part.selection.Occurs schema registry.find? part.parent above last)
    {leader : ScopedField} (leads : leaderAt? schema registry scope above last = some leader) :
    last.head = leader.head ∨
      conflict? last.head.responseName leader.head last.head = none := by
  induction above generalizing depth scope part with
  | nil =>
      cases depth with
      | zero => cases silent
      | succ depth =>
          cases occurs with
          | here brings =>
              rw [leaderAt?, Option.filter_eq_some_iff] at leads
              obtain ⟨field, inFields, rfl, _⟩ := exists_field_of_brings member brings
              exact ((faults?_succ_of_silent silent leads.1).1 field
                (mem_named.2 ⟨inFields, rfl⟩) leads.2).imp_left (congrArg ScopedField.head)
  | cons level above ih =>
      cases depth with
      | zero => cases silent
      | succ depth =>
          cases occurs with
          | inside brings resolved inBelow inside =>
              obtain ⟨field, inFields, rfl, rfl⟩ := exists_field_of_brings member brings
              rw [leaderAt?] at leads
              split at leads
              · rename_i first declared leadsHere found
                split at leads
                · rename_i coincide
                  cases found.symm.trans resolved
                  have inShared := mem_shared leadsHere (mem_named.2 ⟨inFields, rfl⟩) coincide
                    resolved inBelow
                  rcases (faults?_succ_of_silent silent leadsHere).2 with empty | below
                  · rw [empty] at inShared
                    cases inShared
                  · exact ih below inShared inside leads
                · cases leads
              · cases leads

/-! ## Agreement -/

/-- Both fields are compared with one leader, and it passes no argument twice. -/
def Covers (schema : Schema) (registry : FragmentRegistry) (root : String) (items : List Selection)
    (firstAbove : List Level) (first : Level) (secondAbove : List Level) (second : Level) : Prop :=
  ∃ leader, leaderAt? schema registry (parts root none items) firstAbove first = some leader ∧
    leaderAt? schema registry (parts root none items) secondAbove second = some leader ∧
    (leader.head.arguments.map Prod.fst).Nodup

private theorem mem_of_argument? {name : String} {arguments : List Argument} {value : Value}
    (found : argument? name arguments = some value) : (name, value) ∈ arguments := by
  induction arguments with
  | nil => cases found
  | cons argument rest ih =>
      obtain ⟨other, given⟩ := argument
      rw [argument?] at found
      split at found
      · rename_i same
        rw [← same, ← Option.some.inj found]
        exact List.mem_cons_self
      · exact List.mem_cons_of_mem _ (ih found)

/-- Lists of equal length, of which the first has no name twice, pass the same arguments if all of
the first are in the second. -/
theorem within_of_sameArguments {first second : List Argument}
    (distinct : (first.map Prod.fst).Nodup) (same : sameArguments first second = true) :
    ArgumentsWithin first second ∧ ArgumentsWithin second first := by
  simp only [sameArguments, Bool.and_eq_true, beq_iff_eq, List.all_eq_true, Option.any_eq_true] at same
  obtain ⟨length, each⟩ := same
  have names : ∀ name ∈ first.map Prod.fst, name ∈ second.map Prod.fst := by
    intro name member
    obtain ⟨argument, inFirst, rfl⟩ := List.mem_map.1 member
    obtain ⟨value, found, _⟩ := each argument inFirst
    exact List.mem_map.2 ⟨_, mem_of_argument? found, rfl⟩
  have permuted : (first.map Prod.fst).Perm (second.map Prod.fst) :=
    (List.Nodup.subperm distinct names).perm_of_length_le (by simp [length])
  refine ⟨fun argument inFirst => ?_, fun argument inSecond => ?_⟩
  · obtain ⟨value, found, sameValue⟩ := each argument inFirst
    exact ⟨_, mem_of_argument? found, rfl, sameValue⟩
  · have known : argument.1 ∈ first.map Prod.fst :=
      permuted.mem_iff.2 (List.mem_map.2 ⟨argument, inSecond, rfl⟩)
    obtain ⟨other, inFirst, sameName⟩ := List.mem_map.1 known
    obtain ⟨value, found, sameValue⟩ := each other inFirst
    have equal : argument = (other.1, value) :=
      List.inj_on_of_nodup_map (permuted.nodup_iff.1 distinct) inSecond (mem_of_argument? found)
        sameName.symm
    refine ⟨other, inFirst, sameName, Value.same_symm ?_⟩
    rw [equal]
    exact sameValue

private theorem agrees_of_conflict? {name : String} {leader other : Field}
    (distinct : (leader.arguments.map Prod.fst).Nodup) (none : conflict? name leader other = none) :
    leader.Agrees other := by
  unfold conflict? at none
  split at none
  · cases none
  · rename_i sameName
    split at none
    · rename_i same
      obtain ⟨forth, back⟩ := within_of_sameArguments distinct same
      exact ⟨not_not.1 sameName, forth, back⟩
    · cases none

theorem agrees_of_covers {depth : Nat} {root : String} {items : List Selection}
    (silent : faults? schema registry depth (parts root none items) = some [])
    {firstAbove secondAbove : List Level} {first second : Level}
    (firstOccurs : Occurs schema registry.find? root items firstAbove first)
    (secondOccurs : Occurs schema registry.find? root items secondAbove second)
    (covers : Covers schema registry root items firstAbove first secondAbove second) :
    first.head.Agrees second.head := by
  obtain ⟨leader, firstLeads, secondLeads, distinct⟩ := covers
  have withLeader {above : List Level} {last : Level}
      (occurs : Occurs schema registry.find? root items above last)
      (leads : leaderAt? schema registry (parts root none items) above last = some leader) :
      leader.head.Agrees last.head := by
    obtain ⟨item, member, occurs⟩ := occurs
    rcases conflict?_leaderAt? silent
        (List.mem_map.2 ⟨item, member, rfl⟩ : (⟨root, none, item⟩ : Part) ∈ parts root none items)
        occurs leads with same | none
    · rw [same]
      exact .refl _
    · exact agrees_of_conflict? distinct none
  exact (withLeader firstOccurs firstLeads).symm.trans (withLeader secondOccurs secondLeads)

end Merge

end GraphqlStore
