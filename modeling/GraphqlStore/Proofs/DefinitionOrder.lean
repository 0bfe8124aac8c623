import GraphqlStore.Proofs.SourceOrder
import GraphqlStore.Proofs.TypeExtensions

/-!
The order of definitions does not matter for a type system. Types are declared
first, extensions are applied to them, and interfaces learn their implementors
last; the first two are runs of steps that may be swapped, up to the order of
members, and the last looks at the result only. A refusal may come from another
definition in another order, but it comes in every order.
-/

set_option autoImplicit false

namespace GraphqlStore

/-! ## Maps -/

namespace NameMap

variable {α : Type}

theorem find?_insert (map : NameMap α) (name other : String) (value : α) :
    (map.insert name value).find? other = if name = other then some value else map.find? other := by
  split
  · next same => exact same ▸ find?_insert_self map name value
  · next different => exact find?_insert_of_ne map value different

private theorem insert_comm (map : NameMap α) {name other : String} (different : name ≠ other)
    (value more : α) :
    (map.insert name value).insert other more = (map.insert other more).insert name value := by
  refine ext_find? fun key => ?_
  simp only [find?_insert]
  by_cases one : name = key
  · simp [one, one ▸ different.symm]
  · simp [one]

private theorem insert_insert (map : NameMap α) (name : String) (value more : α) :
    (map.insert name value).insert name more = map.insert name more := by
  refine ext_find? fun key => ?_
  simp only [find?_insert]
  split <;> rfl

private theorem find?_modify (map : NameMap α) (name other : String) (change : α → α) :
    (map.modify name change).find? other =
      if name = other then (map.find? other).map change else map.find? other := by
  by_cases same : name = other
  · subst same
    rw [if_pos rfl]
    cases found : map.find? name with
    | none => simp only [modify, found, Option.map_none]
    | some value => simp only [modify, found, find?_insert_self, Option.map_some]
  · rw [if_neg same]
    unfold modify
    split
    · exact find?_insert_of_ne map _ same
    · rfl

def Related (related : α → α → Prop) (first second : NameMap α) : Prop :=
  ∀ name, Option.Rel related (first.find? name) (second.find? name)

namespace Related

variable {related : α → α → Prop}

theorem refl (reflexive : ∀ value, related value value) (map : NameMap α) :
    Related related map map := by
  intro name
  cases map.find? name with
  | none => exact .none
  | some value => exact .some (reflexive value)

theorem trans (transitive : ∀ one two three, related one two → related two three → related one three)
    (first second third : NameMap α) (one : Related related first second)
    (two : Related related second third) : Related related first third :=
  fun name => rel_trans (one name) (two name) transitive

theorem imp {other : α → α → Prop} {first second : NameMap α} (same : Related related first second)
    (each : ∀ {one two}, related one two → other one two) : Related other first second := by
  intro name
  rcases none_or_some (same name) with ⟨here, there⟩ | ⟨_, _, here, there, known⟩
  · rw [here, there]
    exact .none
  · rw [here, there]
    exact .some (each known)

theorem insert {first second : NameMap α} (same : Related related first second) (name : String)
    {value more : α} (here : related value more) :
    Related related (first.insert name value) (second.insert name more) := by
  intro other
  rw [find?_insert, find?_insert]
  split
  · exact .some here
  · exact same other

private theorem contains_eq {first second : NameMap α} (same : Related related first second)
    (name : String) :
    first.contains name = second.contains name := by
  unfold contains
  rcases none_or_some (same name) with ⟨here, there⟩ | ⟨_, _, here, there, _⟩
  · rw [here, there]
  · rw [here, there]
    rfl

end Related

end NameMap

/-! ## Types -/

namespace SchemaDefinition

def declared? : SchemaDefinition → Option (String × TypeBody)
  | .type name body => some (name, body)
  | _ => none

def extension? : SchemaDefinition → Option (String × TypeBody)
  | .extension name body => some (name, body)
  | _ => none

def roots? : SchemaDefinition → Option SchemaRoots
  | .roots named => some named
  | .type _ _ | .directive _ | .extension _ _ => none

end SchemaDefinition

/-- Types with the same members and implementors. -/
structure TypeDef.Alike (first second : TypeDef) : Prop where
  body : first.body.Alike second.body
  implementors : first.implementors = second.implementors

namespace TypeDef.Alike

theorem refl (type : TypeDef) : type.Alike type := ⟨.refl type.body, rfl⟩

theorem trans (first second third : TypeDef) (one : first.Alike second) (two : second.Alike third) :
    first.Alike third :=
  ⟨one.body.trans two.body, one.implementors.trans two.implementors⟩

end TypeDef.Alike

namespace Schema

def declareType (types : NameMap TypeDef) (declared : String × TypeBody) :
    Except SchemaError (NameMap TypeDef) :=
  if types.contains declared.1 && !builtinScalars.contains declared.1 then
    .error (.duplicateType declared.1)
  else .ok (types.insert declared.1 ⟨declared.2.distinct, NameSet.empty⟩)

theorem declareTypes_eq_foldlM (types : NameMap TypeDef) (definitions : List SchemaDefinition) :
    declareTypes types definitions =
      (definitions.filterMap SchemaDefinition.declared?).foldlM declareType types := by
  induction definitions generalizing types with
  | nil => rfl
  | cons first rest ih =>
      cases first with
      | type name body =>
          rw [declareTypes, List.filterMap_cons_some (f := SchemaDefinition.declared?) rfl,
            List.foldlM_cons, declareType]
          split
          · rfl
          · exact ih _
      | _ => exact ih types

theorem declareType_eq {declared : String × TypeBody} (new : declared.1 ∉ builtinScalars)
    (types : NameMap TypeDef) :
    declareType types declared = putNew NameMap.contains Prod.fst
      (fun types declared => types.insert declared.1 ⟨declared.2.distinct, NameSet.empty⟩)
      (fun declared => SchemaError.duplicateType declared.1) types declared := by
  simp [declareType, putNew, new]

private theorem declareType_comm {first second : String × TypeBody}
    (one : first.1 ∉ builtinScalars) (two : second.1 ∉ builtinScalars) (types : NameMap TypeDef) :
    Concur Eq (declareType types first >>= (declareType · second))
      (declareType types second >>= (declareType · first)) := by
  simp only [declareType_eq one, declareType_eq two]
  refine putNew_comm _ ?_ ?_ first second types
  · intro types declared name
    unfold NameMap.contains
    rw [NameMap.find?_insert]
    split
    · next same => simp [same]
    · next different => simp [Ne.symm different]
  · intro types one two different
    exact NameMap.insert_comm types different _ _

/-- What a type becomes when it is extended, if it is there. -/
def extended (type? : Option TypeDef) (extension : String × TypeBody) : Except SchemaError TypeDef :=
  type?.elim (.error (.unknownExtension extension.1)) fun type => do
    let body ← type.body.extend extension.1 extension.2.distinct
    return { type with body }

def extendType (types : NameMap TypeDef) (extension : String × TypeBody) :
    Except SchemaError (NameMap TypeDef) := do
  let type ← extended (types.find? extension.1) extension
  return types.insert extension.1 type

theorem extendTypes_eq_foldlM (types : NameMap TypeDef) (definitions : List SchemaDefinition) :
    extendTypes types definitions =
      (definitions.filterMap SchemaDefinition.extension?).foldlM extendType types := by
  induction definitions generalizing types with
  | nil => rfl
  | cons first rest ih =>
      cases first with
      | extension name body =>
          rw [extendTypes, List.filterMap_cons_some (f := SchemaDefinition.extension?) rfl,
            List.foldlM_cons, extendType]
          cases found : types.find? name with
          | none => rfl
          | some type => simp only [extended, Option.elim_some, bind_assoc, pure_bind, ih]
      | _ => exact ih types

private theorem extended_congr (extension : String × TypeBody) {first second : Option TypeDef}
    (alike : Option.Rel TypeDef.Alike first second) :
    Concur TypeDef.Alike (extended first extension) (extended second extension) := by
  cases alike with
  | none => exact .refused
  | some alike =>
      exact (TypeBody.extend_congr extension.1 extension.2.distinct alike.body).map
        fun body => ⟨body, alike.implementors⟩

private theorem extended_comm (type? : Option TypeDef) {first second : String × TypeBody}
    (same : first.1 = second.1) :
    Concur TypeDef.Alike (extended type? first >>= fun type => extended (some type) second)
      (extended type? second >>= fun type => extended (some type) first) := by
  cases type? with
  | none => exact .refused
  | some type =>
      simp only [extended, Option.elim_some, bind_assoc, pure_bind]
      simp only [← bind_assoc, same]
      exact (TypeBody.extend_comm second.1 type.body first.2.distinct second.2.distinct).map
        fun body => ⟨body, rfl⟩

private theorem extendType_congr (extension : String × TypeBody) {first second : NameMap TypeDef}
    (alike : NameMap.Related TypeDef.Alike first second) :
    Concur (NameMap.Related TypeDef.Alike) (extendType first extension)
      (extendType second extension) :=
  (extended_congr extension (alike extension.1)).map fun here => alike.insert extension.1 here

private theorem extendType_comm (first second : String × TypeBody) (types : NameMap TypeDef) :
    Concur (NameMap.Related TypeDef.Alike) (extendType types first >>= (extendType · second))
      (extendType types second >>= (extendType · first)) := by
  have unchanged := NameMap.Related.refl TypeDef.Alike.refl
  by_cases same : first.1 = second.1
  · simp only [extendType, bind_assoc, pure_bind, same, NameMap.find?_insert_self,
      NameMap.insert_insert]
    simp only [← bind_assoc]
    exact (extended_comm (types.find? second.1) same).map
      fun here => (unchanged types).insert second.1 here
  · simp only [extendType, bind_assoc, pure_bind, NameMap.find?_insert_of_ne types _ same,
      NameMap.find?_insert_of_ne types _ (Ne.symm same), NameMap.insert_comm types same]
    cases extended (types.find? first.1) first <;> cases extended (types.find? second.1) second
    case ok.ok => exact .accepted (unchanged _)
    all_goals exact .refused

/-! ## Implementors -/

/-- The objects with the interfaces that they name. -/
def links (types : NameMap TypeDef) : List (String × String) :=
  types.entries.flatMap fun entry => entry.2.body.interfaces.map (entry.1, ·)

theorem mem_links_iff {types : NameMap TypeDef} {object interface : String} :
    (object, interface) ∈ links types ↔
      ∃ type, types.find? object = some type ∧ interface ∈ type.body.interfaces := by
  unfold links
  rw [List.mem_flatMap]
  constructor
  · rintro ⟨⟨name, type⟩, member, named⟩
    obtain ⟨found, present, same⟩ := List.mem_map.1 named
    cases same
    exact ⟨type, (NameMap.mem_iff_lookup types.increasing).1 member, present⟩
  · rintro ⟨type, found, present⟩
    exact ⟨(object, type), (NameMap.mem_iff_lookup types.increasing).2 found,
      List.mem_map.2 ⟨interface, present, rfl⟩⟩

theorem linkInterfaces_eq_foldl (types : NameMap TypeDef) :
    linkInterfaces types =
      (links types).foldl (fun linked link => addImplementor linked link.1 link.2) types := by
  simp only [linkInterfaces, links, List.foldl_flatMap, List.foldl_map]

/-- A type after the interfaces of some objects were linked. -/
structure Linked (links : List (String × String)) (name : String) (before after : TypeDef) : Prop where
  body : after.body = before.body
  implementors : ∀ object, object ∈ after.implementors ↔
    object ∈ before.implementors ∨ (object, name) ∈ links

private theorem linked_addImplementor (types : NameMap TypeDef) (object interface name : String) :
    Option.Rel (Linked [(object, interface)] name) (types.find? name)
      ((addImplementor types object interface).find? name) := by
  unfold addImplementor
  rw [NameMap.find?_modify]
  cases types.find? name with
  | none => split <;> exact .none
  | some type =>
      split
      · next same =>
          refine .some ⟨rfl, fun other => ?_⟩
          simp [NameSet.mem_insert, same, or_comm]
      · next different =>
          refine .some ⟨rfl, fun other => ?_⟩
          simp [Ne.symm different]

theorem linked_foldl (added : List (String × String)) (types : NameMap TypeDef) (name : String) :
    Option.Rel (Linked added name) (types.find? name)
      ((added.foldl (fun linked link => addImplementor linked link.1 link.2) types).find? name) := by
  induction added generalizing types with
  | nil =>
      rw [List.foldl_nil]
      cases types.find? name with
      | none => exact .none
      | some type => exact .some ⟨rfl, fun object => by simp⟩
  | cons link rest ih =>
      refine rel_trans (linked_addImplementor types link.1 link.2 name) (ih _) ?_
      intro before between after here later
      refine ⟨later.body.trans here.body, fun object => ?_⟩
      rw [later.implementors, here.implementors, List.mem_singleton, List.mem_cons, or_assoc]

private theorem linkInterfaces_alike {first second : NameMap TypeDef}
    (alike : NameMap.Related TypeDef.Alike first second) :
    NameMap.Related TypeDef.Alike (linkInterfaces first) (linkInterfaces second) := by
  have same (object interface : String) :
      (object, interface) ∈ links first ↔ (object, interface) ∈ links second := by
    rw [mem_links_iff, mem_links_iff]
    rcases none_or_some (alike object) with ⟨one, two⟩ | ⟨_, _, one, two, here⟩
    · simp [one, two]
    · simp [one, two, here.body.interfaces.mem_iff]
  intro name
  rw [linkInterfaces_eq_foldl, linkInterfaces_eq_foldl]
  have left : Option.Rel
      (fun after other => ∃ start, Linked (links first) name start after ∧ start.Alike other)
      (((links first).foldl (fun linked link => addImplementor linked link.1 link.2) first).find? name)
      (second.find? name) :=
    rel_trans (rel_symm (linked_foldl (links first) first name)) (alike name)
      fun after start other linked alike => ⟨start, linked, alike⟩
  refine rel_trans left (linked_foldl (links second) second name) ?_
  rintro after before other ⟨start, one, here⟩ two
  refine ⟨?_, NameSet.ext fun object => ?_⟩
  · rw [one.body, two.body]
    exact here.body
  · rw [one.implementors, two.implementors, here.implementors, same]

/-! ## Roots and directives -/

section Roots

variable {first second : NameMap TypeDef} (alike : NameMap.Related TypeDef.Alike first second)
include alike

private theorem rootOr_eq (named : Option String) (usual : String) :
    rootOr first named usual = rootOr second named usual := by
  unfold rootOr
  rw [alike.contains_eq]

theorem checkRoot_eq (query name : String) :
    checkRoot first query name = checkRoot second query name := by
  unfold checkRoot
  rcases none_or_some (alike name) with ⟨one, two⟩ | ⟨type, other, one, two, here⟩
  · rw [one, two]
  · have kind : type.kind = other.kind := here.body.kind
    rw [one, two]
    simp only [kind]

private theorem checkRoot?_eq (query : String) (name? : Option String) :
    checkRoot? first query name? = checkRoot? second query name? := by
  cases name? with
  | none => rfl
  | some name => exact checkRoot_eq alike query name

end Roots

private theorem declaredRoots_eq_foldl (definitions : List SchemaDefinition) :
    declaredRoots definitions =
      (definitions.filterMap SchemaDefinition.roots?).foldl (fun _ named => named)
        ⟨none, none, none⟩ := by
  unfold declaredRoots
  generalize (⟨none, none, none⟩ : SchemaRoots) = start
  induction definitions generalizing start with
  | nil => rfl
  | cons first rest ih => cases first <;> exact ih _

private theorem declaredRoots_eq_of_perm {definitions others : List SchemaDefinition}
    (perm : definitions.Perm others)
    (single : (definitions.filterMap SchemaDefinition.roots?).length ≤ 1) :
    declaredRoots definitions = declaredRoots others := by
  have same := perm.filterMap SchemaDefinition.roots?
  rw [declaredRoots_eq_foldl, declaredRoots_eq_foldl]
  cases blocks : definitions.filterMap SchemaDefinition.roots? with
  | nil =>
      rw [blocks] at same
      rw [List.nil_perm.1 same]
  | cons named rest =>
      rw [blocks] at single same
      obtain rfl : rest = [] := List.eq_nil_of_length_eq_zero (by simpa using single)
      rw [List.singleton_perm.1 same]

private theorem declaredDirectives_eq_of_perm {definitions others : List SchemaDefinition}
    (perm : definitions.Perm others) : declaredDirectives definitions = declaredDirectives others := by
  refine NameSet.ext fun name => ?_
  unfold declaredDirectives
  rw [NameSet.mem_ofList, NameSet.mem_ofList, (perm.filterMap _).mem_iff]

end Schema

/-! ## Schemas -/

/-- Types that differ in the order of their members at most. -/
structure TypeDef.SameMembers (first second : TypeDef) : Prop where
  kind : first.kind = second.kind
  fields : first.body.fields.Perm second.body.fields
  interfaces : first.body.interfaces.Perm second.body.interfaces
  enumValues : first.body.enumValues.Perm second.body.enumValues
  inputFields : first.body.inputFields.Perm second.body.inputFields
  possible : first.possible = second.possible

theorem TypeDef.Alike.sameMembers {first second : TypeDef} (alike : first.Alike second) :
    first.SameMembers second where
  kind := alike.body.kind
  fields := alike.body.fields
  interfaces := alike.body.interfaces
  enumValues := alike.body.enumValues
  inputFields := alike.body.inputFields
  possible := by
    refine NameSet.ext fun name => ?_
    unfold TypeDef.possible
    rw [NameSet.mem_union, NameSet.mem_union, NameSet.mem_ofList, NameSet.mem_ofList,
      alike.body.members.mem_iff, alike.implementors]

namespace Schema

/-- Type systems that differ in the order of the members of their types at most. -/
structure SameTypes (first second : Schema) : Prop where
  query : first.query = second.query
  mutation : first.mutation = second.mutation
  subscription : first.subscription = second.subscription
  directives : first.directives = second.directives
  types : NameMap.Related TypeDef.SameMembers first.types second.types

private theorem declareTypes_perm {definitions others : List SchemaDefinition}
    (perm : definitions.Perm others)
    (new : ∀ name body, .type name body ∈ definitions → name ∉ builtinScalars)
    (types : NameMap TypeDef) :
    Concur Eq (declareTypes types definitions) (declareTypes types others) := by
  rw [declareTypes_eq_foldlM, declareTypes_eq_foldlM]
  refine foldlM_perm (fun _ => rfl) (fun _ _ _ => Eq.trans) ?_
    (fun declared => declared.1 ∉ builtinScalars) ?_ (perm.filterMap _) ?_ rfl
  · rintro declared types _ rfl
    exact Concur.refl (fun _ => rfl) _
  · intro one two here there types
    exact declareType_comm here there types
  · intro declared member
    obtain ⟨definition, defined, found⟩ := List.mem_filterMap.1 member
    cases definition with
    | type name body =>
        cases found
        exact new name body defined
    | _ => cases found

private theorem extendTypes_perm {definitions others : List SchemaDefinition}
    (perm : definitions.Perm others) (types : NameMap TypeDef) :
    Concur (NameMap.Related TypeDef.Alike) (extendTypes types definitions)
      (extendTypes types others) := by
  rw [extendTypes_eq_foldlM, extendTypes_eq_foldlM]
  exact foldlM_perm (NameMap.Related.refl TypeDef.Alike.refl)
    (NameMap.Related.trans TypeDef.Alike.trans) (fun extension => extendType_congr extension)
    (fun _ => True) (fun one two _ _ => extendType_comm one two) (perm.filterMap _)
    (fun _ _ => trivial) (NameMap.Related.refl TypeDef.Alike.refl types)

private theorem ofDefinitions_sameTypes {definitions others : List SchemaDefinition}
    (perm : definitions.Perm others)
    (single : (definitions.filterMap SchemaDefinition.roots?).length ≤ 1)
    (new : ∀ name body, .type name body ∈ definitions → name ∉ builtinScalars) :
    Concur SameTypes (ofDefinitions definitions) (ofDefinitions others) := by
  unfold ofDefinitions
  refine (declareTypes_perm perm new builtinTypes).bind ?_
  rintro declared _ rfl
  refine (extendTypes_perm perm declared).bind ?_
  intro one two extended
  have alike := linkInterfaces_alike extended
  simp only [rootOr_eq alike, checkRoot_eq alike, checkRoot?_eq alike,
    declaredRoots_eq_of_perm perm single, declaredDirectives_eq_of_perm perm]
  cases rootOr (linkInterfaces two) (declaredRoots others).query "Query" with
  | none => exact .refused
  | some query =>
      refine .after _ fun _ => .after _ fun _ => .after _ fun _ => ?_
      exact .accepted ⟨rfl, rfl, rfl, rfl, alike.imp TypeDef.Alike.sameMembers⟩

def gatheredText : String :=
  "type Query \x7b a: Int \x7d interface Node \x7b id: ID \x7d " ++
    "extend type Query \x7b b: Int \x7d extend type Query implements Node \x7b id: ID \x7d"

/-- The same definitions, the extensions first and the other way round. -/
def scatteredText : String :=
  "extend type Query implements Node \x7b id: ID \x7d interface Node \x7b id: ID \x7d " ++
    "extend type Query \x7b b: Int \x7d type Query \x7b a: Int \x7d"

/-- Definitions in another order give the same type system, or none in either order. -/
theorem parse_definitionOrder {definitions others : List SchemaDefinition}
    (perm : definitions.Perm others)
    (single : (definitions.filterMap SchemaDefinition.roots?).length ≤ 1)
    (new : ∀ name body, .type name body ∈ definitions → name ∉ builtinScalars) :
    Concur SameTypes (ofDefinitions definitions) (ofDefinitions others) ∧
      ∀ text other, SchemaDefinition.parse text = .ok definitions →
        SchemaDefinition.parse other = .ok others → Concur SameTypes (parse text) (parse other) := by
  have concur := ofDefinitions_sameTypes perm single new
  refine ⟨concur, ?_⟩
  intro text other read reordered
  unfold parse
  rw [read, reordered]
  exact concur

theorem parse_definitionOrder_extensions :
    (parse gatheredText).toOption.isSome = true ∧
      Concur SameTypes (parse gatheredText) (parse scatteredText) := by
  refine ⟨by decide +kernel, ?_⟩
  have perm : [SchemaDefinition.type "Query" (.object [⟨"a", .named "Int", []⟩] []),
      .type "Node" (.interface [⟨"id", .named "ID", []⟩]),
      .extension "Query" (.object [⟨"b", .named "Int", []⟩] []),
      .extension "Query" (.object [⟨"id", .named "ID", []⟩] ["Node"])].Perm
      [.extension "Query" (.object [⟨"id", .named "ID", []⟩] ["Node"]),
        .type "Node" (.interface [⟨"id", .named "ID", []⟩]),
        .extension "Query" (.object [⟨"b", .named "Int", []⟩] []),
        .type "Query" (.object [⟨"a", .named "Int", []⟩] [])] := by
    decide +kernel
  refine (parse_definitionOrder perm (by decide +kernel) ?_).2 gatheredText scatteredText
    (by decide +kernel) (by decide +kernel)
  intro name body member
  simp only [List.mem_cons, SchemaDefinition.type.injEq, reduceCtorEq, List.not_mem_nil,
    or_false] at member
  rcases member with ⟨rfl, _⟩ | ⟨rfl, _⟩
  · decide
  · decide

end Schema

end GraphqlStore
