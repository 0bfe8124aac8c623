import GraphqlStore.Proofs.DefinitionOrder
import GraphqlStore.Proofs.Names.Closure
import GraphqlStore.Proofs.ReadNames
import GraphqlStore.Schema.InputTypes

/-!
Input types of a type system that was read from a text. Each type is met once
on the way through input fields, however these lead back to types met before;
types are called by names, and the fields of one input type by different ones.
-/

set_option autoImplicit false

namespace GraphqlStore

/-! ## Reachable types -/

namespace NameMap

variable {α : Type} {map : NameMap α} {next : α → List String}

private theorem not_mem_seen_of_mem_reach {seen pending : List String} {name : String}
    (member : name ∈ map.reach next seen pending) : name ∉ seen := by
  fun_induction map.reach next seen pending with
  | case1 => cases member
  | case2 seen first pending _ ih => exact ih member
  | case3 seen first pending fresh ih =>
      rcases List.mem_cons.1 member with rfl | later
      · exact fresh
      · intro known
        exact ih later (List.mem_cons_of_mem _ known)

theorem nodup_reach (seen pending : List String) : (map.reach next seen pending).Nodup := by
  fun_induction map.reach next seen pending with
  | case1 => exact List.nodup_nil
  | case2 seen first pending _ ih => exact ih
  | case3 seen first pending _ ih =>
      refine List.nodup_cons.2 ⟨?_, ih⟩
      intro again
      exact not_mem_seen_of_mem_reach again List.mem_cons_self

end NameMap

namespace Schema

/-- The types to which a type leads through fields of input types, itself included. -/
inductive InputReaches (schema : Schema) (start : String) : String → Prop where
  | self : InputReaches schema start start
  | field {name : String} {type : TypeDef} {field : InputValue} :
      InputReaches schema start name → schema.type? name = some type →
        field ∈ type.body.inputFields → InputReaches schema start field.type.base

theorem mem_successors_iff {schema : Schema} {name other : String} :
    other ∈ schema.types.successors TypeDef.inputTypes name ↔
      ∃ type, schema.type? name = some type ∧
        ∃ field ∈ type.body.inputFields, field.type.base = other := by
  unfold NameMap.successors type?
  cases schema.types.find? name with
  | none => simp
  | some type => simp [TypeDef.inputTypes]

theorem mem_inputReach_iff {schema : Schema} {start name : String} :
    name ∈ schema.inputReach start ↔ schema.InputReaches start name := by
  unfold inputReach
  rw [NameMap.mem_reach_iff]
  constructor
  · intro leads
    induction leads with
    | start member =>
        cases List.mem_singleton.1 member
        exact .self
    | step _ successor ih =>
        obtain ⟨type, found, field, member, rfl⟩ := mem_successors_iff.1 successor
        exact .field ih found member
  · intro reaches
    induction reaches with
    | self => exact .start (List.mem_singleton_self _)
    | field _ found member ih => exact .step ih (mem_successors_iff.2 ⟨_, found, _, member, rfl⟩)

end Schema

/-! ## Distinct fields -/

private theorem Ordered.nodup_keys_ofList {α : Type} (key : α → String) (entries : List α) :
    ((ofList key entries).map key).Nodup := by
  have fold (entries written : List α) (distinct : (written.map key).Nodup) :
      ((entries.foldl (fun written entry => upsert key entry written) written).map key).Nodup := by
    induction entries generalizing written with
    | nil => exact distinct
    | cons entry rest ih => exact ih _ (nodup_keys_upsert key entry written distinct)
  exact fold entries [] List.nodup_nil

namespace TypeBody

/-- The fields of an input type have different names. -/
def HasDistinctInputs (body : TypeBody) : Prop := (body.inputFields.map InputValue.name).Nodup

private theorem hasDistinctInputs_distinct (body : TypeBody) : body.distinct.HasDistinctInputs := by
  cases body with
  | input fields => exact Ordered.nodup_keys_ofList InputValue.name fields
  | _ => exact List.nodup_nil

private theorem nodup_addMembers {α : Type} {type : String} {key : α → String}
    {members added all : List α}
    (distinct : (members.map key).Nodup) (done : addMembers type key members added = .ok all) :
    (all.map key).Nodup := by
  rw [addMembers_eq_foldlM] at done
  refine foldlM_keeps (fun members => (members.map key).Nodup) ?_ distinct done
  intro entry _ before after distinct done
  unfold addMember putNew at done
  split at done
  · cases done
  · next new =>
      cases done
      rw [contains_iff] at new
      rw [List.map_append, List.map_singleton]
      exact List.Nodup.append distinct (List.nodup_singleton _) (by simpa using new)

theorem HasDistinctInputs.extend {type : String} {body extension extended : TypeBody}
    (distinct : body.HasDistinctInputs) (done : body.extend type extension = .ok extended) :
    extended.HasDistinctInputs := by
  unfold TypeBody.extend at done
  split at done
  case h_6 =>
    obtain ⟨all, added, done⟩ := bind_eq_ok_iff.1 done
    cases done
    exact nodup_addMembers distinct added
  case h_1 | h_4 =>
    cases done
    exact List.nodup_nil
  case h_7 => cases done
  all_goals
    obtain ⟨all, _, done⟩ := bind_eq_ok_iff.1 done
    cases done
    exact List.nodup_nil

end TypeBody

/-! ## Types of a built type system -/

namespace Schema

/-- Every type has a name, and the fields of every input type have different ones. -/
def WellNamed (types : NameMap TypeDef) : Prop :=
  ∀ name type, types.find? name = some type → IsName name ∧ type.body.HasDistinctInputs

theorem WellNamed.insert {types : NameMap TypeDef} (named : WellNamed types) {name : String}
    {type : TypeDef} (here : IsName name) (distinct : type.body.HasDistinctInputs) :
    WellNamed (types.insert name type) := by
  intro other found
  rw [NameMap.find?_insert]
  split
  · next same =>
      intro is
      cases is
      exact ⟨same ▸ here, distinct⟩
  · exact named other found

private theorem isName_of_builtin {name : String} (builtin : name ∈ builtinScalars) :
    IsName name := by
  have all : (builtinScalars.all fun name => name.toList.all Lexer.isNameChar) = true := by
    decide +kernel
  exact List.all_eq_true.1 (List.all_eq_true.1 all name builtin)

private theorem wellNamed_builtinTypes : WellNamed builtinTypes := by
  intro name type found
  have member := NameMap.mem_of_mem_ofList ((NameMap.mem_iff_lookup builtinTypes.increasing).2 found)
  obtain ⟨scalar, builtin, same⟩ := List.mem_map.1 member
  cases same
  exact ⟨isName_of_builtin builtin, List.nodup_nil⟩

theorem WellNamed.declareTypes {types declared : NameMap TypeDef} (named : WellNamed types)
    {definitions : List SchemaDefinition}
    (names : ∀ name body, .type name body ∈ definitions → IsName name)
    (done : Schema.declareTypes types definitions = .ok declared) : WellNamed declared := by
  rw [declareTypes_eq_foldlM] at done
  refine foldlM_keeps WellNamed ?_ named done
  intro entry member before after named done
  obtain ⟨definition, defined, found⟩ := List.mem_filterMap.1 member
  unfold declareType at done
  split at done
  · cases done
  · cases done
    cases definition with
    | type name body =>
        cases found
        exact named.insert (names name body defined) body.hasDistinctInputs_distinct
    | _ => cases found

theorem WellNamed.extendTypes {types extended : NameMap TypeDef} (named : WellNamed types)
    {definitions : List SchemaDefinition}
    (done : Schema.extendTypes types definitions = .ok extended) : WellNamed extended := by
  rw [extendTypes_eq_foldlM] at done
  refine foldlM_keeps WellNamed ?_ named done
  intro entry _ before after named done
  obtain ⟨type, changed, done⟩ := bind_eq_ok_iff.1 done
  cases done
  unfold Schema.extended at changed
  cases found : before.find? entry.1 with
  | none =>
      rw [found] at changed
      cases changed
  | some old =>
      rw [found] at changed
      obtain ⟨body, added, changed⟩ := bind_eq_ok_iff.1 changed
      cases changed
      obtain ⟨isName, distinct⟩ := named _ _ found
      exact named.insert isName (distinct.extend added)

theorem WellNamed.linkInterfaces {types : NameMap TypeDef} (named : WellNamed types) :
    WellNamed (linkInterfaces types) := by
  intro name type found
  rw [linkInterfaces_eq_foldl] at found
  rcases none_or_some (linked_foldl (links types) types name) with
    ⟨_, absent⟩ | ⟨before, after, start, present, linked⟩
  · cases absent.symm.trans found
  · cases present.symm.trans found
    obtain ⟨isName, distinct⟩ := named _ _ start
    exact ⟨isName, by rwa [linked.body]⟩

private theorem types_of_ofDefinitions {definitions : List SchemaDefinition} {schema : Schema}
    (built : ofDefinitions definitions = .ok schema) :
    ∃ declared extended, declareTypes builtinTypes definitions = .ok declared ∧
      extendTypes declared definitions = .ok extended ∧ schema.types = linkInterfaces extended := by
  obtain ⟨declared, declares, built⟩ := bind_eq_ok_iff.1 built
  obtain ⟨extended, extending, built⟩ := bind_eq_ok_iff.1 built
  refine ⟨declared, extended, declares, extending, ?_⟩
  simp only at built
  split at built
  · cases built
  · obtain ⟨_, _, built⟩ := bind_eq_ok_iff.1 built
    obtain ⟨_, _, built⟩ := bind_eq_ok_iff.1 built
    obtain ⟨_, _, built⟩ := bind_eq_ok_iff.1 built
    cases built
    rfl

theorem wellNamed_of_parse {text : String} {schema : Schema} (read : parse text = .ok schema) :
    WellNamed schema.types := by
  unfold parse at read
  split at read
  · rename_i definitions defined
    obtain ⟨declared, extended, declares, extending, types⟩ := types_of_ofDefinitions read
    have named := wellNamed_builtinTypes.declareTypes
      (fun name body member => SchemaDefinition.isName_of_parse defined member) declares
    rw [types]
    exact (named.extendTypes extending).linkInterfaces
  · cases read
  · cases read

end Schema

end GraphqlStore
