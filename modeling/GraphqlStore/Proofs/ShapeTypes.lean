import GraphqlStore.Proofs.CompiledShape

/-!
The shapes in the shape of an artifact, and the types of their values. There
is one for each place where selections stand, on the type they are made on,
and its entries are those of the fields selected there. The keys of an
artifact are the keys of these types.
-/

set_option autoImplicit false

namespace GraphqlStore

namespace Ordered

variable {α : Type} {key : α → String} {entries : List α} {entry : α}

theorem find?_of_mem (distinct : (entries.map key).Nodup) (member : entry ∈ entries) :
    find? key (key entry) entries = some entry := by
  induction entries with
  | nil => cases member
  | cons first rest ih =>
      rw [List.map_cons, List.nodup_cons] at distinct
      rcases List.mem_cons.1 member with rfl | later
      · rw [find?, if_pos rfl]
      · have different : key first ≠ key entry := fun same =>
          distinct.1 (same ▸ List.mem_map_of_mem later)
        rw [find?, if_neg different, ih distinct.2 later]

private theorem key_of_find? {name : String} (found : find? key name entries = some entry) :
    key entry = name := by
  induction entries with
  | nil => cases found
  | cons first rest ih =>
      rw [find?] at found
      split at found
      · cases found
        assumption
      · exact ih found

end Ordered

/-- The shapes that are reached from a shape through fields with a property, each with its place and
the type of its values. -/
inductive SelectionShape.Holds (whole : SelectionShape) (root : String) (through : FieldInfo → Prop) :
    ShapePath → String → SelectionShape → Prop where
  | root : Holds whole root through [] root whole
  | field {place : ShapePath} {type name : String} {shape inner : SelectionShape} {info : FieldInfo} :
      Holds whole root through place type shape → .composite name info inner ∈ shape.fields →
      through info → Holds whole root through (place ++ [.field name]) info.type inner
  | condition {place : ShapePath} {type name : String} {shape inner : SelectionShape} :
      Holds whole root through place type shape → (name, inner) ∈ shape.conditions →
      Holds whole root through (place ++ [.type name]) name inner

namespace SelectionShape

variable {shape : SelectionShape}

theorem field?_of_mem (distinct : shape.Distinct) {field : FieldShape} (member : field ∈ shape.fields) :
    shape.field? field.name = some field := by
  cases distinct with
  | mk names _ _ _ => exact Ordered.find?_of_mem names member

private theorem follow_field (distinct : shape.Distinct) {name : String} {info : FieldInfo}
    {inner : SelectionShape} (member : .composite name info inner ∈ shape.fields) :
    shape.follow (.field name) = inner := by
  have found : shape.field? name = some (.composite name info inner) := field?_of_mem distinct member
  rw [follow, found]
  rfl

private theorem follow_type (distinct : shape.Distinct) {name : String} {inner : SelectionShape}
    (member : (name, inner) ∈ shape.conditions) : shape.follow (.type name) = inner := by
  cases distinct with
  | mk _ increasing _ _ =>
      rw [follow, conditions, (NameMap.mem_iff_lookup increasing).1 member, Option.getD_some]

theorem Holds.shapeAt_eq {whole : SelectionShape} (distinct : whole.Distinct) {root type : String}
    {through : FieldInfo → Prop} {place : ShapePath}
    (holds : whole.Holds root through place type shape) : whole.shapeAt place = shape := by
  induction holds with
  | root => rfl
  | field _ member _ ih =>
      rw [shapeAt_append, ih]
      exact follow_field (ih ▸ distinct.shapeAt _) member
  | condition _ member ih =>
      rw [shapeAt_append, ih]
      exact follow_type (ih ▸ distinct.shapeAt _) member

end SelectionShape

namespace Generation

variable {config : Config} {root : String} {items : List Selection} {whole : SelectionShape}

/-! ## Entries -/

structure Backs (schema : Schema) (type : String) (head : Field) (entry : FieldShape) : Prop where
  name : entry.name = head.responseName
  field : entry.info.field = head.name
  found : ∃ found, schema.field? type head.name = some found ∧ entry.info.type = found.typeName ∧
    entry.selection?.isSome = schema.isComposite found.typeName

private theorem mem_occurrencesAt_of_standing {place : ShapePath} {type : String} {masked : Bool}
    {standing inner : List Selection} {head : Field}
    (stands : StandAt config.schema root items place type masked standing)
    (member : .field head inner ∈ standing) :
    ⟨type, head, masked⟩ ∈ occurrencesAt (place ++ [.field head.responseName])
      (placed config.schema root false items) :=
  mem_occurrencesAt.2
    ⟨place, mem_placed_iff.2 ⟨_, _, _, _, stands, member, List.mem_cons_self⟩, rfl⟩

theorem Records.backs (records : Records config (placed config.schema root false items) whole)
    {place : ShapePath} {type : String} {masked : Bool} {standing inner : List Selection} {head : Field}
    (stands : StandAt config.schema root items place type masked standing)
    (member : .field head inner ∈ standing) :
    ∃ entry ∈ (whole.shapeAt place).fields, Backs config.schema type head entry := by
  have occurs := mem_occurrencesAt_of_standing stands member
  rcases records.infoAt?_cases (place ++ [.field head.responseName]) with
    ⟨none, _⟩ | ⟨before, name, entry, same, found, here, tells, _⟩
  · rw [none] at occurs
    cases occurs
  · obtain ⟨rfl, last⟩ := List.append_inj' same rfl
    cases last
    have sums := records.sumsUp here
    obtain ⟨declared, resolved, backed, typed, _⟩ := sums.backed _ occurs
    refine ⟨entry, Ordered.mem_of_find? found, Ordered.key_of_find? found, backed, declared,
      resolved, typed, ?_⟩
    have each : ∀ occurrence ∈ occurrencesAt (place ++ [.field head.responseName])
        (placed config.schema root false items),
        isComposite config occurrence = config.schema.isComposite declared.typeName := by
      intro occurrence other
      obtain ⟨parents, names⟩ := records.same_field other occurs
      rw [isComposite, parents, names, resolved]
      rfl
    refine tells.composite.trans ?_
    rw [Bool.eq_iff_iff, List.any_eq_true]
    constructor
    · rintro ⟨occurrence, other, composite⟩
      exact (each occurrence other).symm.trans composite
    · intro composite
      exact ⟨_, occurs, (each _ occurs).trans composite⟩

theorem Records.backed (records : Records config (placed config.schema root false items) whole)
    (distinct : whole.Distinct) {place : ShapePath} {entry : FieldShape}
    (member : entry ∈ (whole.shapeAt place).fields) :
    ∃ type masked standing head inner, StandAt config.schema root items place type masked standing ∧
      .field head inner ∈ standing ∧ Backs config.schema type head entry := by
  have found := SelectionShape.field?_of_mem (distinct.shapeAt place) member
  rcases records.infoAt?_cases (place ++ [.field entry.name]) with
    ⟨_, none⟩ | ⟨_, _, _, _, _, _, tells, _⟩
  · rw [SelectionShape.infoAt?_append, SelectionShape.infoAt?_here, found] at none
    cases none
  · obtain ⟨occurrence, occurs, _⟩ := tells.first
    obtain ⟨other, brought, same⟩ := mem_occurrencesAt.1 occurs
    obtain ⟨rfl, last⟩ := List.append_inj' same rfl
    have named : occurrence.head.responseName = entry.name := by simpa using last
    obtain ⟨type, masked, standing, selection, stands, inStanding, own⟩ := mem_placed_iff.1 brought
    obtain ⟨head, inner, rfl, rfl⟩ := Selection.eq_field_of_own own
    obtain ⟨twin, inFields, backs⟩ := records.backs stands inStanding
    have alike := SelectionShape.field?_of_mem (distinct.shapeAt _) inFields
    rw [backs.name, named, found] at alike
    cases alike
    exact ⟨type, masked, standing, head, inner, stands, inStanding, backs⟩

/-! ## Shapes and places -/

private theorem mem_itemsAt {place : ShapePath} {placed : List PlacedItem} {item : ShapeItem} :
    item ∈ itemsAt place placed ↔ (place, item) ∈ placed := by
  rw [itemsAt, List.mem_filterMap]
  constructor
  · rintro ⟨⟨other, brought⟩, member, chosen⟩
    split at chosen
    · rename_i here
      cases here
      cases chosen
      exact member
    · cases chosen
  · exact fun member => ⟨_, member, if_pos rfl⟩

private theorem Records.mem_conditions
    (records : Records config (placed config.schema root false items) whole)
    {place : ShapePath} {type : String} :
    (∃ inner, (type, inner) ∈ (whole.shapeAt place).conditions) ↔
      ∃ outer masked standing head inner,
        StandAt config.schema root items place outer masked standing ∧
        .inline head inner ∈ standing ∧ head.typeWithin outer = type ∧ type ≠ outer := by
  have brought := (records place).conditions type
  rw [mem_itemsAt, mem_placed_iff] at brought
  simp only [List.mem_map, Prod.exists, exists_and_right, exists_eq_right] at brought
  rw [brought]
  constructor
  · rintro ⟨outer, masked, standing, selection, stands, member, own⟩
    obtain ⟨head, inner, rfl, same, other⟩ := Selection.eq_inline_of_own own
    exact ⟨outer, masked, standing, head, inner, stands, member, same, other⟩
  · rintro ⟨outer, masked, standing, head, inner, stands, member, rfl, other⟩
    refine ⟨outer, masked, standing, _, stands, member, List.mem_append_right _ ?_⟩
    rw [if_neg other]
    exact List.mem_cons_self

theorem Records.holds (records : Records config (placed config.schema root false items) whole)
    (distinct : whole.Distinct) {place : ShapePath} {type : String} {masked : Bool}
    {standing : List Selection} (stands : StandAt config.schema root items place type masked standing) :
    ∃ shape, whole.Holds root (fun _ => True) place type shape := by
  induction stands with
  | root => exact ⟨whole, .root⟩
  | @field place type masked standing inner head found stands member resolved composite ih =>
      obtain ⟨shape, holds⟩ := ih
      obtain ⟨entry, inFields, named, _, declared, same, typed, below⟩ := records.backs stands member
      cases resolved.symm.trans same
      rw [holds.shapeAt_eq distinct] at inFields
      rw [composite] at below
      cases entry with
      | leaf name info => cases below
      | composite name info shape =>
          cases named
          rw [← typed]
          exact ⟨shape, .field holds inFields trivial⟩
  | within _ _ _ ih => exact ih
  | @condition place type masked standing inner head stands member other ih =>
      obtain ⟨shape, holds⟩ := ih
      obtain ⟨below, inConditions⟩ := records.mem_conditions.2
        ⟨type, masked, standing, head, inner, stands, member, rfl, other⟩
      rw [holds.shapeAt_eq distinct] at inConditions
      exact ⟨below, .condition holds inConditions⟩

theorem Records.stands (records : Records config (placed config.schema root false items) whole)
    (distinct : whole.Distinct) {through : FieldInfo → Prop} {place : ShapePath} {type : String}
    {shape : SelectionShape} (holds : whole.Holds root through place type shape) :
    ∃ masked standing, StandAt config.schema root items place type masked standing := by
  induction holds with
  | root => exact ⟨false, items, .root⟩
  | @field place type name shape inner info holds member _ _ =>
      rw [← holds.shapeAt_eq distinct] at member
      obtain ⟨outer, masked, standing, head, below, stands, inStanding, backs⟩ :=
        records.backed distinct member
      obtain ⟨named, _, found, resolved, typed, composite⟩ := backs
      have next := StandAt.field stands inStanding resolved composite.symm
      rw [← named, ← typed] at next
      exact ⟨masked, below, next⟩
  | @condition place type name shape inner holds member _ =>
      rw [← holds.shapeAt_eq distinct] at member
      obtain ⟨outer, masked, standing, head, below, stands, inStanding, rfl, other⟩ :=
        records.mem_conditions.1 ⟨inner, member⟩
      exact ⟨_, below, .condition stands inStanding other⟩

/-! ## Keys -/

private theorem mem_shapeTypes {schema : Schema} {parent type : String} {items : List Selection} :
    type ∈ shapeTypes schema parent items ↔ ∃ item ∈ items, type ∈ selectionTypes schema parent item := by
  induction items with
  | nil => simp [shapeTypes]
  | cons item rest ih => simp [shapeTypes, ih]

private theorem mem_shapeTypes_of_standAt {schema : Schema} {place : ShapePath}
    {type other : String} {masked : Bool} {standing : List Selection}
    (stands : StandAt schema root items place type masked standing)
    (member : other ∈ type :: shapeTypes schema type standing) :
    other ∈ root :: shapeTypes schema root items := by
  induction stands with
  | root => exact member
  | @field place type masked standing inner head found _ inStanding resolved composite ih =>
      refine ih (List.mem_cons_of_mem _ (mem_shapeTypes.2 ⟨_, inStanding, ?_⟩))
      simp only [selectionTypes, resolved, if_pos composite]
      exact member
  | @within place type masked standing inner head _ inStanding same ih =>
      rcases List.mem_cons.1 member with rfl | later
      · exact ih List.mem_cons_self
      · refine ih (List.mem_cons_of_mem _ (mem_shapeTypes.2 ⟨_, inStanding, ?_⟩))
        simp only [selectionTypes, if_pos same]
        exact later
  | @condition place type masked standing inner head _ inStanding different ih =>
      refine ih (List.mem_cons_of_mem _ (mem_shapeTypes.2 ⟨_, inStanding, ?_⟩))
      simp only [selectionTypes, if_neg different]
      exact member

private theorem standAt_of_selectionTypes {schema : Schema} {place : ShapePath}
    {type other : String} {masked : Bool} {standing : List Selection}
    (stands : StandAt schema root items place type masked standing) {selection : Selection}
    (inStanding : selection ∈ standing) (member : other ∈ selectionTypes schema type selection) :
    ∃ place masked standing, StandAt schema root items place other masked standing := by
  induction selection generalizing place type masked standing with
  | field head inner ih =>
      rw [selectionTypes] at member
      split at member
      · cases member
      · rename_i found resolved
        split at member
        · rename_i composite
          have next := StandAt.field stands inStanding resolved composite
          rcases List.mem_cons.1 member with rfl | later
          · exact ⟨_, _, _, next⟩
          · obtain ⟨item, inInner, below⟩ := mem_shapeTypes.1 later
            exact ih item inInner next inInner below
        · cases member
  | spread head => cases member
  | inline head inner ih =>
      simp only [selectionTypes] at member
      split at member
      · rename_i same
        obtain ⟨item, inInner, below⟩ := mem_shapeTypes.1 member
        exact ih item inInner (.within stands inStanding same) inInner below
      · rename_i different
        have next := StandAt.condition stands inStanding different
        rcases List.mem_cons.1 member with rfl | later
        · exact ⟨_, _, _, next⟩
        · obtain ⟨item, inInner, below⟩ := mem_shapeTypes.1 later
          exact ih item inInner next inInner below

theorem mem_shapeTypes_iff {schema : Schema} {type : String} :
    type ∈ root :: shapeTypes schema root items ↔
      ∃ place masked standing, StandAt schema root items place type masked standing := by
  constructor
  · intro member
    rcases List.mem_cons.1 member with rfl | later
    · exact ⟨[], false, items, .root⟩
    · obtain ⟨item, inItems, below⟩ := mem_shapeTypes.1 later
      exact standAt_of_selectionTypes .root inItems below
  · rintro ⟨place, masked, standing, stands⟩
    exact mem_shapeTypes_of_standAt stands List.mem_cons_self

private theorem find?_addKeys (keys : NameMap (List String)) (other type : String) :
    (addKeys config keys other).find? type =
      if other = type ∧ config.identityKeys type ≠ [] then some (config.identityKeys type)
      else keys.find? type := by
  unfold addKeys
  by_cases same : other = type
  · subst same
    by_cases none : config.identityKeys other = []
    · simp [none]
    · simp [none, NameMap.find?_insert_self]
  · have apart : ¬ (other = type ∧ config.identityKeys type ≠ []) := fun both => same both.1
    rw [if_neg apart]
    split
    · rfl
    · exact NameMap.find?_insert_of_ne keys _ same

private theorem find?_foldl_addKeys (types : List String) (keys : NameMap (List String))
    (type : String) :
    (types.foldl (addKeys config) keys).find? type =
      if type ∈ types ∧ config.identityKeys type ≠ [] then some (config.identityKeys type)
      else keys.find? type := by
  induction types generalizing keys with
  | nil => simp
  | cons first rest ih =>
      rw [List.foldl_cons, ih, find?_addKeys]
      by_cases none : config.identityKeys type = []
      · simp [none]
      · by_cases later : type ∈ rest
        · simp [none, later]
        · simp [none, later, eq_comm]

theorem find?_keysOf {types : List String} {type : String} {keys : List String} :
    (keysOf config types).find? type = some keys ↔
      type ∈ types ∧ config.identityKeys? type = some keys ∧ keys ≠ [] := by
  rw [keysOf, find?_foldl_addKeys, NameMap.find?_empty, Config.identityKeys]
  cases config.identityKeys? type with
  | none => simp
  | some own =>
      rw [Option.getD_some, Option.some.injEq]
      split
      · rename_i known
        rw [Option.some.injEq]
        exact ⟨fun same => ⟨known.1, same, same ▸ known.2⟩, fun given => given.2.1⟩
      · rename_i unknown
        simp only [reduceCtorEq, false_iff]
        rintro ⟨member, rfl, some⟩
        exact unknown ⟨member, some⟩

theorem keys_of_generate {document : Document} {artifact : Artifact} {selections : SelectionSet}
    (generates : generate config document = .ok artifact)
    (selected : document.selections? = some selections) :
    artifact.keys =
      keysOf config (artifact.rootType :: shapeTypes config.schema artifact.rootType selections.items) := by
  unfold generate at generates
  rw [selected] at generates
  split at generates
  · rename_i root other rooted same
    cases same
    simp only at generates
    split at generates
    · cases generates
      rfl
    · cases generates
  · cases generates

end Generation

end GraphqlStore
