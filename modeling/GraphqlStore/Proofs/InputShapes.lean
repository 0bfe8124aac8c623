import GraphqlStore.Artifact.Generate
import GraphqlStore.Pass.ScalarUsage
import GraphqlStore.Proofs.InputTypes
import Mathlib.Data.List.Nodup

/-!
The shape of the variables of an operation has exactly the input types that the
variables reach, and a conversion for exactly the variables and fields that need
one. A place is a variable or `Type.field`; since names have no dots, no two
variables and fields share one. The check of scalars follows the same types, and
reports what it knows nothing about once for each document.
-/

set_option autoImplicit false

namespace GraphqlStore

/-! ## Maps of lists -/

namespace NameMap

variable {α : Type}

/-- Sets the values of some names, one after the other. -/
def insertAll (map : NameMap α) (entries : List (String × α)) : NameMap α :=
  entries.foldl (fun map entry => map.insert entry.1 entry.2) map

theorem insertAll_append (map : NameMap α) (entries more : List (String × α)) :
    map.insertAll (entries ++ more) = (map.insertAll entries).insertAll more := List.foldl_append

theorem foldl_eq_insertAll {β σ : Type} {step : σ → β → σ} (view : σ → NameMap α)
    {entries : β → List (String × α)}
    (each : ∀ state item, view (step state item) = (view state).insertAll (entries item))
    (items : List β) (state : σ) :
    view (items.foldl step state) = (view state).insertAll (items.flatMap entries) := by
  induction items generalizing state with
  | nil => rfl
  | cons item rest ih =>
      rw [List.foldl_cons, ih, each, List.flatMap_cons, insertAll_append]

private theorem find?_isSome_insertAll {entries : List (String × α)} {map : NameMap α}
    {name : String} (present : (map.find? name).isSome = true ∨ name ∈ entries.map Prod.fst) :
    ((map.insertAll entries).find? name).isSome = true := by
  induction entries generalizing map with
  | nil => exact present.resolve_right List.not_mem_nil
  | cons entry rest ih =>
      refine ih ?_
      rw [find?_insert]
      split
      · exact .inl rfl
      · next different =>
          rw [List.map_cons, List.mem_cons] at present
          exact present.imp id fun member => member.resolve_left (Ne.symm different)

theorem find?_ofList_iff {entries : List (String × α)}
    (single : ∀ name one two, (name, one) ∈ entries → (name, two) ∈ entries → one = two)
    {name : String} {value : α} :
    (ofList entries).find? name = some value ↔ (name, value) ∈ entries := by
  have listed {other : α} (found : (ofList entries).find? name = some other) : (name, other) ∈ entries :=
    mem_of_mem_ofList ((mem_iff_lookup (ofList entries).increasing).2 found)
  refine ⟨listed, fun member => ?_⟩
  have present : ((ofList entries).find? name).isSome = true :=
    find?_isSome_insertAll (.inr (List.mem_map_of_mem member))
  obtain ⟨other, found⟩ := Option.isSome_iff_exists.1 present
  rw [found, single name value other member (listed found)]

private theorem nodup_entries (map : NameMap α) : map.entries.Nodup := by
  refine map.increasing.imp ?_
  rintro one _ below rfl
  exact String.lt_irrefl _ below

private theorem nodup_keys (map : NameMap α) : map.keys.Nodup := by
  refine (List.pairwise_map.2 map.increasing).imp ?_
  rintro one _ below rfl
  exact String.lt_irrefl _ below

end NameMap

/-! ## Places -/

private theorem append_dot_injective {first second one two : List Char} (here : '.' ∉ first)
    (there : '.' ∉ second) (same : first ++ '.' :: one = second ++ '.' :: two) :
    first = second ∧ one = two := by
  induction first generalizing second with
  | nil =>
      cases second with
      | nil => exact ⟨rfl, List.tail_eq_of_cons_eq same⟩
      | cons c rest => exact absurd (List.cons.inj same).1 (List.ne_of_not_mem_cons there)
  | cons c rest ih =>
      cases second with
      | nil => exact absurd (List.cons.inj same).1.symm (List.ne_of_not_mem_cons here)
      | cons other more =>
          obtain ⟨rfl, tails⟩ := List.cons.inj same
          obtain ⟨rfl, last⟩ := ih (List.not_mem_of_not_mem_cons here)
            (List.not_mem_of_not_mem_cons there) tails
          exact ⟨rfl, last⟩

private theorem dotted_injective {first second one two : String} (here : '.' ∉ first.toList)
    (there : '.' ∉ second.toList) (same : first ++ "." ++ one = second ++ "." ++ two) :
    first = second ∧ one = two := by
  have characters := congrArg String.toList same
  simp only [String.toList_append, List.append_assoc] at characters
  obtain ⟨types, fields⟩ := append_dot_injective here there characters
  exact ⟨String.toList_inj.1 types, String.toList_inj.1 fields⟩

private theorem ne_dotted {name type field : String} (plain : '.' ∉ name.toList) :
    name ≠ type ++ "." ++ field := by
  rintro rfl
  simp at plain

/-! ## Types and conversions -/

def Schema.ReachedFrom (schema : Schema) (declarations : List VariableDefinition) (name : String) :
    Prop :=
  ∃ declared ∈ declarations, schema.InputReaches declared.type.base name

namespace InputShape

/-- A type as a shape lists it, if it is an input type. -/
def listed (config : Config) (name : String) : List (String × List (String × String)) :=
  (config.schema.type? name).elim [] fun type =>
    if type.kind = .inputObject then [(name, fieldTypes type)] else []

/-- The variables whose values have to be converted, with their scalars. -/
def variableConversions (config : Config) (declarations : List VariableDefinition) :
    List (String × String) :=
  (declarations.filter fun declared => config.needsMarshal declared.type.base).map fun declared =>
    (declared.name, declared.type.base)

/-- The fields of a type whose values have to be converted, with their scalars. -/
def fieldConversions (config : Config) (name : String) : List (String × String) :=
  (config.schema.type? name).elim [] fun type =>
    (type.body.inputFields.filter fun field => config.needsMarshal field.type.base).map fun field =>
      (name ++ "." ++ field.name, field.type.base)

theorem flatMap_if {α β : Type} (needed : α → Bool) (entry : α → β) (items : List α) :
    (items.flatMap fun item => if needed item then [entry item] else []) =
      (items.filter needed).map entry := by
  induction items with
  | nil => rfl
  | cons item rest ih =>
      rw [List.flatMap_cons, ih]
      by_cases here : needed item = true
      · rw [if_pos here, List.filter_cons_of_pos here, List.map_cons, List.singleton_append]
      · rw [if_neg here, List.filter_cons_of_neg here, List.nil_append]

theorem addMarshal_eq_insertAll (config : Config) (marshal : NameMap String) (place type : String) :
    addMarshal config marshal place type =
      marshal.insertAll (if config.needsMarshal type then [(place, type)] else []) := by
  unfold addMarshal
  split <;> rfl

theorem inputFields_of_kind_ne {body : TypeBody} (other : body.kind ≠ .inputObject) :
    body.inputFields = [] := by
  cases body with
  | input fields => exact absurd rfl other
  | _ => rfl

private theorem types_addType (config : Config) (shape : InputShape) (name : String) :
    (addType config shape name).types = shape.types.insertAll (listed config name) := by
  unfold addType listed
  cases config.schema.type? name with
  | none => rfl
  | some type =>
      by_cases input : type.kind = .inputObject
      · simp only [input, if_true, Option.elim_some]
        rfl
      · simp only [input, if_false, Option.elim_some]
        rfl

private theorem marshal_addType (config : Config) (shape : InputShape) (name : String) :
    (addType config shape name).marshal = shape.marshal.insertAll (fieldConversions config name) := by
  unfold addType fieldConversions
  cases config.schema.type? name with
  | none => rfl
  | some type =>
      by_cases input : type.kind = .inputObject
      · simp only [input, if_true, Option.elim_some]
        rw [← flatMap_if]
        refine NameMap.foldl_eq_insertAll (fun marshal => marshal) ?_ _ _
        intro marshal field
        exact addMarshal_eq_insertAll config marshal _ field.type.base
      · simp only [input, if_false, Option.elim_some, inputFields_of_kind_ne input]
        rfl

def broughtTypes (config : Config) (declared : VariableDefinition) :
    List (String × List (String × String)) :=
  (config.schema.inputReach declared.type.base).flatMap (listed config)

/-- The conversions that a variable brings to a shape. -/
def broughtConversions (config : Config) (declared : VariableDefinition) : List (String × String) :=
  variableConversions config [declared] ++
    (config.schema.inputReach declared.type.base).flatMap (fieldConversions config)

private theorem types_addVariable (config : Config) (shape : InputShape)
    (declared : VariableDefinition) :
    (addVariable config shape declared).types =
      shape.types.insertAll (broughtTypes config declared) :=
  NameMap.foldl_eq_insertAll InputShape.types (types_addType config) _ _

private theorem marshal_addVariable (config : Config) (shape : InputShape)
    (declared : VariableDefinition) :
    (addVariable config shape declared).marshal =
      shape.marshal.insertAll (broughtConversions config declared) := by
  unfold broughtConversions
  rw [NameMap.insertAll_append]
  refine (NameMap.foldl_eq_insertAll InputShape.marshal (marshal_addType config) _ _).trans ?_
  rw [addMarshal_eq_insertAll, variableConversions, ← flatMap_if]
  simp only [List.flatMap_singleton]

def ofDeclarations (config : Config) (declarations : List VariableDefinition) : InputShape :=
  declarations.foldl (addVariable config) empty

private theorem types_ofDeclarations (config : Config) (declarations : List VariableDefinition) :
    (ofDeclarations config declarations).types =
      NameMap.ofList (declarations.flatMap (broughtTypes config)) :=
  NameMap.foldl_eq_insertAll InputShape.types (types_addVariable config) declarations empty

private theorem marshal_ofDeclarations (config : Config) (declarations : List VariableDefinition) :
    (ofDeclarations config declarations).marshal =
      NameMap.ofList (declarations.flatMap (broughtConversions config)) :=
  NameMap.foldl_eq_insertAll InputShape.marshal (marshal_addVariable config) declarations empty

/-! ## What the maps hold -/

theorem mem_listed_iff {config : Config} {name other : String} {fields : List (String × String)} :
    (name, fields) ∈ listed config other ↔
      name = other ∧ ∃ type, config.schema.type? name = some type ∧ type.kind = .inputObject ∧
        fields = fieldTypes type := by
  unfold listed
  constructor
  · intro member
    cases found : config.schema.type? other with
    | none =>
        rw [found] at member
        cases member
    | some type =>
        rw [found, Option.elim_some] at member
        split at member
        · next input =>
            cases List.mem_singleton.1 member
            exact ⟨rfl, type, found, input, rfl⟩
        · cases member
  · rintro ⟨rfl, type, found, input, rfl⟩
    rw [found, Option.elim_some, if_pos input]
    exact List.mem_singleton_self _

theorem mem_fieldConversions_iff {config : Config} {name place scalar : String} :
    (place, scalar) ∈ fieldConversions config name ↔
      ∃ type, config.schema.type? name = some type ∧ ∃ field ∈ type.body.inputFields,
        config.needsMarshal field.type.base = true ∧ place = name ++ "." ++ field.name ∧
          scalar = field.type.base := by
  unfold fieldConversions
  cases config.schema.type? name with
  | none => simp
  | some type =>
      simp only [Option.elim_some, List.mem_map, List.mem_filter, Prod.mk.injEq, Option.some.injEq,
        exists_eq_left']
      grind

theorem mem_broughtTypes_iff {config : Config} {declarations : List VariableDefinition} {name : String}
    {fields : List (String × String)} :
    (name, fields) ∈ declarations.flatMap (broughtTypes config) ↔
      config.schema.ReachedFrom declarations name ∧ ∃ type, config.schema.type? name = some type ∧
        type.kind = .inputObject ∧ fields = fieldTypes type := by
  unfold broughtTypes Schema.ReachedFrom
  simp only [List.mem_flatMap, mem_listed_iff, Schema.mem_inputReach_iff]
  grind

theorem find?_types_iff {config : Config} {declarations : List VariableDefinition} {name : String}
    {fields : List (String × String)} :
    (ofDeclarations config declarations).types.find? name = some fields ↔
      config.schema.ReachedFrom declarations name ∧ ∃ type, config.schema.type? name = some type ∧
        type.kind = .inputObject ∧ fields = fieldTypes type := by
  rw [types_ofDeclarations, NameMap.find?_ofList_iff, mem_broughtTypes_iff]
  intro name one two here there
  obtain ⟨_, type, found, _, rfl⟩ := mem_broughtTypes_iff.1 here
  obtain ⟨_, other, also, _, rfl⟩ := mem_broughtTypes_iff.1 there
  cases found.symm.trans also
  rfl

theorem mem_keys_types_iff {config : Config} {declarations : List VariableDefinition} {name : String} :
    name ∈ (ofDeclarations config declarations).types.keys ↔
      config.schema.ReachedFrom declarations name ∧
        ∃ type, config.schema.type? name = some type ∧ type.kind = .inputObject := by
  rw [← NameMap.find?_isSome_iff, Option.isSome_iff_exists]
  simp only [find?_types_iff]
  grind

/-- The conversions of some variables and of the fields of some types. -/
def conversions (config : Config) (declarations : List VariableDefinition) (types : List String) :
    List (String × String) :=
  variableConversions config declarations ++ types.flatMap (fieldConversions config)

theorem mem_brought_iff {config : Config} {declarations : List VariableDefinition}
    {entry : String × String} :
    entry ∈ declarations.flatMap (broughtConversions config) ↔
      entry ∈ conversions config declarations (ofDeclarations config declarations).types.keys := by
  obtain ⟨place, scalar⟩ := entry
  have fields : (∃ name, config.schema.ReachedFrom declarations name ∧
        (place, scalar) ∈ fieldConversions config name) ↔
      ∃ name ∈ (ofDeclarations config declarations).types.keys,
        (place, scalar) ∈ fieldConversions config name := by
    constructor
    · rintro ⟨name, reached, member⟩
      obtain ⟨type, found, field, inputs, _⟩ := mem_fieldConversions_iff.1 member
      refine ⟨name, mem_keys_types_iff.2 ⟨reached, type, found, ?_⟩, member⟩
      by_contra other
      rw [inputFields_of_kind_ne other] at inputs
      cases inputs
    · rintro ⟨name, listed, member⟩
      exact ⟨name, (mem_keys_types_iff.1 listed).1, member⟩
  unfold conversions
  rw [List.mem_append, List.mem_flatMap (l := NameMap.keys _), ← fields]
  simp only [broughtConversions, List.mem_flatMap, List.mem_append, Schema.mem_inputReach_iff,
    Schema.ReachedFrom, variableConversions, List.mem_map, List.mem_filter, List.mem_singleton]
  grind

/-! ## One entry for each place -/

private theorem nodup_places_fieldConversions {config : Config}
    (named : Schema.WellNamed config.schema.types)
    (name : String) : ((fieldConversions config name).map Prod.fst).Nodup := by
  unfold fieldConversions
  cases found : config.schema.type? name with
  | none => exact List.nodup_nil
  | some type =>
      have distinct := (named name type found).2
      rw [Option.elim_some, List.map_map]
      have fields : ((type.body.inputFields.filter fun field =>
          config.needsMarshal field.type.base).map InputValue.name).Nodup :=
        distinct.sublist (List.filter_sublist.map _)
      have places := fields.map (f := fun field => name ++ "." ++ field) fun _ _ same =>
        String.append_right_inj _ |>.1 same
      rwa [List.map_map] at places

private theorem nodup_places_conversions {config : Config}
    (named : Schema.WellNamed config.schema.types)
    {declarations : List VariableDefinition} (names : ∀ declared ∈ declarations, IsName declared.name)
    (distinct : (declarations.map VariableDefinition.name).Nodup) {types : List String}
    (known : ∀ name ∈ types, ∃ type, config.schema.type? name = some type) (once : types.Nodup) :
    ((conversions config declarations types).map Prod.fst).Nodup := by
  have dotless (name : String) (member : name ∈ types) : '.' ∉ name.toList := by
    obtain ⟨type, found⟩ := known name member
    exact (named name type found).1.no_dot
  unfold conversions
  rw [List.map_append, List.map_flatMap]
  refine List.Nodup.append ?_ ?_ ?_
  · unfold variableConversions
    rw [List.map_map]
    exact distinct.sublist (List.filter_sublist.map _)
  · refine List.nodup_flatMap.2 ⟨fun name _ => nodup_places_fieldConversions named name, ?_⟩
    refine once.imp_of_mem ?_
    intro one two here there different place first second
    obtain ⟨⟨_, scalar⟩, member, rfl⟩ := List.mem_map.1 first
    obtain ⟨⟨_, other⟩, also, same⟩ := List.mem_map.1 second
    obtain ⟨_, _, field, _, _, rfl, _⟩ := mem_fieldConversions_iff.1 member
    obtain ⟨_, _, field', _, _, rfl, _⟩ := mem_fieldConversions_iff.1 also
    exact different (dotted_injective (dotless one here) (dotless two there) same.symm).1
  · intro place first second
    obtain ⟨⟨_, scalar⟩, member, rfl⟩ := List.mem_map.1 first
    obtain ⟨declared, filtered, same⟩ := List.mem_map.1 member
    cases same
    obtain ⟨name, listed, second⟩ := List.mem_flatMap.1 second
    obtain ⟨⟨_, other⟩, also, same⟩ := List.mem_map.1 second
    obtain ⟨_, _, field, _, _, rfl, _⟩ := mem_fieldConversions_iff.1 also
    exact ne_dotted (names declared (List.mem_filter.1 filtered).1).no_dot same.symm

private theorem perm_marshal {config : Config} (named : Schema.WellNamed config.schema.types)
    {declarations : List VariableDefinition} (names : ∀ declared ∈ declarations, IsName declared.name)
    (distinct : (declarations.map VariableDefinition.name).Nodup) :
    (ofDeclarations config declarations).marshal.entries.Perm
      (conversions config declarations (ofDeclarations config declarations).types.keys) := by
  have places : ((conversions config declarations
      (ofDeclarations config declarations).types.keys).map Prod.fst).Nodup := by
    refine nodup_places_conversions named names distinct ?_ (NameMap.nodup_keys _)
    intro name member
    obtain ⟨_, type, found, _⟩ := mem_keys_types_iff.1 member
    exact ⟨type, found⟩
  refine (List.perm_ext_iff_of_nodup (NameMap.nodup_entries _) places.of_map).2 ?_
  rintro ⟨place, scalar⟩
  rw [NameMap.mem_iff_lookup (NameMap.increasing _)]
  change NameMap.find? _ place = some scalar ↔ _
  rw [marshal_ofDeclarations, NameMap.find?_ofList_iff, mem_brought_iff]
  intro name one two here there
  have same := List.inj_on_of_nodup_map places (mem_brought_iff.1 here) (mem_brought_iff.1 there) rfl
  exact congrArg Prod.snd same

end InputShape

/-! ## Reported scalars -/

namespace ScalarUsage

theorem mem_names_firsts_iff {met : List String} {entries : List (String × Position)} {name : String} :
    name ∈ (firsts met entries).map Prod.fst ↔ name ∉ met ∧ name ∈ entries.map Prod.fst := by
  induction entries generalizing met with
  | nil => simp [firsts]
  | cons entry rest ih =>
      rw [firsts]
      by_cases known : entry.1 ∈ met
      · rw [if_pos (List.contains_iff_mem.2 known), ih, List.map_cons, List.mem_cons]
        grind
      · rw [if_neg (mt List.contains_iff_mem.1 known), List.map_cons, List.mem_cons, ih, List.map_cons,
          List.mem_cons, List.mem_cons]
        grind

private theorem nodup_names_firsts (met : List String) (entries : List (String × Position)) :
    ((firsts met entries).map Prod.fst).Nodup := by
  induction entries generalizing met with
  | nil => exact List.nodup_nil
  | cons entry rest ih =>
      rw [firsts]
      split
      · exact ih met
      · refine List.nodup_cons.2 ⟨?_, ih _⟩
        intro again
        exact (mem_names_firsts_iff.1 again).1 List.mem_cons_self

private theorem missingScalar_injective {scalar other : String}
    (same : Config.missingScalar scalar = Config.missingScalar other) : scalar = other := by
  unfold Config.missingScalar at same
  exact (String.append_right_inj _).1 ((String.append_left_inj _).1 same)

/-- How often a scalar is reported for a document. -/
def reportsOf (document : Document) (scalar : String) (errors : List Diagnostic) : Nat :=
  errors.countP fun report =>
    report.document == some document.name && report.message == Config.missingScalar scalar

def Selects (schema : Schema) (document : Document) (scalar : String) : Prop :=
  ∃ visit ∈ (document.visits? schema).getD [], ∃ place,
    visitScalar? schema visit = some (scalar, place)

/-- The scalars of a document without known conversion, each once. -/
def unknown (config : Config) (document : Document) : List String :=
  (firsts [] ((scalars config.schema document).filter fun entry =>
    (config.scalarSpec? entry.1).isNone)).map Prod.fst

private theorem reportsOf_own (config : Config) (document : Document) (scalar : String) :
    reportsOf document scalar (document.reports (faults config document)) =
      (unknown config document).count scalar := by
  unfold reportsOf Document.reports faults unknown
  rw [List.countP_map, List.countP_map, List.count, List.countP_map]
  refine List.countP_congr fun entry _ => ?_
  simp only [Function.comp_apply, Fault.toDiagnostic, fault, beq_self_eq_true, Bool.true_and, beq_iff_eq]
  exact ⟨missingScalar_injective, congrArg Config.missingScalar⟩

private theorem reportsOf_other (config : Config) {document other : Document}
    (different : other.name ≠ document.name) (scalar : String) :
    reportsOf document scalar (other.reports (faults config other)) = 0 := by
  refine List.countP_eq_zero.2 ?_
  intro report member
  obtain ⟨fault, _, rfl⟩ := List.mem_map.1 member
  simp [Fault.toDiagnostic, different]

private theorem reportsOf_run (config : Config) (registry : FragmentRegistry)
    {documents : List Document} {document : Document} (member : document ∈ documents)
    (distinct : (documents.map Document.name).Nodup) (scalar : String) :
    reportsOf document scalar (Pass.scalarUsage.run ⟨config, registry⟩ documents).errors =
      (unknown config document).count scalar := by
  rw [← reportsOf_own]
  change reportsOf document scalar (documents.flatMap fun document =>
    document.reports (faults config document)) = _
  have others (rest : List Document) (absent : document.name ∉ rest.map Document.name) :
      reportsOf document scalar (rest.flatMap fun document =>
        document.reports (faults config document)) = 0 := by
    refine List.countP_eq_zero.2 ?_
    intro report reported
    obtain ⟨other, also, reported⟩ := List.mem_flatMap.1 reported
    have different : other.name ≠ document.name := by
      intro same
      exact absent (same ▸ List.mem_map_of_mem also)
    exact List.countP_eq_zero.1 (reportsOf_other config different scalar) report reported
  obtain ⟨before, after, rfl⟩ := List.append_of_mem member
  rw [List.map_append, List.map_cons, List.nodup_middle, List.nodup_cons, List.mem_append,
    not_or] at distinct
  have first := others before distinct.1.1
  have last := others after distinct.1.2
  unfold reportsOf at first last ⊢
  rw [List.flatMap_append, List.flatMap_cons, List.countP_append, List.countP_append, first, last]
  omega

private theorem isScalar_of_visitScalar? {schema : Schema} {visit : Visit}
    {entry : String × Position}
    (visited : visitScalar? schema visit = some entry) : schema.isScalar entry.1 = true := by
  unfold visitScalar? at visited
  split at visited
  · split at visited
    · next scalar =>
        cases visited
        exact scalar
    · cases visited
  · cases visited

theorem mem_variableScalars_iff {schema : Schema} {declarations : List VariableDefinition}
    {scalar : String} :
    scalar ∈ (variableScalars schema declarations).map Prod.fst ↔
      schema.isScalar scalar = true ∧ schema.ReachedFrom declarations scalar := by
  unfold variableScalars Schema.ReachedFrom
  simp only [List.mem_map, List.mem_flatMap, List.mem_filter, Schema.mem_inputReach_iff]
  grind

theorem mem_scalars_iff {schema : Schema} {document : Document} {scalar : String} :
    scalar ∈ (scalars schema document).map Prod.fst ↔ schema.isScalar scalar = true ∧
      (schema.ReachedFrom ((document.definition?.bind Definition.variableDefinitions?).getD []) scalar ∨
        Selects schema document scalar) := by
  have selected : scalar ∈ ((((document.visits? schema).getD []).filterMap
      (visitScalar? schema)).map Prod.fst) ↔
      schema.isScalar scalar = true ∧ Selects schema document scalar := by
    unfold Selects
    simp only [List.mem_map, List.mem_filterMap]
    constructor
    · rintro ⟨⟨_, place⟩, ⟨visit, member, visited⟩, rfl⟩
      exact ⟨isScalar_of_visitScalar? visited, visit, member, place, visited⟩
    · rintro ⟨_, visit, member, place, visited⟩
      exact ⟨(scalar, place), ⟨visit, member, visited⟩, rfl⟩
  unfold scalars
  rw [List.map_append, List.mem_append, mem_variableScalars_iff, selected, and_or_left]

theorem mem_unknown_iff {config : Config} {document : Document} {scalar : String} :
    scalar ∈ unknown config document ↔ config.scalarSpec? scalar = none ∧
      config.schema.isScalar scalar = true ∧
        (config.schema.ReachedFrom
            ((document.definition?.bind Definition.variableDefinitions?).getD []) scalar ∨
          Selects config.schema document scalar) := by
  unfold unknown
  rw [mem_names_firsts_iff, ← mem_scalars_iff]
  simp only [List.not_mem_nil, not_false_eq_true, true_and, List.mem_map, List.mem_filter,
    Option.isNone_iff_eq_none]
  grind

private theorem count_unknown_le (config : Config) (document : Document) (scalar : String) :
    (unknown config document).count scalar ≤ 1 :=
  List.nodup_iff_count_le_one.1 (nodup_names_firsts _ _) scalar

end ScalarUsage


/-! ## Artifacts -/

/-- A shape of variables with exactly the input types that these reach, all their fields listed, and
with one conversion for each variable and field that needs one. -/
structure InputShape.Exact (config : Config) (declarations : List VariableDefinition)
    (shape : InputShape) : Prop where
  types : ∀ name fields, shape.types.find? name = some fields ↔
    config.schema.ReachedFrom declarations name ∧
      ∃ type, config.schema.type? name = some type ∧ type.kind = .inputObject ∧
        fields = type.body.inputFields.map fun field => (field.name, field.type.text)
  marshal : shape.marshal.entries.Perm (conversions config declarations shape.types.keys)

namespace Generation

private theorem input_of_generate {config : Config} {document : Document} {artifact : Artifact}
    (generates : generate config document = .ok artifact) :
    artifact.input = InputShape.ofDocument? config document := by
  unfold generate at generates
  split at generates
  · simp only at generates
    split at generates
    · cases generates
      rfl
    · cases generates
  · cases generates

def recursiveText : String :=
  "type Query \x7b find(by: Filter): ID \x7d input Filter \x7b at: Date next: Link \x7d " ++
    "input Link \x7b back: Filter since: Date raw: Raw \x7d scalar Date scalar Raw"

def datedConfig (schema : Schema) : Config :=
  { Config.ofSchema schema with scalars := NameMap.ofList [("Date", .ofCodec "Date" .epochMillis)] }

/-- The input of an artifact is exact for the variables of the operation, and the check of scalars
reports those without known conversion that variables reach or fields have, once for each document. -/
theorem generate_inputExact {sdl text : String} {config : Config} {definitions : ExecutableDocument}
    {definition : Definition} {declarations : List VariableDefinition} {document : Document}
    {artifact : Artifact} (built : Schema.parse sdl = .ok config.schema)
    (read : ExecutableDocument.parse text = .ok definitions) (member : definition ∈ definitions)
    (operates : definition.variableDefinitions? = some declarations)
    (declares : document.definition?.bind Definition.variableDefinitions? = some declarations)
    (distinct : (declarations.map VariableDefinition.name).Nodup)
    (generates : generate config document = .ok artifact) :
    (artifact.input = none ↔ declarations = []) ∧
      (∀ shape, artifact.input = some shape → shape.Exact config declarations) ∧
      (∀ registry documents checked, checked ∈ documents → (documents.map Document.name).Nodup →
        checked.definition?.bind Definition.variableDefinitions? = some declarations → ∀ scalar,
          let reports := ScalarUsage.reportsOf checked scalar
            (Pass.scalarUsage.run ⟨config, registry⟩ documents).errors
          reports ≤ 1 ∧ (reports = 1 ↔ config.scalarSpec? scalar = none ∧
            config.schema.isScalar scalar = true ∧
              (config.schema.ReachedFrom declarations scalar ∨
                ScalarUsage.Selects config.schema checked scalar))) ∧
      ∀ declared ∈ declarations, (config.schema.inputReach declared.type.base).Nodup := by
  have named := Schema.wellNamed_of_parse built
  have names := ExecutableDocument.isName_of_parse read member operates
  have input : artifact.input =
      if declarations.isEmpty then none else some (InputShape.ofDeclarations config declarations) := by
    rw [input_of_generate generates, InputShape.ofDocument?, declares]
    rfl
  refine ⟨?_, ?_, ?_, fun declared _ => NameMap.nodup_reach _ _⟩
  · rw [input]
    cases declarations <;> simp
  · intro shape given
    rw [input] at given
    split at given
    · cases given
    · cases given
      exact ⟨fun name fields => InputShape.find?_types_iff, InputShape.perm_marshal named names distinct⟩
  · intro registry documents checked inRun apart sameDeclarations scalar
    simp only [ScalarUsage.reportsOf_run config registry inRun apart]
    have atMost := ScalarUsage.count_unknown_le config checked scalar
    have reported : scalar ∈ ScalarUsage.unknown config checked ↔ _ := ScalarUsage.mem_unknown_iff
    rw [sameDeclarations, Option.getD_some, ← List.count_pos_iff] at reported
    refine ⟨atMost, ?_⟩
    rw [← reported]
    omega

theorem generate_inputExact_recursive :
    ∃ config document artifact shape declarations, generate config document = .ok artifact ∧
      artifact.input = some shape ∧ shape.types.keys = ["Filter", "Link"] ∧
      shape.marshal.entries = [("Filter.at", "Date"), ("Link.since", "Date"), ("on", "Date")] ∧
      shape.Exact config declarations ∧
      ScalarUsage.reportsOf document "Raw"
        (Pass.scalarUsage.run ⟨config, FragmentRegistry.ofDocuments []⟩ [document]).errors = 1 := by
  have ran : ((Schema.parse recursiveText).toOption.any fun schema =>
      (ExecutableDocument.parse
          "query Q($by: Filter, $on: Date) \x7b find(by: $by) \x7d").toOption.any fun definitions =>
        definitions.any fun definition => definition.variableDefinitions?.any fun declarations =>
          (generate (datedConfig schema) (Document.ofSource "Q" (.operation .query)
              (Compilation.textSource "") [definition])).toOption.any fun artifact =>
            artifact.input.any fun shape =>
              decide ((declarations.map VariableDefinition.name).Nodup) &&
              (decide (shape.types.keys = ["Filter", "Link"]) &&
              (decide (shape.marshal.entries =
                [("Filter.at", "Date"), ("Link.since", "Date"), ("on", "Date")]) &&
              (schema.isScalar "Raw" && declarations.any fun declared =>
                (schema.inputReach declared.type.base).contains "Raw")))) = true := by
    decide +kernel
  obtain ⟨schema, built, ran⟩ := (Option.any_eq_true _ _).1 ran
  obtain ⟨definitions, read, ran⟩ := (Option.any_eq_true _ _).1 ran
  obtain ⟨definition, member, ran⟩ := List.any_eq_true.1 ran
  obtain ⟨declarations, operates, ran⟩ := (Option.any_eq_true _ _).1 ran
  obtain ⟨artifact, generates, ran⟩ := (Option.any_eq_true _ _).1 ran
  obtain ⟨shape, given, ran⟩ := (Option.any_eq_true _ _).1 ran
  simp only [Bool.and_eq_true, decide_eq_true_eq] at ran
  obtain ⟨distinct, keys, entries, scalar, reached⟩ := ran
  obtain ⟨declared, declares, reached⟩ := List.any_eq_true.1 reached
  rw [toOption_eq_some_iff] at built read generates
  have dated : Schema.parse recursiveText = .ok (datedConfig schema).schema := built
  have working : (Document.ofSource "Q" (.operation .query) (Compilation.textSource "")
      [definition]).definition?.bind Definition.variableDefinitions? = some declarations := operates
  obtain ⟨_, shapes, reports, _⟩ :=
    generate_inputExact dated read member operates working distinct generates
  refine ⟨datedConfig schema, _, artifact, shape, declarations, generates, given, keys, entries,
    shapes shape given, ?_⟩
  refine (reports _ _ _ (List.mem_singleton_self _) (List.nodup_singleton _) working "Raw").2.2 ?_
  have leads := Schema.mem_inputReach_iff.1 (List.contains_iff_mem.1 reached)
  exact ⟨rfl, scalar, .inl ⟨declared, declares, leads⟩⟩

end Generation

end GraphqlStore
