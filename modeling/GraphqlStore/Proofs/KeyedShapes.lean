import GraphqlStore.Config.Validate
import GraphqlStore.Proofs.IdentityOccurrence
import GraphqlStore.Proofs.ShapeTypes

/-!
Identity in compiled shapes. The artifacts of an accepted run write down the
keys of all types of their shapes, and each shape selects the keys of its type,
and the name of the type at hand if it is abstract. Completion does not go
below `__typename`, so that this fails there if texts are declared composite.
-/

set_option autoImplicit false

namespace GraphqlStore

namespace IdentityCompletion

variable {config : Config} {type : String}

/-! ## Completed selections -/

/-- Selections made on a type as completion leaves them when it has nothing to report. -/
def Completes (config : Config) (type : String) (items : List Selection) : Prop :=
  ∃ selections, (complete config type selections).faults = [] ∧
    (complete config type selections).items = items

/-- A selection as completion leaves it when it has nothing to report. -/
def Finished (config : Config) (type : String) (selection : Selection) : Prop :=
  (∃ head, selection = .field head []) ∨
    ∃ original, (completeSelection config type original).1 = selection ∧
      (completeSelection config type original).2.1 = []

theorem finished_of_completeItems {items : List Selection}
    (silent : (completeItems config type items).faults = []) :
    ∀ item ∈ (completeItems config type items).items, Finished config type item := by
  intro item member
  rw [completeItems_items] at member
  obtain ⟨original, inItems, rfl⟩ := List.mem_map.1 member
  exact .inr ⟨original, rfl, forall_of_completeItems_faults silent original inItems⟩

theorem Completes.finished {items : List Selection} (completes : Completes config type items) :
    ∀ item ∈ items, Finished config type item := by
  obtain ⟨selections, silent, rfl⟩ := completes
  obtain ⟨quiet, reserved⟩ := List.append_eq_nil_iff.1 silent
  intro item member
  rcases ((reserveAll_reserved reserved).mem_iff item).1 member with known | ⟨name, _, _, rfl⟩
  · exact finished_of_completeItems quiet item known
  · exact .inl ⟨_, rfl⟩

theorem Completes.answered {items : List Selection} (completes : Completes config type items)
    {name : String} (reserved : name ∈ reservedNames config type) : Answered name items := by
  obtain ⟨selections, silent, rfl⟩ := completes
  exact (reserveAll_reserved (List.append_eq_nil_iff.1 silent).2).answered_iff.2 (.inr reserved)

private theorem isKeyField_of_foldl {keys : List String} {opening : Position} {start : Completed}
    (silent : (keys.foldl (fun done key => done.andThen (reserveKey config.schema type key opening))
      start).faults = []) :
    start.faults = [] ∧ ∀ key ∈ keys, isKeyField config.schema type key = true := by
  induction keys generalizing start with
  | nil => exact ⟨silent, by simp⟩
  | cons key rest ih =>
      obtain ⟨first, others⟩ := ih silent
      obtain ⟨before, own⟩ := List.append_eq_nil_iff.1 first
      refine ⟨before, List.forall_mem_cons.2 ⟨?_, others⟩⟩
      unfold reserveKey at own
      split at own
      · assumption
      · cases own

theorem Completes.isKeyField {items : List Selection} (completes : Completes config type items)
    (needed : needsIdentity config.schema type = true) {key : String}
    (member : key ∈ config.identityKeys type) :
    IdentityCompletion.isKeyField config.schema type key = true := by
  obtain ⟨selections, silent, rfl⟩ := completes
  have reserved := (List.append_eq_nil_iff.1 silent).2
  simp only [reserveAll, if_pos needed] at reserved
  exact (isKeyField_of_foldl reserved).2 key member

theorem Finished.field {head : Field} {inner : List Selection} {found : FieldRef}
    (finished : Finished config type (.field head inner)) (selected : inner ≠ [])
    (resolved : config.schema.field? type head.name = some found)
    (other : head.name ≠ Schema.typenameField) : Completes config found.typeName inner := by
  rcases Schema.field?_eq_some_iff.1 resolved with ⟨named, _, _⟩ | ⟨_, _, declared, _, _, rfl⟩
  · exact absurd named other
  · rcases finished with ⟨_, same⟩ | ⟨original, same, silent⟩
    · cases same
      exact absurd rfl selected
    · obtain ⟨items, rfl⟩ := completeSelection_eq_field_iff.1 ⟨inner, same⟩
      rcases completeSelection_field_cases config type head items with
        ⟨field, here, _, done⟩ | ⟨nothing, done⟩
      · cases resolved.symm.trans here
        rw [done] at same silent
        cases same
        exact ⟨_, silent, rfl⟩
      · rw [done] at same
        cases same
        exact absurd (nothing declared resolved) selected

theorem Finished.inline {head : InlineFragment} {inner : List Selection}
    (finished : Finished config type (.inline head inner)) :
    (head.typeWithin type = type ∧ ∀ item ∈ inner, Finished config type item) ∨
      (head.typeWithin type ≠ type ∧ Completes config (head.typeWithin type) inner) := by
  rcases finished with ⟨_, same⟩ | ⟨original, same, silent⟩
  · cases same
  · cases original with
    | field other items =>
        rcases completeSelection_field_cases config type other items with
          ⟨_, _, _, done⟩ | ⟨_, done⟩ <;> (rw [done] at same; cases same)
    | spread other => cases same
    | inline other items =>
        rw [completeSelection_inline] at same silent
        simp only at same silent
        cases same
        split at silent
        · rename_i covered
          rw [if_pos covered]
          exact .inl ⟨covered, finished_of_completeItems silent⟩
        · rename_i apart
          rw [if_neg apart]
          exact .inr ⟨apart, _, silent, rfl⟩

end IdentityCompletion

namespace Generation

variable {config : Config} {root : String} {items : List Selection} {whole : SelectionShape}

/-! ## Completed places -/

theorem StandAt.compiles {schema : Schema} {place : ShapePath} {type : String} {masked : Bool}
    {standing : List Selection} (compiles : ∀ item ∈ items, item.Compiles schema root)
    (stands : StandAt schema root items place type masked standing) :
    ∀ item ∈ standing, item.Compiles schema type := by
  induction stands with
  | root => exact compiles
  | field _ inStanding resolved composite ih =>
      cases ih _ inStanding with
      | field found _ inside =>
          cases resolved.symm.trans found
          exact inside composite
  | within _ inStanding same ih =>
      cases ih _ inStanding with
      | inline inside => exact same ▸ inside
  | condition _ inStanding _ ih =>
      cases ih _ inStanding with
      | inline inside => exact inside

/-- No field on the way to a place is `__typename`. -/
def AvoidsTypename (placed : List PlacedItem) (place : ShapePath) : Prop :=
  ∀ before occurrence, (before, ShapeItem.field occurrence) ∈ placed →
    before ++ [.field occurrence.head.responseName] <+: place →
    occurrence.head.name ≠ Schema.typenameField

theorem AvoidsTypename.of_append {placed : List PlacedItem} {place steps : ShapePath}
    (avoids : AvoidsTypename placed (place ++ steps)) : AvoidsTypename placed place :=
  fun before occurrence brought above =>
    avoids before occurrence brought (above.trans (List.prefix_append _ _))

theorem StandAt.completed {place : ShapePath} {type : String} {masked : Bool}
    {standing : List Selection} (completes : IdentityCompletion.Completes config root items)
    (compiles : ∀ item ∈ items, item.Compiles config.schema root)
    (stands : StandAt config.schema root items place type masked standing)
    (avoids : AvoidsTypename (placed config.schema root false items) place) :
    (∀ item ∈ standing, IdentityCompletion.Finished config type item) ∧
      ∃ masked opened, StandAt config.schema root items place type masked opened ∧
        IdentityCompletion.Completes config type opened := by
  induction stands with
  | root => exact ⟨completes.finished, false, items, .root, completes⟩
  | @field place type masked standing inner head found stands member resolved composite ih =>
      obtain ⟨finished, _⟩ := ih avoids.of_append
      have other : head.name ≠ Schema.typenameField :=
        avoids place _ (mem_placed_iff.2 ⟨_, _, _, _, stands, member, List.mem_cons_self⟩)
          (List.prefix_refl _)
      have selected : inner ≠ [] := by
        cases StandAt.compiles compiles stands _ member with
        | field here filled _ =>
            cases resolved.symm.trans here
            exact filled composite
      have done := (finished _ member).field selected resolved other
      exact ⟨done.finished, masked, inner, .field stands member resolved composite, done⟩
  | @within place type masked standing inner head stands member same ih =>
      obtain ⟨finished, opened⟩ := ih avoids
      rcases (finished _ member).inline with ⟨_, inside⟩ | ⟨apart, _⟩
      · exact ⟨inside, opened⟩
      · exact absurd same apart
  | @condition place type masked standing inner head stands member apart ih =>
      obtain ⟨finished, _⟩ := ih avoids.of_append
      rcases (finished _ member).inline with ⟨same, _⟩ | ⟨_, done⟩
      · exact absurd same apart
      · exact ⟨done.finished, _, inner, .condition stands member apart, done⟩

private theorem Records.avoidsTypename
    (records : Records config (placed config.schema root false items) whole)
    (distinct : whole.Distinct) {place : ShapePath} {type : String} {shape : SelectionShape}
    (holds : whole.Holds root (fun info => info.field ≠ Schema.typenameField) place type shape) :
    AvoidsTypename (placed config.schema root false items) place := by
  induction holds with
  | root =>
      intro before occurrence _ above
      simp at above
  | @field place type name shape inner info holds member through ih =>
      intro before occurrence brought above
      rcases List.prefix_concat_iff.1 above with same | earlier
      · obtain ⟨rfl, last⟩ := List.append_inj' same rfl
        obtain ⟨_, _, _, _, stands, inStanding, own⟩ := mem_placed_iff.1 brought
        obtain ⟨head, below, rfl, rfl⟩ := Selection.eq_field_of_own own
        obtain ⟨entry, inFields, named, backed, _⟩ := records.backs stands inStanding
        have found := SelectionShape.field?_of_mem (distinct.shapeAt _) inFields
        rw [holds.shapeAt_eq distinct] at found
        have known := SelectionShape.field?_of_mem (holds.shapeAt_eq distinct ▸ distinct.shapeAt _) member
        have alike : entry.name = name := named.trans (by simpa using last)
        rw [alike] at found
        cases known.symm.trans found
        exact backed ▸ through
      · exact ih before occurrence brought earlier
  | @condition place type name shape inner holds member ih =>
      intro before occurrence brought above
      rcases List.prefix_concat_iff.1 above with same | earlier
      · simp at same
      · exact ih before occurrence brought earlier

/-! ## Identified shapes -/

/-- A shape on a type tells which value it is of: it selects the keys of the type, and the name of
the type at hand if it is abstract. -/
structure Identified (config : Config) (type : String) (shape : SelectionShape) : Prop where
  keys : ∀ key ∈ config.identityKeys type, ∃ info field, .leaf key info ∈ shape.fields ∧
    info.field = key ∧ config.schema.field? type key = some (.declared field) ∧
    info.type = field.type.base
  typename : config.schema.isAbstract type = true → ∃ entry ∈ shape.fields,
    entry.name = Schema.typenameField ∧ entry.info.field = Schema.typenameField

private theorem isComposite_of_mem_identityKeys {type key : String}
    (member : key ∈ config.identityKeys type) :
    config.schema.isComposite type = true := by
  rw [Config.identityKeys, Config.identityKeys?] at member
  split at member
  · assumption
  · cases member

private theorem isComposite_of_isAbstract {schema : Schema} {type : String}
    (abstract : schema.isAbstract type = true) : schema.isComposite type = true := by
  obtain ⟨kind, found, holds⟩ := (Option.any_eq_true _ _).1 abstract
  refine Schema.isComposite_iff.2 ⟨kind, found, ?_⟩
  cases kind <;> first | rfl | cases holds

theorem reservedNames_eq {type : String} (other : type ≠ config.schema.query)
    (composite : config.schema.isComposite type = true) :
    IdentityCompletion.needsIdentity config.schema type = true ∧
      IdentityCompletion.reservedNames config type =
        (if config.schema.isAbstract type then [Schema.typenameField] else []) ++
          config.identityKeys type := by
  have needed : IdentityCompletion.needsIdentity config.schema type = true := by
    simp [IdentityCompletion.needsIdentity, composite, other]
  exact ⟨needed, by rw [IdentityCompletion.reservedNames, if_pos needed]⟩

theorem Records.answered (records : Records config (placed config.schema root false items) whole)
    {place : ShapePath} {type name : String} {masked : Bool} {opened : List Selection}
    (stands : StandAt config.schema root items place type masked opened)
    (answered : Answered name opened) :
    ∃ entry ∈ (whole.shapeAt place).fields, entry.name = name ∧ entry.info.field = name ∧
      ∃ found, config.schema.field? type name = some found ∧ entry.info.type = found.typeName ∧
        entry.selection?.isSome = config.schema.isComposite found.typeName := by
  obtain ⟨head, inner, member, answers⟩ := answered
  obtain ⟨rfl, same⟩ := Field.answers_iff.1 answers
  obtain ⟨entry, inFields, named, backed, found⟩ := records.backs stands member
  exact ⟨entry, inFields, named.trans same, backed, found⟩

theorem Records.identified (records : Records config (placed config.schema root false items) whole)
    (distinct : whole.Distinct) (completes : IdentityCompletion.Completes config root items)
    (compiles : ∀ item ∈ items, item.Compiles config.schema root)
    {place : ShapePath} {type : String} {shape : SelectionShape}
    (holds : whole.Holds root (fun info => info.field ≠ Schema.typenameField) place type shape)
    (other : type ≠ config.schema.query) : Identified config type shape := by
  obtain ⟨masked, standing, stands⟩ := records.stands distinct holds
  obtain ⟨_, deep, opened, opens, done⟩ :=
    StandAt.completed completes compiles stands (records.avoidsTypename distinct holds)
  rw [← holds.shapeAt_eq distinct]
  refine ⟨fun key member => ?_, fun abstract => ?_⟩
  · obtain ⟨needed, reserved⟩ := reservedNames_eq other (isComposite_of_mem_identityKeys member)
    obtain ⟨entry, inFields, named, backed, found, resolved, typed, composite⟩ :=
      records.answered opens (done.answered (reserved ▸ List.mem_append_right _ member))
    obtain ⟨field, kind, declared, known, leaf⟩ :=
      IdentityCompletion.isKeyField_iff.1 (done.isKeyField needed member)
    cases declared.symm.trans resolved
    have single : config.schema.isComposite field.type.base = false := by
      rw [Schema.isComposite, known]
      cases kind <;> first | rfl | cases leaf
    change _ = config.schema.isComposite field.type.base at composite
    rw [single] at composite
    cases entry with
    | composite name info inner => cases composite
    | leaf name info =>
        cases named
        exact ⟨info, field, inFields, backed, resolved, typed⟩
  · obtain ⟨needed, reserved⟩ := reservedNames_eq other (isComposite_of_isAbstract abstract)
    have member : Schema.typenameField ∈ IdentityCompletion.reservedNames config type := by
      rw [reserved, if_pos abstract]
      exact List.mem_cons_self
    obtain ⟨entry, inFields, named, backed, _⟩ := records.answered opens (done.answered member)
    exact ⟨entry, inFields, named, backed⟩

private theorem Records.holds_apart
    (records : Records config (placed config.schema root false items) whole)
    (distinct : whole.Distinct) (text : config.schema.isComposite "String" = false)
    {through : FieldInfo → Prop} {place : ShapePath} {type : String} {shape : SelectionShape}
    (holds : whole.Holds root through place type shape) :
    whole.Holds root (fun info => info.field ≠ Schema.typenameField) place type shape := by
  induction holds with
  | root => exact .root
  | @field place type name shape inner info holds member _ ih =>
      refine .field ih member fun isName => ?_
      rw [← holds.shapeAt_eq distinct] at member
      obtain ⟨outer, _, _, head, _, _, _, _, backed, found, resolved, _, composite⟩ :=
        records.backed distinct member
      rcases Schema.field?_eq_some_iff.1 resolved with ⟨_, _, rfl⟩ | ⟨other, _⟩
      · rw [Schema.typeName_typename, text] at composite
        cases composite
      · exact other (backed.symm.trans isName)
  | condition _ member ih => exact .condition ih member

end Generation

/-! ## Settings -/

private theorem Config.keys_of_checkType {schema : Schema} {name : String} {rule : TypeConfig}
    (passes : checkType schema name rule = .ok ()) : rule.keys ≠ [] := by
  intro none
  unfold checkType at passes
  split at passes
  · cases passes
  · rename_i type _
    cases composite : type.kind.isComposite <;> simp [composite, none] at passes <;> cases passes

theorem Config.identityKeys?_ne_nil {config : Config} (valid : config.validate = .ok ())
    (type : String) : config.identityKeys? type ≠ some [] := by
  intro none
  rw [Config.identityKeys?] at none
  split at none
  · split at none
    · rename_i rule found
      obtain ⟨_, _, valid⟩ := bind_eq_ok_iff.1 valid
      obtain ⟨_, types, _⟩ := bind_eq_ok_iff.1 valid
      have passes := forM_ok types (type, rule)
        ((NameMap.mem_iff_lookup config.types.increasing).2 found)
      exact Config.keys_of_checkType passes (Option.some.inj none)
    · split at none
      · cases none
      · cases none
  · cases none

/-! ## Accepted runs -/

private theorem Pipeline.completes_of_mem {config : Config} {documents : List Document}
    (collected : Collected documents) (accepts : Accepts config documents) {document : Document}
    (member : document ∈ completed config documents) {root : String} {selections : SelectionSet}
    (rooted : document.rootType? config.schema = some root)
    (selected : document.selections? = some selections) :
    IdentityCompletion.Completes config root selections.items := by
  obtain ⟨middle, middleMember, rfl⟩ := List.mem_map.1 member
  obtain ⟨source, sourceMember, definition, _, defines⟩ := mem_inlined collected middleMember
  cases start : middle.rootType? config.schema with
  | none =>
      rw [IdentityCompletion.step, start, start] at rooted
      cases rooted
  | some other =>
      obtain ⟨revised, silent⟩ := IdentityCompletion.step_defines defines start
      cases rooted.symm.trans ((defines.rootType?_withItems revised config.schema).trans start)
      cases selected.symm.trans revised.selections?_eq
      rw [Definition.selections_withItems]
      exact ⟨_, silent.1 (accepts.keys middle middleMember), rfl⟩

/-- A shape of an artifact that is reached through fields with a property. -/
def Artifact.HasShape (artifact : Artifact) (through : FieldInfo → Prop) (type : String)
    (shape : SelectionShape) : Prop :=
  ∃ place, artifact.selection.Holds artifact.rootType through place type shape

namespace Generation

/-- The artifacts of an accepted run write down the keys of all types of their shapes that have
keys, and every shape that is not below `__typename` is identified. Below `__typename` there is
none, unless texts are declared composite. -/
theorem generate_identified {config : Config} {sources : List DocumentSource}
    {collection : Collection} {documents revised : List Document} {cancelled : Bool}
    {document : Document} {artifact : Artifact} (collects : Collection.collect sources = .ok collection)
    (clean : collection.toExcept = .ok documents)
    (accepted : Pipeline.run config (Pass.standard []) documents false = .ok (revised, cancelled))
    (member : document ∈ revised) (generates : generate config document = .ok artifact) :
    (∀ type keys, artifact.keys.find? type = some keys ↔
      (∃ shape, artifact.HasShape (fun _ => True) type shape) ∧
        config.identityKeys? type = some keys ∧ keys ≠ []) ∧
    (config.validate = .ok () → ∀ type, config.identityKeys? type ≠ some []) ∧
    (∀ type shape, artifact.HasShape (fun info => info.field ≠ Schema.typenameField) type shape →
      type ≠ config.schema.query → Identified config type shape) ∧
    (config.schema.isComposite "String" = false → ∀ type shape,
      artifact.HasShape (fun _ => True) type shape →
        artifact.HasShape (fun info => info.field ≠ Schema.typenameField) type shape) := by
  obtain ⟨accepts, rfl, _⟩ := Pipeline.run_standard_eq_ok_iff.1 accepted
  have collected := collected_of_collect collects clean
  obtain ⟨selections, rooted, selected, records, distinct⟩ := records_of_generate generates
  have compiles := ((generate_isOk_iff rooted selected).1 ⟨artifact, generates⟩).1
  have completes := Pipeline.completes_of_mem collected accepts member rooted selected
  refine ⟨fun type keys => ?_, Config.identityKeys?_ne_nil, ?_, ?_⟩
  · have same : artifact.keys =
        keysOf config (artifact.rootType :: shapeTypes config.schema artifact.rootType selections.items) :=
      keys_of_generate generates selected
    rw [same, find?_keysOf, mem_shapeTypes_iff]
    refine and_congr_left fun _ => ⟨?_, ?_⟩
    · rintro ⟨place, masked, standing, stands⟩
      obtain ⟨shape, holds⟩ := records.holds distinct stands
      exact ⟨shape, place, holds⟩
    · rintro ⟨shape, place, holds⟩
      exact ⟨place, records.stands distinct holds⟩
  · rintro type shape ⟨place, holds⟩ other
    exact records.identified distinct completes compiles holds other
  · rintro text type shape ⟨place, holds⟩
    exact ⟨place, records.holds_apart distinct text holds⟩

/-- In the catalog, items are identified by their keys, and nodes by their type as well. -/
theorem generate_identified_catalog :
    ∃ schema document artifact, generate (.ofSchema schema) document = .ok artifact ∧
      schema.isAbstract "Node" = true ∧
      ∀ type ∈ ["Item", "Node"], ∃ shape, artifact.keys.find? type = some ["id"] ∧
        artifact.HasShape (fun _ => True) type shape ∧
        Identified (.ofSchema schema) type shape := by
  have ran : (Pipeline.runTexts? Pipeline.catalog Pipeline.catalogTexts).any (fun result =>
      !result.1.isComposite "String" && result.1.isAbstract "Node" && result.1.query == "Query" &&
        result.2.any fun document =>
          (generate (.ofSchema result.1) document).toOption.any fun artifact =>
            artifact.keys.find? "Item" == some ["id"] && artifact.keys.find? "Node" == some ["id"]) =
      true := by
    decide +kernel
  obtain ⟨⟨schema, revised⟩, texts, checked⟩ := (Option.any_eq_true _ _).1 ran
  simp only [Bool.and_eq_true, Bool.not_eq_true', beq_iff_eq] at checked
  obtain ⟨⟨⟨text, abstract⟩, query⟩, some⟩ := checked
  obtain ⟨document, member, made⟩ := List.any_eq_true.1 some
  obtain ⟨artifact, generates, keys⟩ := (Option.any_eq_true _ _).1 made
  simp only [Bool.and_eq_true, beq_iff_eq] at keys
  rw [toOption_eq_some_iff] at generates
  obtain ⟨_, _, _, _, _, collects, clean, accepted⟩ := Pipeline.runTexts?_eq_some texts
  obtain ⟨written, _, identified, apart⟩ :=
    generate_identified collects clean accepted member generates
  have carried {type : String} (known : artifact.keys.find? type = Option.some ["id"])
      (other : type ≠ "Query") : ∃ shape, artifact.keys.find? type = Option.some ["id"] ∧
        artifact.HasShape (fun _ => True) type shape ∧ Identified (.ofSchema schema) type shape := by
    obtain ⟨⟨shape, has⟩, _⟩ := (written type ["id"]).1 known
    exact ⟨shape, known, has, identified type shape (apart text type shape has) (query ▸ other)⟩
  refine ⟨schema, document, artifact, generates, abstract, fun type inTypes => ?_⟩
  rcases List.mem_pair.1 inTypes with rfl | rfl
  · exact carried keys.1 (by decide)
  · exact carried keys.2 (by decide)

def keyedText : List SchemaDefinition :=
  [.type "String" (.object [⟨"id", .named "ID", []⟩, ⟨"x", .named "Int", []⟩] []),
    .type "Query" (.object [⟨"a", .named "Int", []⟩] [])]

/-- The shape below `__typename` lacks the keys that the artifact writes down for it. -/
theorem shape_below_typename_unidentified :
    ∃ schema revised document artifact shape,
      Pipeline.runTexts? keyedText ["query Q \x7b __typename \x7b x \x7d \x7d"] =
        some (schema, revised) ∧ document ∈ revised ∧
      generate (.ofSchema schema) document = .ok artifact ∧
      artifact.keys.find? "String" = some ["id"] ∧ "String" ≠ schema.query ∧
      artifact.HasShape (fun _ => True) "String" shape ∧
      ¬ Identified (.ofSchema schema) "String" shape := by
  have ran : (Pipeline.runTexts? keyedText ["query Q \x7b __typename \x7b x \x7d \x7d"]).any
      (fun result => result.1.query == "Query" &&
        Config.identityKeys (.ofSchema result.1) "String" == ["id"] &&
        result.2.any fun document =>
          (generate (.ofSchema result.1) document).toOption.any fun artifact =>
            artifact.keys.find? "String" == some ["id"] &&
              artifact.selection.fields.any fun entry => entry.info.type == "String" &&
                entry.selection?.any fun inner => inner.fields.all fun below => below.name != "id") =
      true := by
    decide +kernel
  obtain ⟨⟨schema, revised⟩, texts, checked⟩ := (Option.any_eq_true _ _).1 ran
  simp only [Bool.and_eq_true, beq_iff_eq] at checked
  obtain ⟨⟨query, own⟩, some⟩ := checked
  obtain ⟨document, member, made⟩ := List.any_eq_true.1 some
  obtain ⟨artifact, generates, entries⟩ := (Option.any_eq_true _ _).1 made
  simp only [Bool.and_eq_true, beq_iff_eq] at entries
  obtain ⟨entry, inFields, below⟩ := List.any_eq_true.1 entries.2
  simp only [Bool.and_eq_true, beq_iff_eq] at below
  obtain ⟨shape, selected, lacking⟩ := (Option.any_eq_true _ _).1 below.2
  rw [toOption_eq_some_iff] at generates
  cases entry with
  | leaf name info => cases selected
  | composite name info inner =>
      cases selected
      have holds : artifact.HasShape (fun _ => True) info.type shape :=
        ⟨_, .field .root inFields trivial⟩
      have typed : info.type = "String" := below.1
      rw [typed] at holds
      refine ⟨schema, revised, document, artifact, shape, texts, member, generates, entries.1,
        ?_, holds, fun identified => ?_⟩
      · rw [query]
        decide
      · obtain ⟨found, _, present, _⟩ := identified.keys "id" (own ▸ List.mem_cons_self)
        have named := List.all_eq_true.1 lacking _ present
        simp [FieldShape.name] at named

end Generation

end GraphqlStore
