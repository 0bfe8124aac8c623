import GraphqlStore.Proofs.AcceptedTyping
import GraphqlStore.Proofs.CacheKeys
import GraphqlStore.Proofs.KeyedShapes

/-!
Conversions of scalars in artifacts. The scalars of a document are checked
before any pass has changed it, and the check does not go below `__typename`.
Completion may then select fields of scalars that nothing is known about, and
artifacts convert nothing there. There are no other gaps.
-/

set_option autoImplicit false

namespace GraphqlStore

/-! ## Fields of selections -/

/-- All fields in a selection on a type have a property, as far as the fields above them are
declared. -/
inductive Selection.Accounted (schema : Schema) (accounts : String → Field → Prop) :
    String → Selection → Prop where
  | field {parent : String} {head : Field} {items : List Selection} :
      accounts parent head →
      (∀ declared, schema.field? parent head.name = some (.declared declared) →
        ∀ item ∈ items, Selection.Accounted schema accounts declared.type.base item) →
      Selection.Accounted schema accounts parent (.field head items)
  | spread {parent : String} {head : Spread} :
      Selection.Accounted schema accounts parent (.spread head)
  | inline {parent : String} {head : InlineFragment} {items : List Selection} :
      (∀ item ∈ items, Selection.Accounted schema accounts (head.typeWithin parent) item) →
      Selection.Accounted schema accounts parent (.inline head items)

abbrev Accounted (schema : Schema) (accounts : String → Field → Prop) (parent : String)
    (items : List Selection) : Prop :=
  ∀ item ∈ items, item.Accounted schema accounts parent

variable {schema : Schema} {accounts : String → Field → Prop} {parent : String}

theorem Schema.typeBelow_of_declared {name : String} {declared : FieldDef}
    (resolved : schema.field? parent name = some (.declared declared)) :
    schema.typeBelow parent name = declared.type.base := by
  rw [typeBelow, resolved]

theorem Supplemented.accounted {supplied : String → String → Prop} {items others : List Selection}
    (supplies : ∀ parent name position, supplied parent name →
      accounts parent (Field.plain name position))
    (supplemented : Supplemented schema supplied parent items others)
    (accounted : Accounted schema accounts parent items) :
    Accounted schema accounts parent others := by
  induction supplemented with
  | nil => exact accounted
  | field _ _ ihBelow ihRest =>
      obtain ⟨first, rest⟩ := List.forall_mem_cons.1 accounted
      cases first with
      | field own below =>
          refine List.forall_mem_cons.2 ⟨.field own fun declared resolved => ?_, ihRest rest⟩
          rw [Schema.typeBelow_of_declared resolved] at ihBelow
          exact ihBelow (below declared resolved)
  | spread _ ih =>
      exact List.forall_mem_cons.2 ⟨.spread, ih (List.forall_mem_cons.1 accounted).2⟩
  | inline _ _ ihWithin ihRest =>
      obtain ⟨first, rest⟩ := List.forall_mem_cons.1 accounted
      cases first with
      | inline within =>
          exact List.forall_mem_cons.2 ⟨.inline (ihWithin within), ihRest rest⟩
  | plain given _ _ ihBelow ihRest =>
      refine List.forall_mem_cons.2
        ⟨.field (supplies _ _ _ given) fun declared resolved => ?_, ihRest accounted⟩
      have below : schema.typeBelow _ _ = _ := Schema.typeBelow_of_declared resolved
      exact below ▸ ihBelow (List.forall_mem_nil _)

namespace Inlining

variable {registry : FragmentRegistry} {masking : FragmentMasking}

private theorem accounted_mapSpreads {replace : Spread → Selection} {selection : Selection}
    (replaced : ∀ spread type, (replace spread).Accounted schema accounts type)
    (accounted : selection.Accounted schema accounts parent) :
    (selection.mapSpreads replace).Accounted schema accounts parent := by
  induction accounted with
  | field own _ ih =>
      refine .field own fun declared resolved => ?_
      rw [mapSpreads_eq]
      exact List.forall_mem_map.2 (ih declared resolved)
  | spread => exact replaced _ _
  | inline _ ih =>
      refine .inline ?_
      rw [mapSpreads_eq]
      exact List.forall_mem_map.2 ih

private theorem accounted_expandSpread
    (bodies : ∀ name fragment, registry.find? name = some fragment →
      Accounted schema accounts fragment.condition fragment.selections.items)
    (stack : List String) (spread : Spread) (type : String) :
    (expandSpread registry masking stack spread).Accounted schema accounts type := by
  fun_induction expandSpread registry masking stack spread generalizing type with
  | case1 stack spread none => exact .spread
  | case2 stack spread fragment found fresh smaller ih =>
      refine .inline ?_
      rw [mapSpreads_eq]
      exact List.forall_mem_map.2 fun item member =>
        accounted_mapSpreads ih (bodies spread.name fragment found item member)
  | case3 stack spread fragment found again => exact .spread

private theorem accounted_expand {stack : List String} {items : List Selection}
    (bodies : ∀ name fragment, registry.find? name = some fragment →
      Accounted schema accounts fragment.condition fragment.selections.items)
    (accounted : Accounted schema accounts parent items) :
    Accounted schema accounts parent (expand registry masking stack items) := by
  rw [expand, mapSpreads_eq]
  exact List.forall_mem_map.2 fun item member =>
    accounted_mapSpreads (accounted_expandSpread bodies stack) (accounted item member)

end Inlining

/-! ## Checked scalars -/

namespace Config

/-- A field on a type is no scalar, or one with a known conversion. -/
def Knows (config : Config) (parent : String) (head : Field) : Prop :=
  ∀ found, config.schema.field? parent head.name = some found →
    config.schema.isScalar found.typeName = true → (config.scalarSpec? found.typeName).isSome = true

/-- A field of the form that completion adds to selections on a type. A field that is written in a
document may have this form as well. -/
def Supplies (config : Config) (parent : String) (head : Field) : Prop :=
  head = .plain head.name head.position ∧
    (PaginationCompletion.Supplied parent head.name ∨ head.name ∈ config.identityKeys parent)

def AccountsFor (config : Config) (parent : String) (head : Field) : Prop :=
  config.Supplies parent head ∨ config.Knows parent head

private theorem knows_typename {config : Config} (head : Field)
    (named : head.name = Schema.typenameField) : config.Knows parent head := by
  intro found resolved _
  rcases Schema.field?_eq_some_iff.1 resolved with ⟨_, _, rfl⟩ | ⟨other, _⟩
  · rw [Schema.typeName_typename, scalarSpec?, Option.isSome_or]
    exact Bool.or_eq_true_iff.2 (.inr rfl)
  · exact absurd named other

private theorem accountsFor_of_identity {config : Config} (parent name : String)
    (position : Position) (supplied : IdentityCompletion.Supplied config parent name) :
    config.AccountsFor parent (Field.plain name position) := by
  rcases supplied with named | key
  · exact .inr (knows_typename _ named)
  · exact .inl ⟨rfl, .inr key⟩

private theorem accountsFor_of_pagination (config : Config) (parent name : String)
    (position : Position) (supplied : PaginationCompletion.Supplied parent name) :
    config.AccountsFor parent (Field.plain name position) :=
  .inl ⟨rfl, .inl supplied⟩

end Config

/-- A field of some type is selected in a document, as far as the check of scalars goes. -/
def Document.Selects (schema : Schema) (document : Document) (type : String) : Prop :=
  ∃ walk, document.visits? schema = some walk ∧ ∃ parent head items found path,
    Visit.field parent head items (some found) path ∈ walk ∧ found.typeName = type

namespace ScalarUsage

private theorem eq_nil_of_firsts {entries : List (String × Position)}
    (none : firsts [] entries = []) :
    entries = [] := by
  cases entries with
  | nil => rfl
  | cons first rest => cases none

theorem isSome_of_faults {config : Config} {document : Document} {walk : List Visit}
    (silent : faults config document = []) (walked : document.visits? config.schema = some walk)
    {visit : Visit} (member : visit ∈ walk) {entry : String × Position}
    (scalar : visitScalar? config.schema visit = some entry) :
    (config.scalarSpec? entry.1).isSome = true := by
  have reached : entry ∈ scalars config.schema document := by
    rw [scalars, walked]
    exact List.mem_append_right _ (List.mem_filterMap.2 ⟨visit, member, scalar⟩)
  have known := List.filter_eq_nil_iff.1 (eq_nil_of_firsts (List.map_eq_nil_iff.1 silent))
  simpa [Option.isSome_iff_ne_none] using known entry reached

private theorem not_selects_of_faults {config : Config} {document : Document}
    (silent : faults config document = []) {type : String}
    (scalar : config.schema.isScalar type = true) (unknown : config.scalarSpec? type = none) :
    ¬ document.Selects config.schema type := by
  rintro ⟨walk, walked, parent, head, items, found, path, member, rfl⟩
  have known := isSome_of_faults silent walked member (if_pos scalar)
  rw [unknown] at known
  cases known

end ScalarUsage

namespace Pipeline

variable {config : Config} {documents : List Document} {definitions : List SchemaDefinition}

private theorem accounted_of_accepts (built : Schema.ofDefinitions definitions = .ok config.schema)
    (accepts : Accepts config documents) {document : Document} (member : document ∈ documents)
    {definition : Definition} (defines : document.Defines definition) {root : String}
    (rooted : document.rootType? config.schema = some root) :
    Accounted config.schema config.AccountsFor root definition.selections.items := by
  have conforms := accepts.conforms document member
  obtain ⟨other, same, _, visited, _⟩ := Conformance.sound_of_faults defines.definition?_eq conforms
  cases same.symm.trans rooted
  have composite := Conformance.isComposite_rootType built defines conforms rooted
  intro item inItems
  have met (visit : Visit) (inside : visit ∈ item.visits config.schema root []) :
      Conformance.visitFaults config.schema (FragmentRegistry.ofDocuments documents) visit = [] ∧
        ∀ entry, ScalarUsage.visitScalar? config.schema visit = some entry →
          (config.scalarSpec? entry.1).isSome = true := by
    have inWalk := mem_visits.2 ⟨item, inItems, inside⟩
    refine ⟨visited visit inWalk, fun entry => ?_⟩
    exact ScalarUsage.isSome_of_faults (accepts.scalars document member)
      (defines.visits?_eq rooted) inWalk
  refine Conformance.walkInduction _ ?_ ?_ ?_ [] (Schema.type?_isSome_of_isComposite composite) item
    met
  · intro parent head items found path resolved _ known below
    refine .field (.inr fun twin alike scalar => ?_) fun declared isDeclared => ?_
    · cases resolved.symm.trans alike
      exact known (found.typeName, head.position) (if_pos scalar)
    · exact below declared (Option.some.inj (resolved.symm.trans isDeclared))
  · exact fun _ _ => .spread
  · exact fun _ _ within => .inline within

private theorem accounted_revisedItems
    (built : Schema.ofDefinitions definitions = .ok config.schema)
    (collected : Collected documents) (accepts : Accepts config documents) {document : Document}
    (member : document ∈ documents) {definition : Definition}
    (defines : document.Defines definition) {root : String}
    (rooted : document.rootType? config.schema = some root) :
    Accounted config.schema config.AccountsFor root
      (revisedItems config documents document definition root) := by
  refine revisedItems_of_written (motive := Accounted config.schema config.AccountsFor) collected
    ?_ ?_ ?_ ?_ member defines rooted
  · exact fun source inDocuments written definesSource type rootedSource =>
      accounted_of_accepts built accepts inDocuments definesSource rootedSource
  · exact fun source type items accounted =>
      (PaginationCompletion.completedItems_supplements config source type items).accounted
        config.accountsFor_of_pagination accounted
  · exact fun registry stack type items bodies accounted =>
      Inlining.accounted_expand bodies accounted
  · exact fun type selections accounted =>
      (IdentityCompletion.complete_supplements type selections).accounted
        Config.accountsFor_of_identity accounted

private theorem accounted_of_mem (built : Schema.ofDefinitions definitions = .ok config.schema)
    (collected : Collected documents) (accepts : Accepts config documents) {document : Document}
    (member : document ∈ completed config documents) {root : String} {selections : SelectionSet}
    (rooted : document.rootType? config.schema = some root)
    (selected : document.selections? = some selections) :
    Accounted config.schema config.AccountsFor root selections.items := by
  obtain ⟨source, inDocuments, definition, type, defines, rootedSource, definesLast, rootedLast⟩ :=
    mem_completed collected accepts member
  cases rootedLast.symm.trans rooted
  cases definesLast.selections?_eq.symm.trans selected
  rw [Definition.selections_withItems]
  exact accounted_revisedItems built collected accepts inDocuments defines rootedSource

end Pipeline

/-! ## Artifacts -/

namespace Generation

theorem StandAt.accounted {root : String} {items : List Selection} {place : ShapePath}
    {type : String} {masked : Bool} {standing : List Selection}
    (accounted : Accounted schema accounts root items)
    (stands : StandAt schema root items place type masked standing)
    (avoids : AvoidsTypename (placed schema root false items) place) :
    Accounted schema accounts type standing := by
  induction stands with
  | root => exact accounted
  | @field place type masked standing inner head found stands member resolved composite ih =>
      have above := ih avoids.of_append
      have other : head.name ≠ Schema.typenameField :=
        avoids place _ (mem_placed_iff.2 ⟨_, _, _, _, stands, member, List.mem_cons_self⟩)
          (List.prefix_refl _)
      rcases Schema.field?_eq_some_iff.1 resolved with ⟨named, _, _⟩ | ⟨_, _, declared, _, _, rfl⟩
      · exact absurd named other
      · cases above _ member with
        | field _ below => exact below declared resolved
  | within _ member same ih =>
      cases ih avoids _ member with
      | inline inside => exact same ▸ inside
  | condition _ member _ ih =>
      have above := ih avoids.of_append
      cases above _ member with
      | inline inside => exact inside

/-- A selected field that need not be in a document as the check of scalars sees it: it has the form
that completion adds, or the path to it leads through `__typename`. -/
def Unchecked (config : Config) (brought : List PlacedItem) (path : ShapePath)
    (occurrence : Occurrence) : Prop :=
  config.Supplies occurrence.parent occurrence.head ∨ ¬ AvoidsTypename brought path

private theorem unchecked_or_knows {config : Config} {root : String} {items : List Selection}
    (accounted : Accounted config.schema config.AccountsFor root items) {path : ShapePath}
    {occurrence : Occurrence}
    (occurs : occurrence ∈ occurrencesAt path (placed config.schema root false items)) :
    Unchecked config (placed config.schema root false items) path occurrence ∨
      config.Knows occurrence.parent occurrence.head := by
  by_cases avoids : AvoidsTypename (placed config.schema root false items) path
  · obtain ⟨place, brought, rfl⟩ := mem_occurrencesAt.1 occurs
    obtain ⟨type, masked, standing, selection, stands, inStanding, own⟩ := mem_placed_iff.1 brought
    obtain ⟨head, inner, rfl, rfl⟩ := Selection.eq_field_of_own own
    cases StandAt.accounted accounted stands avoids.of_append _ inStanding with
    | field accounts _ => exact accounts.imp_left .inl
  · exact .inl (.inr avoids)

/-- The scalar of an entry has a known conversion, and the entry names it unless values are left as
they are. -/
def Converted (config : Config) (info : FieldInfo) : Prop :=
  ∃ spec, config.scalarSpec? info.type = some spec ∧
    (info.marshal = none ↔ spec.codec.isIdentity = true)

private theorem converted_or_unknown {config : Config} {info : FieldInfo}
    (scalar : config.schema.isScalar info.type = true)
    (marshal : info.marshal = if config.needsMarshal info.type then some info.type else none) :
    Converted config info ∨ (config.scalarSpec? info.type = none ∧ info.marshal = none) := by
  rw [Schema.isScalar] at scalar
  rw [Config.needsMarshal, scalar, Bool.true_and] at marshal
  cases found : config.scalarSpec? info.type with
  | none =>
      rw [found] at marshal
      exact .inr ⟨rfl, marshal⟩
  | some spec =>
      rw [found, Option.any_some, ScalarSpec.converts] at marshal
      refine .inl ⟨spec, found, ?_⟩
      rw [marshal]
      cases spec.codec.isIdentity <;> simp

/-- In an artifact of an accepted run the entry of a scalar is converted as its codec says, unless
nothing is known about the scalar. Then the entry has no conversion, the check of scalars met no
field of that scalar in any document, and every selection of the entry has the form that completion
adds or stands below `__typename`. -/
theorem generate_converted_or_unchecked {definitions : List SchemaDefinition} {config : Config}
    {sources : List DocumentSource} {collection : Collection} {documents revised : List Document}
    {cancelled : Bool} {document : Document} {artifact : Artifact}
    (built : Schema.ofDefinitions definitions = .ok config.schema)
    (collects : Collection.collect sources = .ok collection)
    (clean : collection.toExcept = .ok documents)
    (accepted : Pipeline.run config (Pass.standard []) documents false = .ok (revised, cancelled))
    (member : document ∈ revised) (generates : generate config document = .ok artifact)
    {path : ShapePath} {info : FieldInfo} (here : artifact.selection.infoAt? path = some info)
    (scalar : config.schema.isScalar info.type = true) :
    ∃ selections, document.rootType? config.schema = some artifact.rootType ∧
      document.selections? = some selections ∧
      let brought := placed config.schema artifact.rootType false selections.items
      occurrencesAt path brought ≠ [] ∧
      (Converted config info ∨
        (config.scalarSpec? info.type = none ∧ info.marshal = none ∧
          (∀ source ∈ documents, ¬ source.Selects config.schema info.type) ∧
          ∀ occurrence ∈ occurrencesAt path brought, Unchecked config brought path occurrence)) := by
  obtain ⟨accepts, rfl, _⟩ := Pipeline.run_standard_eq_ok_iff.1 accepted
  have collected := collected_of_collect collects clean
  obtain ⟨selections, rooted, selected, records, _⟩ := records_of_generate generates
  have accounted := Pipeline.accounted_of_mem built collected accepts member rooted selected
  obtain ⟨first, rest, occurrences, _, marshal⟩ := records.infoAt?_first here
  have sums := records.sumsUp here
  refine ⟨selections, rooted, selected, by simp [occurrences], ?_⟩
  refine (converted_or_unknown scalar marshal).imp_right ?_
  rintro ⟨unknown, none⟩
  refine ⟨unknown, none, fun source inDocuments => ?_, fun occurrence occurs => ?_⟩
  · exact ScalarUsage.not_selects_of_faults (accepts.scalars source inDocuments) scalar unknown
  rcases unchecked_or_knows accounted occurs with unchecked | knows
  · exact unchecked
  · obtain ⟨found, resolved, _, typed, _⟩ := sums.backed occurrence occurs
    have known := knows found resolved (typed ▸ scalar)
    rw [← typed, unknown] at known
    cases known

/-- Users with a key of a scalar that nothing is known about. -/
def keyedUsers : List SchemaDefinition :=
  [.type "UUID" .scalar,
    .type "User" (.object [⟨"id", .named "UUID", []⟩, ⟨"name", .named "String", []⟩] []),
    .type "Query" (.object [⟨"user", .named "User", []⟩] [])]

/-- Among the fields of a user the name is converted, and the key has escaped the check. -/
theorem generate_converted_or_unchecked_users :
    ∃ schema, ∃ documents revised : List Document, ∃ document artifact selections name key,
      Pipeline.run (.ofSchema schema) (Pass.standard []) documents false = .ok (revised, false) ∧
      document ∈ revised ∧ generate (.ofSchema schema) document = .ok artifact ∧
      document.selections? = some selections ∧
      artifact.selection.infoAt? [.field "user", .field "name"] = some name ∧
      artifact.selection.infoAt? [.field "user", .field "id"] = some key ∧
      Converted (.ofSchema schema) name ∧ key.marshal = none ∧
      (∀ source ∈ documents, ¬ source.Selects schema key.type) ∧
      let brought := placed schema artifact.rootType false selections.items
      occurrencesAt [.field "user", .field "id"] brought ≠ [] ∧
      ∀ occurrence ∈ occurrencesAt [.field "user", .field "id"] brought,
        Unchecked (.ofSchema schema) brought [.field "user", .field "id"] occurrence := by
  have ran : (Pipeline.runTexts? keyedUsers ["query Q \x7b user \x7b name \x7d \x7d"]).any
      (fun result => result.2.any fun document =>
        (generate (.ofSchema result.1) document).toOption.any fun artifact =>
          ((artifact.selection.infoAt? [.field "user", .field "name"]).any fun info =>
            result.1.isScalar info.type &&
              (Config.scalarSpec? (.ofSchema result.1) info.type).isSome) &&
          (artifact.selection.infoAt? [.field "user", .field "id"]).any fun info =>
            result.1.isScalar info.type &&
              (Config.scalarSpec? (.ofSchema result.1) info.type).isNone) = true := by
    decide +kernel
  obtain ⟨⟨schema, revised⟩, texts, some⟩ := (Option.any_eq_true _ _).1 ran
  obtain ⟨document, member, made⟩ := List.any_eq_true.1 some
  obtain ⟨artifact, generates, entries⟩ := (Option.any_eq_true _ _).1 made
  rw [Bool.and_eq_true, Option.any_eq_true, Option.any_eq_true] at entries
  obtain ⟨⟨name, nameHere, nameChecked⟩, key, keyHere, keyChecked⟩ := entries
  rw [Bool.and_eq_true, Option.isNone_iff_eq_none] at keyChecked
  rw [Bool.and_eq_true] at nameChecked
  rw [toOption_eq_some_iff] at generates
  obtain ⟨_, _, documents, _, built, collects, clean, accepted⟩ := Pipeline.runTexts?_eq_some texts
  obtain ⟨_, _, _, _, nameCase⟩ := generate_converted_or_unchecked built collects clean accepted
    member generates nameHere nameChecked.1
  obtain ⟨selections, _, selected, found, keyCase⟩ := generate_converted_or_unchecked built collects
    clean accepted member generates keyHere keyChecked.1
  have converted : Converted (.ofSchema schema) name := by
    refine nameCase.resolve_right ?_
    rintro ⟨unknown, _⟩
    rw [unknown] at nameChecked
    cases nameChecked.2
  have escaped := keyCase.resolve_left fun ⟨spec, known, _⟩ => by
    cases keyChecked.2.symm.trans known
  obtain ⟨_, _, rfl⟩ := Pipeline.run_standard_eq_ok_iff.1 accepted
  exact ⟨schema, documents, revised, document, artifact, selections, name, key, accepted, member,
    generates, selected, nameHere, keyHere, converted, escaped.2.1, escaped.2.2.1, found,
    escaped.2.2.2⟩

/-- A key that completion supplies is left without a conversion. -/
theorem supplied_key_unconverted :
    ∃ schema revised document artifact info,
      Pipeline.runTexts? keyedUsers ["query Q \x7b user \x7b name \x7d \x7d"] =
        some (schema, revised) ∧
      document ∈ revised ∧ generate (.ofSchema schema) document = .ok artifact ∧
      artifact.selection.infoAt? [.field "user", .field "id"] = some info ∧
      info.type = "UUID" ∧ schema.isScalar info.type = true ∧
      ¬ Converted (.ofSchema schema) info ∧ info.marshal = none := by
  have ran : (Pipeline.runTexts? keyedUsers ["query Q \x7b user \x7b name \x7d \x7d"]).any
      (fun result => result.2.any fun document =>
        (generate (.ofSchema result.1) document).toOption.any fun artifact =>
          (artifact.selection.infoAt? [.field "user", .field "id"]).any fun info =>
            (info.type == "UUID" && result.1.isScalar info.type) &&
              (info.marshal.isNone &&
                (Config.scalarSpec? (.ofSchema result.1) info.type).isNone)) = true := by
    decide +kernel
  obtain ⟨⟨schema, revised⟩, texts, some⟩ := (Option.any_eq_true _ _).1 ran
  obtain ⟨document, member, made⟩ := List.any_eq_true.1 some
  obtain ⟨artifact, generates, entry⟩ := (Option.any_eq_true _ _).1 made
  obtain ⟨info, here, checked⟩ := (Option.any_eq_true _ _).1 entry
  simp only [Bool.and_eq_true, beq_iff_eq, Option.isNone_iff_eq_none] at checked
  obtain ⟨⟨type, scalar⟩, none, unknown⟩ := checked
  refine ⟨schema, revised, document, artifact, info, texts, member,
    toOption_eq_some_iff.1 generates, here, type, scalar, ?_, none⟩
  rintro ⟨spec, known, _⟩
  cases unknown.symm.trans known

end Generation

end GraphqlStore
