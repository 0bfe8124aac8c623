import GraphqlStore.Artifact.Reader
import GraphqlStore.Output.Store
import GraphqlStore.Proofs.JsonReading
import GraphqlStore.Proofs.Sequences
import GraphqlStore.Proofs.ShapeMerge

/-!
Artifacts are read back. What is left out of the data of an artifact is what
the reader takes for granted, so that data are read as the artifact they were
made from; and the text of an artifact is read as its data.
-/

set_option autoImplicit false

namespace GraphqlStore

/-! ## Artifacts that can be held -/

/-- Variables, and the fields of each input type, are listed once. -/
structure InputShape.WellFormed (shape : InputShape) : Prop where
  fields : (shape.fields.map Prod.fst).Nodup
  types : ∀ entry ∈ shape.types.entries, (entry.2.map Prod.fst).Nodup
  defaults : (shape.defaults.map Prod.fst).Nodup
  values : ∀ entry ∈ shape.defaults, entry.2.WellFormed

/-- Each name stands once in every map of the artifact, and its page size is a signed integer. -/
structure Artifact.WellFormed (artifact : Artifact) : Prop where
  selection : artifact.selection.Distinct
  input : ∀ shape ∈ artifact.input, shape.WellFormed
  pageSize : ∀ size ∈ artifact.pagination.pageSize,
    JsonNumber.least ≤ size ∧ size ≤ JsonNumber.greatestSigned

def Artifact.FloatFree (artifact : Artifact) : Prop :=
  ∀ shape ∈ artifact.input, ∀ entry ∈ shape.defaults, entry.2.FloatFree

namespace NameMap

variable {α : Type}

private theorem foldl_insert_entries {rest : List (String × α)} {map : NameMap α}
    (increasing : (map.entries ++ rest).Pairwise fun first second => first.1 < second.1) :
    (rest.foldl (fun map entry => map.insert entry.1 entry.2) map).entries = map.entries ++ rest := by
  induction rest generalizing map with
  | nil => simp
  | cons entry later ih =>
    have before : ∀ earlier ∈ map.entries, earlier.1 < entry.1 := by
      intro earlier member
      exact (List.pairwise_append.1 increasing).2.2 earlier member entry List.mem_cons_self
    have inserted : (map.insert entry.1 entry.2).entries = map.entries ++ [entry] := place_of_lt before
    have same : map.entries ++ entry :: later = (map.insert entry.1 entry.2).entries ++ later := by
      rw [inserted, List.append_assoc, List.singleton_append]
    rw [same] at increasing ⊢
    exact ih increasing

private theorem ofList_entries (map : NameMap α) : ofList map.entries = map := by
  have same : (ofList map.entries).entries = map.entries := foldl_insert_entries map.increasing
  cases map
  cases listed : ofList _
  rw [listed] at same
  cases same
  rfl

end NameMap

/-! ## Words and members -/

theorem PaginationMode.ofText?_text (mode : PaginationMode) :
    ofText? mode.text = some mode := by
  cases mode <;> decide

theorem DocumentKind.ofText?_text (kind : DocumentKind) :
    ofText? kind.text = some kind := by
  cases kind with
  | operation kind => cases kind <;> decide
  | fragment => decide

theorem CachePolicy.ofText?_text (policy : CachePolicy) :
    ofText? policy.text = some policy := by
  cases policy <;> decide

namespace Json

@[simp] theorem member?_cons (name key : String) (value : Json) (rest : List (String × Json)) :
    member? name ((key, value) :: rest) = if key = name then some value else member? name rest := by
  rw [member?, Ordered.find?]
  split <;> rfl

@[simp] theorem member?_append (name : String) (first second : List (String × Json)) :
    member? name (first ++ second) = (member? name first).or (member? name second) := by
  rw [member?, Ordered.find?_append, member?, member?]
  cases Ordered.find? Prod.fst name first <;> rfl

@[simp] theorem member?_nil (name : String) : member? name [] = none := rfl

end Json

namespace ArtifactReader

open ArtifactJson

@[simp] theorem member?_optional (name key : String) (value : Option Json) :
    Json.member? name (Json.optional key value) = if key = name then value else none := by
  cases value with
  | none => simp [Json.optional, Json.member?_nil]
  | some value => simp [Json.optional, Json.member?_cons, Json.member?_nil]

@[simp] theorem member?_ifTrue (name key : String) (flag : Bool) :
    Json.member? name (ifTrue key flag) =
      if key = name then (if flag then some (.bool true) else none) else none := by
  cases flag <;> simp [ifTrue, Json.member?_cons, Json.member?_nil]

@[simp] theorem member?_ifAny {α : Type} (name key : String) (entries : List α) (value : Json) :
    Json.member? name (ifAny key entries value) =
      if key = name then (if entries.isEmpty then none else some value) else none := by
  cases entries <;> simp [ifAny, Json.member?_cons, Json.member?_nil]

theorem optional?_eq {α : Type} {members : List (String × Json)} {name : String}
    {read : Json → Option α} {write : α → Json} {value : Option α}
    (found : Json.member? name members = value.map write)
    (reads : ∀ inner ∈ value, read (write inner) = some inner) :
    optional? members name read = some value := by
  rw [optional?, member?, found]
  cases value with
  | none => rfl
  | some inner => simp [reads inner rfl]

theorem flag_eq {members : List (String × Json)} {name : String} {flag : Bool}
    (found : Json.member? name members = if flag then some (.bool true) else none) :
    member? members name false bool? = some flag := by
  rw [member?, found]
  cases flag <;> rfl

theorem member?_eq {α β : Type} {members : List (String × Json)} {name : String}
    {read : Json → Option α} {entries : List β} {written : Json} {absent value : α}
    (found : Json.member? name members = if entries.isEmpty then none else some written)
    (empty : entries = [] → value = absent) (reads : read written = some value) :
    member? members name absent read = some value := by
  rw [member?, found]
  cases entries with
  | nil => simp [empty rfl]
  | cons entry rest => simpa using reads

theorem fieldInfo?_fieldMembers (info : FieldInfo) {more : List (String × Json)}
    (other : ∀ name, name ≠ "selection" → Json.member? name more = none) :
    fieldInfo? (fieldMembers info ++ more) = some info := by
  have marshal : Json.member? "marshal" (fieldMembers info ++ more) = info.marshal.map .string := by
    simp [fieldMembers, other]
  have hidden : Json.member? "hidden" (fieldMembers info ++ more) =
      if info.hidden then some (.bool true) else none := by
    simp [fieldMembers, other]
  have listName : Json.member? "listName" (fieldMembers info ++ more) =
      info.listName.map .string := by
    simp [fieldMembers, other]
  have paginated : Json.member? "paginated" (fieldMembers info ++ more) =
      if info.paginated then some (.bool true) else none := by
    simp [fieldMembers, other]
  have isAbstract : Json.member? "abstract" (fieldMembers info ++ more) =
      if info.isAbstract then some (.bool true) else none := by
    simp [fieldMembers, other]
  unfold fieldInfo?
  rw [optional?_eq marshal (fun _ _ => rfl), flag_eq hidden, optional?_eq listName (fun _ _ => rfl),
    flag_eq paginated, flag_eq isAbstract]
  simp [required?, fieldMembers, Json.string?, bool?]

theorem texts?_texts (items : List String) : texts? (texts items) = some items := by
  have each : ∀ item ∈ items, Json.string? (.string item) = some item := fun _ _ => rfl
  simpa [texts?, texts, items?] using mapM_map_eq each

private theorem fragments?_fragments (fragments : List FragmentRef) :
    fragments? (.array (fragments.map fragment)) = some fragments := by
  have each : ∀ item ∈ fragments, fragment? (fragment item) = some item := by
    intro item _
    simp [fragment?, fragment, members?, required?, Json.string?, bool?]
  simpa [fragments?, items?] using mapM_map_eq each

theorem entries?_map {α : Type} {read : Json → Option α} {write : α → Json}
    {entries : List (String × α)} (each : ∀ entry ∈ entries, read (write entry.2) = some entry.2) :
    entries? read (.object (entries.map fun entry => (entry.1, write entry.2))) = some entries := by
  have both : ∀ entry ∈ entries, ((read (write entry.2)).map fun found => (entry.1, found)) =
      some entry := by
    intro entry member
    rw [each entry member]
    rfl
  simpa [entries?, members?] using mapM_map_eq both

theorem entries?_textEntries (entries : List (String × String)) :
    entries? Json.string? (textEntries entries) = some entries :=
  entries?_map fun _ _ => rfl

theorem nameMap?_map {α : Type} {read : Json → Option α} {write : α → Json} {map : NameMap α}
    (each : ∀ entry ∈ map.entries, read (write entry.2) = some entry.2) :
    nameMap? read (.object (map.entries.map fun entry => (entry.1, write entry.2))) = some map := by
  rw [nameMap?, entries?_map each, Option.map_some, NameMap.ofList_entries]

/-! ## Shapes -/

private theorem fieldEntry?_fieldEntry {field : FieldShape}
    (below : ∀ inner, field.selection? = some inner → selection? (selection inner) = some inner) :
    fieldEntry? (fieldEntry field).1 (fieldEntry field).2 = some field := by
  cases field with
  | leaf name info =>
    have absent : Json.member? "selection" (fieldMembers info) = none := by simp [fieldMembers]
    have reads := fieldInfo?_fieldMembers info (fun name _ => Json.member?_nil name)
    rw [List.append_nil] at reads
    rw [fieldEntry, fieldEntry?, reads]
    simp only [bind, Option.bind_some]
    split
    · next found => cases absent.symm.trans found
    · rfl
  | composite name info inner =>
    have present : Json.member? "selection" (fieldMembers info ++ [("selection", selection inner)]) =
        some (selection inner) := by
      simp [fieldMembers]
    have reads := @fieldInfo?_fieldMembers info [("selection", selection inner)] fun name different => by
      simp [Ne.symm different]
    rw [fieldEntry, fieldEntry?, reads]
    simp only [bind, Option.bind_some]
    split
    · next found =>
      cases present.symm.trans found
      rw [below inner rfl]
      rfl
    · next found => cases present.symm.trans found

private theorem fieldEntries?_fieldEntries {fields : List FieldShape}
    (below : ∀ field ∈ fields, ∀ inner, field.selection? = some inner →
      selection? (selection inner) = some inner) :
    fieldEntries? (fieldEntries fields) = some fields := by
  induction fields with
  | nil => rw [fieldEntries, fieldEntries?]
  | cons field rest ih =>
    rw [List.forall_mem_cons] at below
    rw [fieldEntries, fieldEntries?, fieldEntry?_fieldEntry below.1, ih below.2]
    rfl

private theorem conditionEntries?_conditionEntries {conditions : List (String × SelectionShape)}
    (below : ∀ entry ∈ conditions, selection? (selection entry.2) = some entry.2) :
    conditionEntries? (conditionEntries conditions) = some conditions := by
  induction conditions with
  | nil => rw [conditionEntries, conditionEntries?]
  | cons entry rest ih =>
    rw [List.forall_mem_cons] at below
    rw [conditionEntries, conditionEntries?, below.1, ih below.2]
    rfl

private theorem selection?_object {members : List (String × Json)} {fields : List FieldShape}
    {conditions : List (String × SelectionShape)} {fragments : List FragmentRef}
    (fieldsFound : Json.member? "fields" members = some (.object (fieldEntries fields)))
    (conditionsFound : Json.member? "conditions" members =
      if conditions.isEmpty then none else some (.object (conditionEntries conditions)))
    (fragmentsFound : Json.member? "fragments" members =
      if fragments.isEmpty then none else some (.array (fragments.map fragment)))
    (fieldsRead : fieldEntries? (fieldEntries fields) = some fields)
    (conditionsRead : conditionEntries? (conditionEntries conditions) = some conditions) :
    selection? (.object members) = some (.mk fields conditions fragments) := by
  rw [selection?, member?_eq fragmentsFound id (fragments?_fragments fragments)]
  split
  · next entries found =>
    cases fieldsFound.symm.trans found
    rw [fieldsRead]
    split
    · next found =>
      rw [found] at conditionsFound
      split at conditionsFound
      · cases conditionsFound
      · cases conditionsFound
        rw [conditionsRead]
        rfl
    · next other found =>
      rw [found] at conditionsFound
      split at conditionsFound
      · cases conditionsFound
      · cases conditionsFound
        exact absurd rfl (other _)
    · next found =>
      rw [found] at conditionsFound
      split at conditionsFound
      · next none =>
        cases List.isEmpty_iff.1 none
        rfl
      · cases conditionsFound
  · next other => exact absurd fieldsFound (other _)

private theorem selection?_selection (shape : SelectionShape) :
    selection? (selection shape) = some shape := by
  induction shape using SelectionShape.induction with
  | mk fields conditions fragments inFields inConditions =>
    rw [selection]
    apply selection?_object
    · simp
    · simp
    · simp
    · exact fieldEntries?_fieldEntries inFields
    · exact conditionEntries?_conditionEntries inConditions

/-! ## Inputs, pagination and keys -/

theorem eq_empty_of_entries {α : Type} {map : NameMap α} (none : map.entries = []) :
    map = NameMap.empty := by
  cases map
  cases none
  rfl

private theorem input?_input (shape : InputShape) : input? (input shape) = some shape := by
  obtain ⟨members, same⟩ : ∃ members, input shape = .object members := ⟨_, rfl⟩
  have found : Json.member? "fields" members = some (textEntries shape.fields) ∧
      Json.member? "types" members = (if shape.types.entries.isEmpty then none
        else some (.object (shape.types.entries.map fun entry => (entry.1, textEntries entry.2)))) ∧
      Json.member? "defaults" members =
        (if shape.defaults.isEmpty then none else some (.object shape.defaults)) ∧
      Json.member? "marshal" members = (if shape.marshal.entries.isEmpty then none
        else some (textEntries shape.marshal.entries)) := by
    rw [input, Json.object.injEq] at same
    subst same
    simp
  obtain ⟨fields, types, defaults, marshal⟩ := found
  have typesRead := @nameMap?_map _ (entries? Json.string?) textEntries shape.types
    fun entry _ => entries?_textEntries entry.2
  have marshalRead := @nameMap?_map _ Json.string? .string shape.marshal fun _ _ => rfl
  rw [same, input?, members?]
  simp only [bind, Option.bind_some, required?, fields, entries?_textEntries]
  rw [member?_eq types eq_empty_of_entries typesRead, member?_eq defaults id rfl,
    member?_eq marshal eq_empty_of_entries marshalRead]
  rfl

private theorem refetch?_refetch (found : Pagination.Refetch) :
    refetch? (refetch found) = some found := by
  simp [refetch?, refetch, members?, required?, Json.string?, texts?_texts]

private theorem pagination?_pagination {info : PaginationInfo}
    (bounded : ∀ size ∈ info.pageSize, size ≤ JsonNumber.greatestSigned) :
    pagination? (pagination info) = some info := by
  obtain ⟨members, same⟩ : ∃ members, pagination info = .object members := ⟨_, rfl⟩
  have found : Json.member? "mode" members = some (.string info.mode.text) ∧
      Json.member? "path" members = info.path.map texts ∧
      Json.member? "pageSize" members = (info.pageSize.map fun size => .number (.integer size)) ∧
      Json.member? "refetch" members = info.refetch.map refetch := by
    rw [pagination, Json.object.injEq] at same
    subst same
    simp
  obtain ⟨mode, path, pageSize, refetched⟩ := found
  have sized : ∀ size ∈ info.pageSize, Json.signed? (.number (.integer size)) = some size := by
    intro size member
    rw [Json.signed?, if_pos (bounded size member)]
  rw [same, pagination?, members?]
  simp only [bind, Option.bind_some, required?, mode, Json.string?, PaginationMode.ofText?_text]
  rw [optional?_eq path (fun items _ => texts?_texts items), optional?_eq pageSize sized,
    optional?_eq refetched (fun found _ => refetch?_refetch found)]
  rfl

/-! ## Artifacts -/

private theorem artifact?_toJson {artifact : Artifact}
    (bounded : ∀ size ∈ artifact.pagination.pageSize, size ≤ JsonNumber.greatestSigned) :
    artifact? artifact.toJson = some artifact := by
  obtain ⟨members, same⟩ : ∃ members, artifact.toJson = .object members := ⟨_, rfl⟩
  have texts : Json.member? "name" members = some (.string artifact.name) ∧
      Json.member? "kind" members = some (.string artifact.kind.text) ∧
      Json.member? "hash" members = some (.string artifact.hash) ∧
      Json.member? "raw" members = some (.string artifact.raw) ∧
      Json.member? "rootType" members = some (.string artifact.rootType) ∧
      Json.member? "policy" members = (artifact.policy.map fun policy => .string policy.text) ∧
      Json.member? "partial" members = artifact.allowPartial.map .bool := by
    rw [Artifact.toJson, Json.object.injEq] at same
    subst same
    simp
  have parts : Json.member? "selection" members = some (selection artifact.selection) ∧
      Json.member? "input" members = artifact.input.map input ∧
      Json.member? "pagination" members = some (pagination artifact.pagination) ∧
      Json.member? "keys" members = (if artifact.keys.entries.isEmpty then none
        else some (keys artifact.keys.entries)) := by
    rw [Artifact.toJson, Json.object.injEq] at same
    subst same
    simp
  obtain ⟨name, kind, hash, raw, rootType, policy, allowPartial⟩ := texts
  obtain ⟨selected, inputs, paginated, keyed⟩ := parts
  have keysRead := @nameMap?_map _ texts? ArtifactJson.texts artifact.keys
    fun entry _ => texts?_texts entry.2
  rw [same, artifact?, members?]
  simp only [bind, Option.bind_some, required?, name, kind, hash, raw, rootType, selected,
    Json.string?, DocumentKind.ofText?_text, selection?_selection]
  have policyRead : ∀ policy ∈ artifact.policy,
      ((Json.string policy.text).string?.bind CachePolicy.ofText?) = some policy := by
    intro policy _
    exact CachePolicy.ofText?_text policy
  rw [optional?_eq inputs (fun shape _ => input?_input shape),
    member?_eq keyed eq_empty_of_entries keysRead, optional?_eq policy policyRead,
    optional?_eq allowPartial (fun _ _ => rfl), member?, paginated]
  simp only [pagination?_pagination bounded, Option.bind_some]
  rfl

end ArtifactReader

/-! ## What can be read back from a text -/

/-- A value that is read back from its text, unless it is nested too deeply. -/
structure Json.Readable (value : Json) : Prop where
  wellFormed : value.WellFormed
  floatFree : value.FloatFree

namespace Json.Readable

@[simp] theorem string (text : String) : Readable (.string text) := ⟨.string text, .string text⟩

@[simp] theorem bool (value : Bool) : Readable (.bool value) := ⟨.bool value, .bool value⟩

theorem array {items : List Json} (each : ∀ item ∈ items, item.Readable) :
    Readable (.array items) :=
  ⟨.array fun item member => (each item member).wellFormed,
    .array fun item member => (each item member).floatFree⟩

theorem object {members : List (String × Json)} (distinct : (members.map Prod.fst).Nodup)
    (each : ∀ member ∈ members, member.2.Readable) : Readable (.object members) :=
  ⟨.object distinct fun entry member => (each entry member).wellFormed,
    .object fun entry member => (each entry member).floatFree⟩

theorem record {members : List (String × Json)} (names : List String)
    (among : (members.map Prod.fst).Sublist names) (distinct : names.Nodup)
    (each : ∀ member ∈ members, member.2.Readable) : Readable (.object members) :=
  object (among.nodup distinct) each

end Json.Readable

namespace ArtifactJson

theorem names_optional (name : String) (value : Option Json) :
    ((Json.optional name value).map Prod.fst).Sublist [name] := by
  cases value with
  | none => exact List.nil_sublist _
  | some value => exact List.Sublist.refl _

private theorem names_ifTrue (name : String) (flag : Bool) :
    ((ifTrue name flag).map Prod.fst).Sublist [name] := by
  cases flag with
  | false => exact List.nil_sublist _
  | true => exact List.Sublist.refl _

theorem names_ifAny {α : Type} (name : String) (entries : List α) (value : Json) :
    ((ifAny name entries value).map Prod.fst).Sublist [name] := by
  cases entries with
  | nil => exact List.nil_sublist _
  | cons entry rest => exact List.Sublist.refl _

variable {holds : Json → Prop}

private theorem forall_optional {α : Type} {name : String} {value : Option α} {write : α → Json}
    (inner : ∀ found ∈ value, holds (write found)) :
    ∀ member ∈ Json.optional name (value.map write), holds member.2 := by
  cases value with
  | none => simp [Json.optional]
  | some value => simpa [Json.optional] using inner

private theorem forall_ifTrue {name : String} {flag : Bool} (inner : holds (.bool true)) :
    ∀ member ∈ ifTrue name flag, holds member.2 := by
  cases flag with
  | false => simp [ifTrue]
  | true => simpa [ifTrue] using inner

private theorem forall_ifAny {α : Type} {name : String} {entries : List α} {value : Json}
    (inner : holds value) : ∀ member ∈ ifAny name entries value, holds member.2 := by
  cases entries with
  | nil => simp [ifAny]
  | cons entry rest => simpa [ifAny] using inner

private theorem readable_texts (items : List String) : (texts items).Readable := by
  apply Json.Readable.array
  intro item member
  obtain ⟨text, _, rfl⟩ := List.mem_map.1 member
  exact .string text

private theorem readable_map {α : Type} {entries : List (String × α)} {write : α → Json}
    (distinct : (entries.map Prod.fst).Nodup) (each : ∀ entry ∈ entries, (write entry.2).Readable) :
    (Json.object (entries.map fun entry => (entry.1, write entry.2))).Readable := by
  apply Json.Readable.object
  · rw [List.map_map]
    exact distinct
  · intro written member
    obtain ⟨entry, found, rfl⟩ := List.mem_map.1 member
    exact each entry found

theorem nodup_of_increasing {α : Type} {entries : List (String × α)}
    (increasing : entries.Pairwise fun first second => first.1 < second.1) :
    (entries.map Prod.fst).Nodup := by
  rw [List.Nodup, List.pairwise_map]
  apply increasing.imp
  intro first second before same
  exact String.lt_irrefl first.1 (same ▸ before)

private theorem readable_textEntries {entries : List (String × String)}
    (distinct : (entries.map Prod.fst).Nodup) : (textEntries entries).Readable :=
  readable_map distinct fun entry _ => .string entry.2

/-! ## Shapes -/

theorem names_fieldMembers (info : FieldInfo) : ((fieldMembers info).map Prod.fst).Sublist
    ["field", "type", "typeRef", "keyRaw", "nullable", "list", "marshal", "hidden", "listName",
      "paginated", "abstract"] := by
  simp only [fieldMembers, List.map_append]
  exact ((((List.Sublist.refl _).append (names_optional "marshal" _)).append
    (names_ifTrue "hidden" _)).append (names_optional "listName" _)).append
    (names_ifTrue "paginated" _) |>.append (names_ifTrue "abstract" _)

private theorem readable_fieldMembers (info : FieldInfo) :
    ∀ member ∈ fieldMembers info, member.2.Readable := by
  have texts : ∀ name (text : Option String),
      ∀ member ∈ Json.optional name (text.map .string), member.2.Readable := by
    intro name text
    apply forall_optional
    intro inner _
    exact .string inner
  have flags : ∀ name flag, ∀ member ∈ ifTrue name flag, member.2.Readable :=
    fun name flag => forall_ifTrue (.bool true)
  simp only [fieldMembers, List.forall_mem_append]
  refine ⟨⟨⟨⟨⟨?_, texts _ _⟩, flags _ _⟩, texts _ _⟩, flags _ _⟩, flags _ _⟩
  simp

private theorem readable_fieldEntry {field : FieldShape}
    (below : ∀ inner, field.selection? = some inner → (selection inner).Readable) :
    (fieldEntry field).2.Readable := by
  cases field with
  | leaf name info =>
    exact .record _ (names_fieldMembers info) (by decide) (readable_fieldMembers info)
  | composite name info inner =>
    rw [fieldEntry]
    have names := (names_fieldMembers info).append (List.Sublist.refl ["selection"])
    have each : ∀ member ∈ fieldMembers info ++ [("selection", selection inner)],
        member.2.Readable := by
      rw [List.forall_mem_append]
      exact ⟨readable_fieldMembers info, by simpa using below inner rfl⟩
    exact .record _ (by simpa using names) (by decide) each

private theorem fieldEntries_eq_map (fields : List FieldShape) :
    fieldEntries fields = fields.map fieldEntry := by
  induction fields with
  | nil => rw [fieldEntries, List.map_nil]
  | cons field rest ih => rw [fieldEntries, ih, List.map_cons]

private theorem conditionEntries_eq_map (conditions : List (String × SelectionShape)) :
    conditionEntries conditions = conditions.map fun entry => (entry.1, selection entry.2) := by
  induction conditions with
  | nil => rw [conditionEntries, List.map_nil]
  | cons entry rest ih => rw [conditionEntries, ih, List.map_cons]

private theorem fieldEntry_name (field : FieldShape) : (fieldEntry field).1 = field.name := by
  cases field <;> rfl

private theorem readable_fieldEntries {fields : List FieldShape}
    (distinct : (fields.map FieldShape.name).Nodup)
    (below : ∀ field ∈ fields, ∀ inner, field.selection? = some inner → (selection inner).Readable) :
    (Json.object (fieldEntries fields)).Readable := by
  rw [fieldEntries_eq_map]
  apply Json.Readable.object
  · have names : Prod.fst ∘ fieldEntry = FieldShape.name := funext fieldEntry_name
    rw [List.map_map, names]
    exact distinct
  · intro entry member
    obtain ⟨field, found, rfl⟩ := List.mem_map.1 member
    exact readable_fieldEntry (below field found)

private theorem readable_fragments (fragments : List FragmentRef) :
    (Json.array (fragments.map fragment)).Readable := by
  apply Json.Readable.array
  intro item member
  obtain ⟨found, _, rfl⟩ := List.mem_map.1 member
  exact .object (by simp) (by simp)

private theorem readable_selection {shape : SelectionShape} (distinct : shape.Distinct) :
    (selection shape).Readable := by
  induction distinct with
  | @mk fields conditions fragments names increasing _ _ inFields inConditions =>
    rw [selection]
    apply Json.Readable.record ["fields", "conditions", "fragments"] _ (by decide)
    · simp only [List.forall_mem_append]
      refine ⟨⟨?_, forall_ifAny ?_⟩, forall_ifAny (readable_fragments fragments)⟩
      · simpa using readable_fieldEntries names inFields
      · rw [conditionEntries_eq_map]
        exact readable_map (nodup_of_increasing increasing) inConditions
    · simp only [List.map_append]
      exact ((List.Sublist.refl ["fields"]).append (names_ifAny "conditions" _ _)).append
        (names_ifAny "fragments" _ _)

/-! ## Artifacts -/

private theorem readable_input {shape : InputShape} (wellFormed : shape.WellFormed)
    (floatFree : ∀ entry ∈ shape.defaults, entry.2.FloatFree) : (input shape).Readable := by
  rw [input]
  apply Json.Readable.record ["fields", "types", "defaults", "marshal"] _ (by decide)
  · simp only [List.forall_mem_append]
    refine ⟨⟨⟨?_, forall_ifAny ?_⟩, forall_ifAny ?_⟩, forall_ifAny ?_⟩
    · simpa using readable_textEntries wellFormed.fields
    · exact readable_map (nodup_of_increasing shape.types.increasing) fun entry member =>
        readable_textEntries (wellFormed.types entry member)
    · exact .object wellFormed.defaults fun entry member =>
        ⟨wellFormed.values entry member, floatFree entry member⟩
    · exact readable_textEntries (nodup_of_increasing shape.marshal.increasing)
  · simp only [List.map_append]
    exact (((List.Sublist.refl ["fields"]).append (names_ifAny "types" _ _)).append
      (names_ifAny "defaults" _ _)).append (names_ifAny "marshal" _ _)

private theorem readable_refetch (found : Pagination.Refetch) : (refetch found).Readable :=
  .object (by simp) (by simp [readable_texts])

private theorem readable_pagination {info : PaginationInfo} (bounded : ∀ size ∈ info.pageSize,
    JsonNumber.least ≤ size ∧ size ≤ JsonNumber.greatestSigned) : (pagination info).Readable := by
  rw [pagination]
  apply Json.Readable.record ["mode", "path", "pageSize", "refetch"] _ (by decide)
  · simp only [List.forall_mem_append]
    refine ⟨⟨⟨by simp, forall_optional ?_⟩, forall_optional ?_⟩, forall_optional ?_⟩
    · intro path _
      exact readable_texts path
    · intro size given
      obtain ⟨above, below⟩ := bounded size given
      have signed : JsonNumber.greatestSigned ≤ JsonNumber.greatest := by decide
      exact ⟨.integer above (Int.le_trans below signed), .integer size⟩
    · intro inner _
      exact readable_refetch inner
  · simp only [List.map_append]
    exact (((List.Sublist.refl ["mode"]).append (names_optional "path" _)).append
      (names_optional "pageSize" _)).append (names_optional "refetch" _)

private theorem readable_keys (map : NameMap (List String)) : (keys map.entries).Readable :=
  readable_map (nodup_of_increasing map.increasing) fun entry _ => readable_texts entry.2

end ArtifactJson

open ArtifactJson in
private theorem Artifact.readable_toJson {artifact : Artifact} (wellFormed : artifact.WellFormed)
    (floatFree : artifact.FloatFree) : artifact.toJson.Readable := by
  rw [toJson]
  apply Json.Readable.record ["name", "kind", "hash", "raw", "rootType", "selection", "input",
    "pagination", "keys", "policy", "partial"] _ (by decide)
  · simp only [List.forall_mem_append]
    refine ⟨⟨⟨⟨⟨?_, forall_optional ?_⟩, ?_⟩, forall_ifAny (readable_keys artifact.keys)⟩,
      forall_optional ?_⟩, forall_optional ?_⟩
    · simpa using readable_selection wellFormed.selection
    · intro shape given
      exact readable_input (wellFormed.input shape given) (floatFree shape given)
    · simpa using readable_pagination wellFormed.pageSize
    · intro policy _
      exact .string policy.text
    · intro flag _
      exact .bool flag
  · simp only [List.map_append]
    exact (((((List.Sublist.refl ["name", "kind", "hash", "raw", "rootType", "selection"]).append
      (names_optional "input" _)).append (List.Sublist.refl ["pagination"])).append
      (names_ifAny "keys" _ _)).append (names_optional "policy" _)).append
      (names_optional "partial" _)

theorem Artifact.read?_of_reads {artifact : Artifact} (wellFormed : artifact.WellFormed)
    {text : String} (reads : Json.read? text = some artifact.toJson) : read? text = some artifact := by
  rw [read?, reads, Option.bind_some]
  exact ArtifactReader.artifact?_toJson fun size member => (wellFormed.pageSize size member).2

/-- An artifact without floats that is not nested too deeply is read back as it was written: in one
line, over several lines, and from the file that it is put in. -/
theorem Artifact.read?_written {artifact : Artifact} (wellFormed : artifact.WellFormed)
    (floatFree : artifact.FloatFree) (within : artifact.toJson.depth ≤ Json.depthLimit) :
    read? artifact.toJson.compact = some artifact ∧
      read? artifact.toJson.pretty = some artifact ∧
      ∀ naming, read? (Store.artifactFile naming artifact).content = some artifact := by
  obtain ⟨dataWellFormed, dataFloatFree⟩ := readable_toJson wellFormed floatFree
  obtain ⟨pretty, ended⟩ := Json.read?_pretty dataWellFormed dataFloatFree within
  have compact := Json.read?_compact dataWellFormed dataFloatFree within
  exact ⟨read?_of_reads wellFormed compact, read?_of_reads wellFormed pretty,
    fun _ => read?_of_reads wellFormed ended⟩

namespace Artifact

/-- The feed of a page: nodes of two types, variables with defaults, and texts with marks in them. -/
def feed : Artifact where
  name := "Feed"
  kind := .operation .query
  hash := "0\u0001\u2028"
  raw := "query Feed($note: String = \"a\\\"b\n\") \x7b node \x7b id \x7d \x7d"
  rootType := "Query"
  selection := .mk
    [.composite "node" ⟨"node", "Node", "Node", "node(id: $id)", true, false, none, false, some "All",
        true, true⟩
      (.mk [.leaf "id" ⟨"id", "ID", "ID!", "id", false, false, some "Key", true, none, false, false⟩]
        [("Page", .mk [] [] [⟨"PageParts", false⟩]),
          ("User", .mk [.leaf "é😀" ⟨"name", "String", "String", "name", true, true, none, false, none,
            false, false⟩] [] [])]
        [⟨"NodeParts", true⟩])]
    [] []
  input := some
    { fields := [("note", "String"), ("filter", "Filter!")]
      types := ⟨[("Filter", [("below", "Filter"), ("at", "Int")])], List.pairwise_singleton _ _⟩
      defaults := [("note", .string "a\"b\n"), ("filter", .object
        [("at", .number (.integer (-9223372036854775808))), ("below", .object [("in", .array [.null])])])]
      marshal := ⟨[("Filter.at", "Instant")], List.pairwise_singleton _ _⟩ }
  pagination := ⟨.cursorBackward, some ["node", "items"], some (-1), some ⟨"node", "Node", ["id"]⟩⟩
  keys := ⟨[("Node", ["id", "site"])], List.pairwise_singleton _ _⟩
  policy := some .cacheAndNetwork
  allowPartial := some false

private theorem feed_wellFormed : feed.WellFormed where
  selection := by
    have leaves : ∀ name info inner, (FieldShape.leaf name info).selection? = some inner →
        inner.Distinct := by
      intro name info inner found
      cases found
    refine .mk (by simp) (by simp) ?_ (by simp)
    intro field member inner found
    cases List.mem_singleton.1 member
    cases found
    refine .mk (by simp) (by decide) ?_ ?_
    · intro field member
      cases List.mem_singleton.1 member
      exact leaves _ _
    · simp only [List.forall_mem_cons]
      refine ⟨.mk (by simp) (by simp) (by simp) (by simp), .mk (by simp) (by simp) ?_ (by simp), by simp⟩
      intro field member
      cases List.mem_singleton.1 member
      exact leaves _ _
  input := by
    intro shape member
    cases member
    refine ⟨by decide, by decide, by decide, ?_⟩
    simp only [List.forall_mem_cons]
    refine ⟨.string _, .object (by decide) ?_, by simp⟩
    simp only [List.forall_mem_cons]
    refine ⟨.integer (by decide) (by decide), .object (by decide) ?_, by simp⟩
    simp only [List.forall_mem_cons]
    exact ⟨.array (by simp [Json.WellFormed.null]), by simp⟩
  pageSize := by
    intro size member
    cases member
    decide

private theorem feed_floatFree : feed.FloatFree := by
  intro shape member
  cases member
  simp only [List.forall_mem_cons]
  refine ⟨.string _, .object ?_, by simp⟩
  simp only [List.forall_mem_cons]
  refine ⟨.integer _, .object ?_, by simp⟩
  simp only [List.forall_mem_cons]
  exact ⟨.array (by simp [Json.FloatFree.null]), by simp⟩

theorem read?_written_feed : feed.toJson.depth = 9 ∧ read? feed.toJson.compact = some feed ∧
    read? feed.toJson.pretty = some feed ∧
    ∀ naming, read? (Store.artifactFile naming feed).content = some feed := by
  have depth : feed.toJson.depth = 9 := by decide
  exact ⟨depth, read?_written feed_wellFormed feed_floatFree (by rw [depth]; decide)⟩

end Artifact

end GraphqlStore
