import GraphqlStore.Proofs.Generation
import GraphqlStore.Proofs.ShapePlaces

/-!
What selections bring to each place of a shape, in document order: fields,
marks of fragments, and conditions. A shape that is drafted without any report
holds at each place exactly what is brought there, with one entry for all
fields of one response name.
-/

set_option autoImplicit false

namespace GraphqlStore

/-! ## What selections bring -/

/-- A field that is selected: the type it is selected on, and whether it is below a fragment that
hides its fields. -/
structure Occurrence where
  parent : String
  head : Field
  masked : Bool

/-- What selections can bring to a place of a shape. -/
inductive ShapeItem where
  | field (occurrence : Occurrence)
  | mark (fragment : FragmentRef)
  | condition (type : String)

namespace ShapeItem

def name? : ShapeItem → Option String
  | .field occurrence => some occurrence.head.responseName
  | _ => none

def mark? : ShapeItem → Option FragmentRef
  | .mark fragment => some fragment
  | _ => none

def named? (name : String) : ShapeItem → Option Occurrence
  | .field occurrence => if occurrence.head.responseName = name then some occurrence else none
  | _ => none

end ShapeItem

abbrev PlacedItem := ShapePath × ShapeItem

def behind (step : ShapeStep) (placed : List PlacedItem) : List PlacedItem :=
  placed.map fun entry => (step :: entry.1, entry.2)

def itemsAt (place : ShapePath) (placed : List PlacedItem) : List ShapeItem :=
  placed.filterMap fun entry => if entry.1 = place then some entry.2 else none

namespace InlineFragment

/-- Whether the fields of the inline fragment are hidden because it stands for a masked spread. -/
def masks (head : InlineFragment) : Bool := head.inlined?.any Prod.snd

def marks (head : InlineFragment) : List ShapeItem :=
  head.inlined?.toList.map fun mark => .mark ⟨mark.1, mark.2⟩

end InlineFragment

mutual
/-- What a selection on a type brings to the places of a shape. Selections below a field of a type
that is not composite count for nothing. -/
def Selection.placed (schema : Schema) (parent : String) (masked : Bool) :
    Selection → List PlacedItem
  | .field head items =>
      ([], .field ⟨parent, head, masked⟩) ::
        match schema.field? parent head.name with
        | none => []
        | some found =>
            if schema.isComposite found.typeName then
              behind (.field head.responseName) (placed schema found.typeName masked items)
            else []
  | .spread _ => []
  | .inline head items =>
      let type := head.typeWithin parent
      let inner := placed schema type (masked || head.masks) items
      head.marks.map (Prod.mk []) ++
        if type = parent then inner else ([], .condition type) :: behind (.type type) inner

/-- What selections on a type bring to the places of a shape. -/
def placed (schema : Schema) (parent : String) (masked : Bool) : List Selection → List PlacedItem
  | [] => []
  | selection :: rest => selection.placed schema parent masked ++ placed schema parent masked rest
end

theorem itemsAt_append (place : ShapePath) (first second : List PlacedItem) :
    itemsAt place (first ++ second) = itemsAt place first ++ itemsAt place second :=
  List.filterMap_append

private theorem itemsAt_here (items : List ShapeItem) :
    itemsAt [] (items.map (Prod.mk [])) = items := by
  simp only [itemsAt, List.filterMap_map, Function.comp_def, if_true, List.filterMap_some]

theorem itemsAt_here_cons (step : ShapeStep) (rest : ShapePath) (items : List ShapeItem) :
    itemsAt (step :: rest) (items.map (Prod.mk [])) = [] := by
  simp [itemsAt, List.filterMap_map]

theorem itemsAt_behind_nil (step : ShapeStep) (placed : List PlacedItem) :
    itemsAt [] (behind step placed) = [] := by
  simp [itemsAt, behind, List.filterMap_map]

private theorem itemsAt_behind (step : ShapeStep) (rest : ShapePath) (placed : List PlacedItem) :
    itemsAt (step :: rest) (behind step placed) = itemsAt rest placed := by
  simp only [itemsAt, behind, List.filterMap_map, Function.comp_def, List.cons.injEq, true_and]

private theorem itemsAt_behind_of_ne {step other : ShapeStep} (different : step ≠ other)
    (rest : ShapePath)
    (placed : List PlacedItem) : itemsAt (other :: rest) (behind step placed) = [] := by
  simp [itemsAt, behind, List.filterMap_map, different]

/-! ## Entries -/

/-- What a field of a shape says, and whether it has a shape of its own. -/
def FieldShape.entry (field : FieldShape) : FieldInfo × Bool := (field.info, field.selection?.isSome)

def joinEntries (first second : FieldInfo × Bool) : FieldInfo × Bool :=
  (first.1.merge second.1, first.2 || second.2)

private theorem joinEntries_assoc (first second third : FieldInfo × Bool) :
    joinEntries (joinEntries first second) third = joinEntries first (joinEntries second third) := by
  simp [joinEntries, FieldInfo.merge, Bool.and_assoc, Bool.or_assoc, Option.or_assoc]

private theorem merge_joinEntries_assoc (first second third : Option (FieldInfo × Bool)) :
    Option.merge joinEntries (Option.merge joinEntries first second) third =
      Option.merge joinEntries first (Option.merge joinEntries second third) := by
  cases first <;> cases second <;> cases third <;> simp [joinEntries_assoc]

theorem FieldShape.entry_join (present added : FieldShape) :
    (present.join added).1.entry = joinEntries present.entry added.entry := by
  cases present <;> cases added <;> rfl

namespace Generation

variable {config : Config}

/-- What the entry of a field says that is selected once. -/
def single? (config : Config) (occurrence : Occurrence) : Option (FieldInfo × Bool) :=
  (config.schema.field? occurrence.parent occurrence.head.name).map fun found =>
    (fieldInfo config ⟨occurrence.parent, occurrence.masked, false, []⟩ occurrence.head found,
      config.schema.isComposite found.typeName)

/-- What the entry says of a field that is selected several times. -/
def summary (config : Config) (occurrences : List Occurrence) : Option (FieldInfo × Bool) :=
  occurrences.foldr (fun occurrence rest => Option.merge joinEntries (single? config occurrence) rest)
    none

theorem summary_append (first second : List Occurrence) :
    summary config (first ++ second) =
      Option.merge joinEntries (summary config first) (summary config second) := by
  induction first with
  | nil => exact Option.merge_none_left.symm
  | cons occurrence rest ih =>
      rw [List.cons_append, summary, List.foldr_cons, ← summary, ih, ← merge_joinEntries_assoc]
      rfl

/-! ## One place -/

/-- A shape holds what is brought to it, whatever is below it. -/
structure Level (config : Config) (items : List ShapeItem) (shape : SelectionShape) : Prop where
  names : shape.fields.map FieldShape.name = addAll [] (items.filterMap ShapeItem.name?)
  fragments : shape.fragments = addAll [] (items.filterMap ShapeItem.mark?)
  conditions : ∀ type, type ∈ shape.conditions.map Prod.fst ↔ ShapeItem.condition type ∈ items
  entries : ∀ name, (shape.field? name).map FieldShape.entry =
    summary config (items.filterMap (ShapeItem.named? name))
  agree : ∀ name field, shape.field? name = some field →
    ∀ occurrence ∈ items.filterMap (ShapeItem.named? name), occurrence.head.name = field.info.field
  resolved : ∀ occurrence, ShapeItem.field occurrence ∈ items →
    (config.schema.field? occurrence.parent occurrence.head.name).isSome

namespace Level

theorem empty : Level config [] SelectionShape.empty where
  names := rfl
  fragments := rfl
  conditions _ := by simp [SelectionShape.empty, SelectionShape.conditions]
  entries _ := rfl
  agree _ _ found := by cases found
  resolved _ member := by cases member

theorem field?_isSome {items : List ShapeItem} {shape : SelectionShape}
    (level : Level config items shape) {name : String} {occurrence : Occurrence}
    (member : occurrence ∈ items.filterMap (ShapeItem.named? name)) :
    ∃ field, shape.field? name = some field := by
  cases found : shape.field? name with
  | some field => exact ⟨field, rfl⟩
  | none =>
      refine absurd ?_ (Ordered.find?_eq_none_iff.1 found)
      rw [level.names, mem_addAll]
      obtain ⟨item, inItems, named⟩ := List.mem_filterMap.1 member
      refine .inr (List.mem_filterMap.2 ⟨item, inItems, ?_⟩)
      cases item with
      | field other =>
          rw [ShapeItem.named?] at named
          split at named
          · rename_i same
            rw [ShapeItem.name?, same]
          · cases named
      | mark _ => cases named
      | condition _ => cases named

private theorem agree_merge {items others : List ShapeItem} {into added : SelectionShape}
    (first : Level config items into) (second : Level config others added)
    (distinct : added.Distinct) (silent : (into.merge added).2 = []) {name : String}
    {field : FieldShape} (found : (into.merge added).1.field? name = some field)
    {occurrence : Occurrence}
    (member : occurrence ∈ (items ++ others).filterMap (ShapeItem.named? name)) :
    occurrence.head.name = field.info.field := by
  rw [SelectionShape.field?_merge distinct silent] at found
  rw [List.filterMap_append, List.mem_append] at member
  cases here : into.field? name with
  | none =>
      rw [here, Option.merge_none_left] at found
      refine second.agree name field found occurrence (member.resolve_left fun known => ?_)
      obtain ⟨present, there⟩ := first.field?_isSome known
      rw [here] at there
      cases there
  | some present =>
      cases there : added.field? name with
      | none =>
          rw [here, there, Option.merge_none_right] at found
          refine first.agree name field (here.trans found) occurrence
            (member.resolve_right fun known => ?_)
          obtain ⟨other, found⟩ := second.field?_isSome known
          rw [there] at found
          cases found
      | some other =>
          rw [here, there, Option.merge_some_some, Option.some.injEq] at found
          have joined : field.info.field = present.info.field := by
            rw [← found]
            exact congrArg (fun entry => entry.1.field) (FieldShape.entry_join present other)
          rcases member with known | later
          · rw [first.agree name present here occurrence known, joined]
          · rw [second.agree name other there occurrence later, joined]
            exact (SelectionShape.silent_of_merge distinct silent here there).1.symm

theorem merge {items others : List ShapeItem} {into added : SelectionShape}
    (first : Level config items into) (second : Level config others added)
    (distinct : added.Distinct) (silent : (into.merge added).2 = []) :
    Level config (items ++ others) (into.merge added).1 where
  names := by
    rw [SelectionShape.names_merge, first.names, second.names, addAll_addAll,
      List.filterMap_append, addAll_append]
    rfl
  fragments := by
    rw [SelectionShape.fragments_merge, first.fragments, second.fragments, addAll_addAll,
      List.filterMap_append, addAll_append]
    rfl
  conditions type := by
    rw [SelectionShape.mem_conditions_merge distinct, first.conditions, second.conditions,
      List.mem_append]
  entries name := by
    rw [SelectionShape.field?_merge distinct silent, List.filterMap_append, summary_append,
      ← first.entries, ← second.entries]
    cases into.field? name <;> cases added.field? name <;> simp [FieldShape.entry_join]
  agree _ _ found _ member := first.agree_merge second distinct silent found member
  resolved occurrence member := by
    rcases List.mem_append.1 member with known | later
    · exact first.resolved occurrence known
    · exact second.resolved occurrence later

end Level

/-! ## All places -/

/-- A shape holds at each place what is brought there. -/
def Records (config : Config) (placed : List PlacedItem) (shape : SelectionShape) : Prop :=
  ∀ place, Level config (itemsAt place placed) (shape.shapeAt place)

namespace Records

theorem empty : Records config [] SelectionShape.empty := fun place => by
  rw [SelectionShape.shapeAt_empty]
  exact .empty

theorem marksOnce {placed : List PlacedItem} {shape : SelectionShape}
    (records : Records config placed shape) : shape.MarksOnce := fun place => by
  rw [(records place).fragments]
  exact nodup_addAll .nil _

theorem merge {placed others : List PlacedItem} {into added : SelectionShape}
    (first : Records config placed into) (second : Records config others added)
    (distinct : added.Distinct) (silent : (into.merge added).2 = []) :
    Records config (placed ++ others) (into.merge added).1 := fun place => by
  obtain ⟨same, quiet⟩ := SelectionShape.shapeAt_merge distinct second.marksOnce silent place
  rw [itemsAt_append, same]
  exact (first place).merge (second place) (distinct.shapeAt place) quiet

theorem nest {own : List ShapeItem} {placed : List PlacedItem} {shape : SelectionShape}
    (level : Level config own shape) (step : ShapeStep)
    (below : Records config placed (shape.follow step))
    (elsewhere : ∀ other, step ≠ other → shape.follow other = SelectionShape.empty) :
    Records config (own.map (Prod.mk []) ++ behind step placed) shape := by
  intro place
  cases place with
  | nil =>
      rw [itemsAt_append, itemsAt_here, itemsAt_behind_nil, List.append_nil]
      exact level
  | cons other rest =>
      rw [itemsAt_append, itemsAt_here_cons, List.nil_append, SelectionShape.shapeAt_cons]
      by_cases same : step = other
      · subst same
        rw [itemsAt_behind]
        exact below rest
      · rw [itemsAt_behind_of_ne same, elsewhere other same, SelectionShape.shapeAt_empty]
        exact .empty

theorem withFragment {placed : List PlacedItem} {shape : SelectionShape}
    (records : Records config placed shape) (fragment : FragmentRef) :
    Records config (placed ++ [([], .mark fragment)]) (shape.withFragment fragment) := by
  intro place
  rw [itemsAt_append]
  cases place with
  | nil =>
      obtain ⟨names, fragments, conditions, entries, agree, resolved⟩ := records []
      have own : itemsAt [] [([], ShapeItem.mark fragment)] = [.mark fragment] := itemsAt_here [_]
      rw [own]
      refine ⟨?_, ?_, fun type => ?_, fun name => ?_, fun name => ?_, fun occurrence member => ?_⟩
      · rw [List.filterMap_append, addAll_append]
        exact names
      · rw [List.filterMap_append, addAll_append, ← fragments]
        rfl
      · exact (conditions type).trans (by simp)
      · rw [List.filterMap_append, List.filterMap_cons_none rfl, List.filterMap_nil, List.append_nil]
        exact entries name
      · rw [List.filterMap_append, List.filterMap_cons_none rfl, List.filterMap_nil, List.append_nil]
        exact agree name
      · exact resolved occurrence (by simpa using member)
  | cons step rest =>
      have nothing : itemsAt (step :: rest) [([], ShapeItem.mark fragment)] = [] := by simp [itemsAt]
      rw [nothing, List.append_nil]
      have below := records (step :: rest)
      cases step <;> exact below

end Records

/-! ## Shapes of one entry -/

private theorem level_field {occurrence : Occurrence} {field : FieldShape}
    (named : field.name = occurrence.head.responseName)
    (entry : single? config occurrence = some field.entry) :
    Level config [.field occurrence] (.mk [field] [] []) := by
  obtain ⟨found, selected, same⟩ := Option.map_eq_some_iff.1 entry
  have backed : occurrence.head.name = field.info.field :=
    congrArg (fun entry => entry.1.field) same
  refine ⟨?_, rfl, fun type => by simp [SelectionShape.conditions], fun name => ?_,
    fun name other found occurrence member => ?_, fun other member => ?_⟩
  · exact congrArg (fun name => [name]) named
  · by_cases same : occurrence.head.responseName = name
    · simp [SelectionShape.field?, SelectionShape.fields, Ordered.find?, named, ShapeItem.named?, same,
        summary, entry]
    · simp [SelectionShape.field?, SelectionShape.fields, Ordered.find?, named, ShapeItem.named?, same,
        summary]
  · have only : other = field := List.mem_singleton.1 (Ordered.mem_of_find? found)
    obtain ⟨item, inItems, chosen⟩ := List.mem_filterMap.1 member
    rw [List.mem_singleton] at inItems
    subst inItems
    rw [ShapeItem.named?] at chosen
    split at chosen
    · cases chosen
      rw [only, backed]
    · cases chosen
  · cases List.mem_singleton.1 member
    rw [selected]
    rfl

private theorem level_condition (type : String) (inner : SelectionShape) :
    Level config [.condition type] (.mk [] [(type, inner)] []) where
  names := rfl
  fragments := rfl
  conditions other := by simp [SelectionShape.conditions, eq_comm]
  entries _ := rfl
  agree _ _ found := by cases found
  resolved _ member := by cases List.mem_singleton.1 member

private theorem records_leaf {occurrence : Occurrence} {info : FieldInfo}
    (entry : single? config occurrence = some (info, false)) :
    Records config [([], .field occurrence)]
      (.mk [.leaf occurrence.head.responseName info] [] []) := by
  have nothing (step : ShapeStep) :
      (SelectionShape.mk [.leaf occurrence.head.responseName info] [] []).follow step = .empty := by
    cases step with
    | type _ => rfl
    | field name =>
        by_cases same : occurrence.head.responseName = name <;>
          simp [SelectionShape.follow, SelectionShape.field?, SelectionShape.fields, Ordered.find?,
            FieldShape.name, FieldShape.selection?, same]
  intro place
  cases place with
  | nil =>
      have own : itemsAt [] [([], ShapeItem.field occurrence)] = [.field occurrence] := itemsAt_here [_]
      rw [own]
      exact level_field rfl entry
  | cons step rest =>
      rw [SelectionShape.shapeAt_cons, nothing, SelectionShape.shapeAt_empty]
      exact .empty

private theorem records_composite {occurrence : Occurrence} {info : FieldInfo}
    {inner : SelectionShape}
    {placed : List PlacedItem} (entry : single? config occurrence = some (info, true))
    (below : Records config placed inner) :
    Records config
      (([], .field occurrence) :: behind (.field occurrence.head.responseName) placed)
      (.mk [.composite occurrence.head.responseName info inner] [] []) := by
  refine Records.nest (level_field rfl entry) (.field occurrence.head.responseName) ?_
    fun other different => ?_
  · simpa [SelectionShape.follow, SelectionShape.field?, SelectionShape.fields, Ordered.find?,
      FieldShape.name, FieldShape.selection?] using below
  · cases other with
    | type _ => rfl
    | field name =>
        have apart : occurrence.head.responseName ≠ name := fun same => different (by rw [same])
        simp [SelectionShape.follow, SelectionShape.field?, SelectionShape.fields, Ordered.find?,
          FieldShape.name, apart]

private theorem records_condition (type : String) {inner : SelectionShape}
    {placed : List PlacedItem} (below : Records config placed inner) :
    Records config (([], .condition type) :: behind (.type type) placed)
      (.mk [] [(type, inner)] []) := by
  refine Records.nest (level_condition type inner) (.type type) ?_ fun other different => ?_
  · simpa [SelectionShape.follow, SelectionShape.conditions, NameMap.lookup] using below
  · cases other with
    | field _ => rfl
    | type name =>
        have apart : type ≠ name := fun same => different (by rw [same])
        simp [SelectionShape.follow, SelectionShape.conditions, NameMap.lookup, apart]

/-! ## Drafts -/

variable {document : Document}

theorem issues_merged {inner : Draft} {outer shape : SelectionShape} {position : Position}
    (silent : ((inner.withShape outer).merged position shape).issues = []) :
    inner.issues = [] ∧ (outer.merge shape).2 = [] := by
  simpa [Draft.merged, Draft.reportAll, Draft.withShape] using silent

private theorem records_merged {placed others : List PlacedItem} {inner : Draft}
    {outer shape : SelectionShape}
    {position : Position} (silent : ((inner.withShape outer).merged position shape).issues = [])
    (first : Records config placed outer) (second : Records config others shape)
    (distinct : shape.Distinct) :
    Records config (placed ++ others) ((inner.withShape outer).merged position shape).shape :=
  first.merge second distinct (issues_merged silent).2

theorem hidden_within (scope : Scope) (head : InlineFragment) :
    (scope.within head).hidden = (scope.hidden || head.masks) := by
  unfold Scope.within InlineFragment.masks
  cases mark : head.inlined? with
  | none => simp
  | some entry => rfl

private theorem records_withMark {placed : List PlacedItem} {draft : Draft}
    (records : Records config placed draft.shape) (head : InlineFragment) :
    Records config (placed ++ head.marks.map (Prod.mk [])) (withMark head draft).shape := by
  unfold withMark InlineFragment.marks
  cases mark : head.inlined? with
  | none => simpa using records
  | some entry => exact records.withFragment ⟨entry.1, entry.2⟩

/-- Selections that are recorded when they are added to a draft. -/
def AddsPlaced (config : Config) (document : Document) (selection : Selection) : Prop :=
  ∀ (scope : Scope) (draft : Draft) (before : List PlacedItem), draft.shape.Distinct →
    Records config before draft.shape → (addSelection config document scope selection draft).issues = [] →
    Records config (before ++ selection.placed config.schema scope.parent scope.hidden)
      (addSelection config document scope selection draft).shape

theorem addSelections_records_of_forall {items : List Selection}
    (each : ∀ item ∈ items, AddsPlaced config document item) (scope : Scope) {draft : Draft}
    {before : List PlacedItem} (distinct : draft.shape.Distinct)
    (records : Records config before draft.shape)
    (silent : (addSelections config document scope items draft).issues = []) :
    Records config (before ++ placed config.schema scope.parent scope.hidden items)
      (addSelections config document scope items draft).shape := by
  induction items generalizing draft before with
  | nil =>
      rw [placed, List.append_nil]
      exact records
  | cons item rest ih =>
      rw [List.forall_mem_cons] at each
      rw [addSelections] at silent ⊢
      have first : Extends config document _ _ _ draft _ := addSelection_extends item scope draft distinct
      have quiet := ((addSelections_extends rest scope first.distinct).silent.1 silent).1
      rw [placed, ← List.append_assoc]
      exact ih each.2 first.distinct (each.1 scope draft before distinct records quiet) silent

private theorem records_apart {items : List Selection}
    (each : ∀ item ∈ items, AddsPlaced config document item) (scope : Scope) (start : Draft) :
    let inner := addSelections config document scope items (start.withShape .empty)
    inner.shape.Distinct ∧ (inner.issues = [] →
      Records config (placed config.schema scope.parent scope.hidden items) inner.shape) :=
  ⟨(addSelections_extends items scope SelectionShape.empty_distinct).distinct, fun silent =>
    addSelections_records_of_forall each scope SelectionShape.empty_distinct Records.empty silent⟩

private theorem addSelection_field_records {head : Field} {items : List Selection}
    (each : ∀ item ∈ items, AddsPlaced config document item) :
    AddsPlaced config document (.field head items) := by
  intro scope draft before distinct records silent
  rw [addSelection] at silent ⊢
  rw [Selection.placed]
  cases resolved : config.schema.field? scope.parent head.name with
  | none =>
      rw [resolved] at silent
      simp [Draft.report] at silent
  | some found =>
      rw [resolved] at silent
      have type : (fieldInfo config scope head found).type = found.typeName := rfl
      simp only [type] at silent ⊢
      by_cases composite : config.schema.isComposite found.typeName = true
      · have entry : single? config ⟨scope.parent, head, scope.hidden⟩ =
            some (fieldInfo config scope head found, true) := by
          rw [single?, resolved, Option.map_some, composite]
          rfl
        rw [if_pos composite] at silent ⊢
        rw [addField_eq_merged] at silent
        rw [if_pos composite, addField_eq_merged]
        obtain ⟨inside, holds⟩ := records_apart each (scope.below found.typeName head)
          (started config document scope head items found draft)
        exact records_merged silent records (records_composite entry (holds (issues_merged silent).1))
          (composite_distinct _ _ inside)
      · have leaf : config.schema.isComposite found.typeName = false := by simpa using composite
        have entry : single? config ⟨scope.parent, head, scope.hidden⟩ =
            some (fieldInfo config scope head found, false) := by
          rw [single?, resolved, Option.map_some, leaf]
          rfl
        rw [if_neg composite] at silent ⊢
        rw [addField_eq_merged] at silent
        rw [if_neg composite, addField_eq_merged]
        have shape : (withPagination config document scope head found draft).shape = draft.shape :=
          shape_withPagination scope head found
        exact records_merged silent (shape ▸ records) (records_leaf entry) (leaf_distinct _ _)

private theorem addSelection_inline_records {head : InlineFragment} {items : List Selection}
    (each : ∀ item ∈ items, AddsPlaced config document item) :
    AddsPlaced config document (.inline head items) := by
  intro scope draft before distinct records silent
  have marked := records_withMark records head
  have entered : Extends config document _ _ _ draft (withMark head draft) :=
    withMark_extends distinct head
  rw [addSelection] at silent ⊢
  rw [Selection.placed]
  simp only [parent_within] at silent ⊢
  rw [← List.append_assoc]
  by_cases same : head.typeWithin scope.parent = scope.parent
  · rw [if_pos same] at silent ⊢
    have inside :=
      addSelections_records_of_forall each (scope.within head) entered.distinct marked silent
    rw [parent_within, hidden_within] at inside
    rwa [if_pos same]
  · rw [if_neg same] at silent ⊢
    rw [addCondition_eq_merged] at silent
    rw [if_neg same, addCondition_eq_merged]
    obtain ⟨inside, holds⟩ := records_apart each (scope.within head) (withMark head draft)
    rw [parent_within, hidden_within] at holds
    exact records_merged silent marked (records_condition _ (holds (issues_merged silent).1))
      (condition_distinct _ inside)

private theorem addSelection_records (selection : Selection) :
    AddsPlaced config document selection := by
  induction selection with
  | field head items ih => exact addSelection_field_records ih
  | spread head =>
      intro scope draft before distinct records silent
      simp [addSelection, Draft.report] at silent
  | inline head items ih => exact addSelection_inline_records ih

theorem records_of_generate {artifact : Artifact} (generates : generate config document = .ok artifact) :
    ∃ selections, document.rootType? config.schema = some artifact.rootType ∧
      document.selections? = some selections ∧
      Records config (placed config.schema artifact.rootType false selections.items)
        artifact.selection ∧ artifact.selection.Distinct := by
  unfold generate at generates
  split at generates
  · rename_i root selections rooted selected
    simp only at generates
    split at generates
    · rename_i silent
      rw [List.isEmpty_iff] at silent
      cases generates
      refine ⟨selections, rooted, selected, ?_, ?_⟩
      · exact addSelections_records_of_forall (fun item _ => addSelection_records item)
          ⟨root, false, false, []⟩ SelectionShape.empty_distinct .empty silent
      · exact (addSelections_extends selections.items _ SelectionShape.empty_distinct).distinct
    · cases generates
  · cases generates

end Generation

end GraphqlStore
