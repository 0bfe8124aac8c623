import GraphqlStore.Proofs.AcceptedRun
import GraphqlStore.Proofs.ShapeOccurrence
import Mathlib.Data.List.Induction

/-!
Compiling selections is exact: at each path of an artifact's shape there is an
entry exactly if a field is selected there, and the entry says of all fields
that are selected there what they say together. Names and fragments are listed
in the order in which they are first met.
-/

set_option autoImplicit false

namespace GraphqlStore

theorem addAll_nil_eq_eraseDups {α : Type} [BEq α] (values : List α) :
    addAll [] values = values.eraseDups := by
  have loop (values seen : List α) :
      List.eraseDupsBy.loop (· == ·) values seen = addAll seen.reverse values := by
    induction values generalizing seen with
    | nil => rfl
    | cons first rest ih =>
        rw [List.eraseDupsBy.loop]
        have same : addAll seen.reverse (first :: rest) = addAll (addNew seen.reverse first) rest := rfl
        rw [same, addNew, List.contains_reverse, List.contains_eq_any_beq]
        cases seen.any (first == ·) with
        | true => exact ih seen
        | false => simpa using ih (first :: seen)
  exact (loop values []).symm

/-! ## Selections at places -/

/-- What a selection on a type brings right to the place where it stands. -/
def Selection.own (parent : String) (masked : Bool) : Selection → List ShapeItem
  | .field head _ => [.field ⟨parent, head, masked⟩]
  | .spread _ => []
  | .inline head _ =>
      head.marks ++
        if head.typeWithin parent = parent then [] else [.condition (head.typeWithin parent)]

theorem Selection.eq_field_of_own {parent : String} {masked : Bool} {selection : Selection}
    {occurrence : Occurrence} (own : .field occurrence ∈ selection.own parent masked) :
    ∃ head inner, selection = .field head inner ∧ occurrence = ⟨parent, head, masked⟩ := by
  cases selection with
  | field head inner =>
      cases List.mem_singleton.1 own
      exact ⟨head, inner, rfl, rfl⟩
  | spread head => cases own
  | inline head inner =>
      rw [Selection.own, List.mem_append, InlineFragment.marks] at own
      rcases own with mark | condition
      · obtain ⟨_, _, absurd⟩ := List.mem_map.1 mark
        cases absurd
      · split at condition
        · cases condition
        · cases List.mem_singleton.1 condition

theorem Selection.eq_inline_of_own {parent type : String} {masked : Bool} {selection : Selection}
    (own : .condition type ∈ selection.own parent masked) :
    ∃ head inner, selection = .inline head inner ∧ head.typeWithin parent = type ∧ type ≠ parent := by
  cases selection with
  | field head inner => cases List.mem_singleton.1 own
  | spread head => cases own
  | inline head inner =>
      rw [Selection.own, List.mem_append, InlineFragment.marks] at own
      rcases own with mark | condition
      · obtain ⟨_, _, absurd⟩ := List.mem_map.1 mark
        cases absurd
      · split at condition
        · cases condition
        · rename_i other
          cases List.mem_singleton.1 condition
          exact ⟨head, inner, rfl, rfl, other⟩

/-- Selections that stand at a place of the shape, with the type they are made on, and whether they
are below a fragment that hides its fields. -/
inductive StandAt (schema : Schema) (root : String) (items : List Selection) :
    ShapePath → String → Bool → List Selection → Prop where
  | root : StandAt schema root items [] root false items
  | field {place : ShapePath} {type : String} {masked : Bool} {standing inner : List Selection}
      {head : Field} {found : FieldRef} :
      StandAt schema root items place type masked standing → .field head inner ∈ standing →
      schema.field? type head.name = some found → schema.isComposite found.typeName = true →
      StandAt schema root items (place ++ [.field head.responseName]) found.typeName masked inner
  | within {place : ShapePath} {type : String} {masked : Bool} {standing inner : List Selection}
      {head : InlineFragment} :
      StandAt schema root items place type masked standing → .inline head inner ∈ standing →
      head.typeWithin type = type →
      StandAt schema root items place type (masked || head.masks) inner
  | condition {place : ShapePath} {type : String} {masked : Bool} {standing inner : List Selection}
      {head : InlineFragment} :
      StandAt schema root items place type masked standing → .inline head inner ∈ standing →
      head.typeWithin type ≠ type →
      StandAt schema root items (place ++ [.type (head.typeWithin type)]) (head.typeWithin type)
        (masked || head.masks) inner

private theorem mem_placed {schema : Schema} {parent : String} {masked : Bool}
    {items : List Selection} {entry : PlacedItem} :
    entry ∈ placed schema parent masked items ↔
      ∃ item ∈ items, entry ∈ item.placed schema parent masked := by
  induction items with
  | nil => simp [placed]
  | cons item rest ih => simp [placed, ih]

theorem mem_behind {step : ShapeStep} {placed : List PlacedItem} {place : ShapePath} {item : ShapeItem} :
    (place, item) ∈ behind step placed ↔ ∃ rest, place = step :: rest ∧ (rest, item) ∈ placed := by
  simp [behind, eq_comm, and_comm]

section Standing

variable {schema : Schema} {root : String} {items : List Selection} {place : ShapePath}
  {type : String} {masked : Bool} {standing : List Selection}

private theorem placed_own {selection : Selection} {item : ShapeItem}
    (own : item ∈ selection.own type masked) :
    ([], item) ∈ selection.placed schema type masked := by
  cases selection with
  | field head inner =>
      cases List.mem_singleton.1 own
      rw [Selection.placed]
      exact List.mem_cons_self
  | spread head => cases own
  | inline head inner =>
      rw [Selection.own, List.mem_append] at own
      rw [Selection.placed, List.mem_append]
      refine own.imp (fun mark => List.mem_map_of_mem mark) fun condition => ?_
      split at condition
      · cases condition
      · rename_i other
        cases List.mem_singleton.1 condition
        simp only [if_neg other]
        exact List.mem_cons_self

theorem StandAt.placed (stands : StandAt schema root items place type masked standing)
    {rest : ShapePath} {item : ShapeItem} (member : (rest, item) ∈ placed schema type masked standing) :
    (place ++ rest, item) ∈ GraphqlStore.placed schema root false items := by
  induction stands generalizing rest with
  | root => exact member
  | @field place type masked standing inner head found _ inStanding resolved composite ih =>
      rw [List.append_assoc]
      refine ih (mem_placed.2 ⟨_, inStanding, ?_⟩)
      rw [Selection.placed, resolved]
      simp only [if_pos composite]
      exact List.mem_cons_of_mem _ (mem_behind.2 ⟨rest, rfl, member⟩)
  | @within place type masked standing inner head _ inStanding same ih =>
      refine ih (mem_placed.2 ⟨_, inStanding, ?_⟩)
      rw [Selection.placed, same]
      exact List.mem_append_right _ (by rwa [if_pos rfl])
  | @condition place type masked standing inner head _ inStanding other ih =>
      rw [List.append_assoc]
      refine ih (mem_placed.2 ⟨_, inStanding, ?_⟩)
      rw [Selection.placed]
      simp only [if_neg other]
      exact List.mem_append_right _ (List.mem_cons_of_mem _ (mem_behind.2 ⟨rest, rfl, member⟩))

private theorem StandAt.of_placed (stands : StandAt schema root items place type masked standing)
    {selection : Selection} (inStanding : selection ∈ standing) {rest : ShapePath} {item : ShapeItem}
    (member : (rest, item) ∈ selection.placed schema type masked) :
    ∃ type masked standing selection, StandAt schema root items (place ++ rest) type masked standing ∧
      selection ∈ standing ∧ item ∈ selection.own type masked := by
  induction selection generalizing place type masked standing rest with
  | field head inner ih =>
      rw [Selection.placed] at member
      rcases List.mem_cons.1 member with here | below
      · cases here
        rw [List.append_nil]
        exact ⟨type, masked, standing, _, stands, inStanding, List.mem_cons_self⟩
      · split at below
        · cases below
        · rename_i found resolved
          split at below
          · rename_i composite
            obtain ⟨rest, rfl, inside⟩ := mem_behind.1 below
            obtain ⟨next, inInner, brought⟩ := mem_placed.1 inside
            have deeper := ih next inInner (.field stands inStanding resolved composite) inInner brought
            rwa [List.append_assoc] at deeper
          · cases below
  | spread head => cases member
  | inline head inner ih =>
      rw [Selection.placed, List.mem_append] at member
      rcases member with mark | below
      · obtain ⟨item, marks, same⟩ := List.mem_map.1 mark
        cases same
        rw [List.append_nil]
        exact ⟨type, masked, standing, _, stands, inStanding, List.mem_append_left _ marks⟩
      · split at below
        · rename_i same
          rw [same] at below
          obtain ⟨next, inInner, member⟩ := mem_placed.1 below
          exact ih next inInner (.within stands inStanding same) inInner member
        · rename_i other
          rcases List.mem_cons.1 below with here | below
          · cases here
            rw [List.append_nil]
            refine ⟨type, masked, standing, _, stands, inStanding, List.mem_append_right _ ?_⟩
            rw [if_neg other]
            exact List.mem_cons_self
          · obtain ⟨rest, rfl, inside⟩ := mem_behind.1 below
            obtain ⟨next, inInner, brought⟩ := mem_placed.1 inside
            have deeper := ih next inInner (.condition stands inStanding other) inInner brought
            rwa [List.append_assoc] at deeper

theorem mem_placed_iff {item : ShapeItem} :
    (place, item) ∈ placed schema root false items ↔
      ∃ type masked standing selection, StandAt schema root items place type masked standing ∧
        selection ∈ standing ∧ item ∈ selection.own type masked := by
  constructor
  · intro member
    obtain ⟨selection, inItems, member⟩ := mem_placed.1 member
    exact StandAt.of_placed .root inItems member
  · rintro ⟨type, masked, standing, selection, stands, inStanding, own⟩
    have member := stands.placed (mem_placed.2 ⟨selection, inStanding, placed_own own⟩)
    rwa [List.append_nil] at member

theorem StandAt.type_of_nil (stands : StandAt schema root items place type masked standing)
    (here : place = []) : type = root := by
  induction stands with
  | root => rfl
  | field _ _ _ _ _ => simp at here
  | within _ _ _ ih => exact ih here
  | condition _ _ _ _ => simp at here

theorem StandAt.type_of_condition (stands : StandAt schema root items place type masked standing)
    {before : ShapePath} {name : String} (here : place = before ++ [.type name]) : type = name := by
  induction stands with
  | root => simp at here
  | field _ _ _ _ _ => simp at here
  | within _ _ _ ih => exact ih here
  | condition _ _ _ _ =>
      cases (List.append_inj' here rfl).2
      rfl

theorem StandAt.field_above (stands : StandAt schema root items place type masked standing)
    {before : ShapePath} {name : String} (here : place = before ++ [.field name]) :
    ∃ outer deep above head inner found, StandAt schema root items before outer deep above ∧
      .field head inner ∈ above ∧ head.responseName = name ∧
      schema.field? outer head.name = some found ∧ type = found.typeName := by
  induction stands with
  | root => simp at here
  | field stands inStanding resolved _ _ =>
      obtain ⟨rfl, same⟩ := List.append_inj' here rfl
      cases same
      exact ⟨_, _, _, _, _, _, stands, inStanding, rfl, resolved, rfl⟩
  | within _ _ _ ih => exact ih here
  | condition _ _ _ _ => simp at here

/-- Where the fields of one response name are the same, all selections that stand at one place are
made on the same type. -/
theorem StandAt.type_unique
    (agree : ∀ place first second,
      (place, ShapeItem.field first) ∈ GraphqlStore.placed schema root false items →
      (place, ShapeItem.field second) ∈ GraphqlStore.placed schema root false items →
      first.head.responseName = second.head.responseName → first.head.name = second.head.name)
    {other : String} {deep : Bool} {others : List Selection}
    (stands : StandAt schema root items place type masked standing)
    (also : StandAt schema root items place other deep others) : type = other := by
  induction place using List.reverseRecOn generalizing type masked standing other deep others with
  | nil => rw [stands.type_of_nil rfl, also.type_of_nil rfl]
  | append_singleton before step ih =>
      cases step with
      | type name => rw [stands.type_of_condition rfl, also.type_of_condition rfl]
      | field name =>
          obtain ⟨_, _, _, head, _, _, first, member, named, resolved, rfl⟩ := stands.field_above rfl
          obtain ⟨_, _, _, twin, _, _, second, inSecond, alike, found, rfl⟩ := also.field_above rfl
          have same : head.name = twin.name := agree before _ _
            (mem_placed_iff.2 ⟨_, _, _, _, first, member, List.mem_cons_self⟩)
            (mem_placed_iff.2 ⟨_, _, _, _, second, inSecond, List.mem_cons_self⟩)
            (named.trans alike.symm)
          obtain rfl := ih first second
          rw [same] at resolved
          cases resolved.symm.trans found
          rfl

end Standing

/-! ## Occurrences at paths -/

def ShapeItem.occurrence? : ShapeItem → Option Occurrence
  | .field occurrence => some occurrence
  | _ => none

/-- The fields that are selected at a path, in document order. -/
def occurrencesAt (path : ShapePath) (placed : List PlacedItem) : List Occurrence :=
  placed.filterMap fun entry => entry.2.occurrence?.filter fun occurrence =>
    entry.1 ++ [.field occurrence.head.responseName] = path

theorem occurrencesAt_field (place : ShapePath) (name : String) (placed : List PlacedItem) :
    occurrencesAt (place ++ [.field name]) placed =
      (itemsAt place placed).filterMap (ShapeItem.named? name) := by
  rw [itemsAt, List.filterMap_filterMap]
  refine List.filterMap_congr fun entry _ => ?_
  obtain ⟨other, item⟩ := entry
  have paths (first : String) :
      other ++ [.field first] = place ++ [ShapeStep.field name] ↔ other = place ∧ first = name := by
    constructor
    · intro same
      obtain ⟨rfl, last⟩ := List.append_inj' same rfl
      cases last
      exact ⟨rfl, rfl⟩
    · rintro ⟨rfl, rfl⟩
      rfl
  by_cases here : other = place
  · cases item <;> simp [ShapeItem.occurrence?, ShapeItem.named?, Option.filter, here]
  · cases item <;> simp [ShapeItem.occurrence?, Option.filter, paths, here]

private theorem occurrencesAt_condition (place : ShapePath) (name : String)
    (placed : List PlacedItem) :
    occurrencesAt (place ++ [.type name]) placed = [] := by
  refine List.filterMap_eq_nil_iff.2 fun entry _ => ?_
  cases entry.2 <;> simp [ShapeItem.occurrence?, Option.filter]

theorem occurrencesAt_nil (placed : List PlacedItem) : occurrencesAt [] placed = [] := by
  refine List.filterMap_eq_nil_iff.2 fun entry _ => ?_
  cases entry.2 <;> simp [ShapeItem.occurrence?, Option.filter]

theorem mem_occurrencesAt {path : ShapePath} {placed : List PlacedItem} {occurrence : Occurrence} :
    occurrence ∈ occurrencesAt path placed ↔
      ∃ place, (place, .field occurrence) ∈ placed ∧
        place ++ [.field occurrence.head.responseName] = path := by
  rw [occurrencesAt, List.mem_filterMap]
  constructor
  · rintro ⟨⟨place, item⟩, member, chosen⟩
    cases item with
    | field other =>
        simp only [ShapeItem.occurrence?, Option.filter, decide_eq_true_eq] at chosen
        split at chosen
        · rename_i here
          cases chosen
          exact ⟨place, member, here⟩
        · cases chosen
    | mark _ => cases chosen
    | condition _ => cases chosen
  · rintro ⟨place, member, rfl⟩
    exact ⟨_, member, by simp [ShapeItem.occurrence?, Option.filter]⟩

namespace Generation

/-! ## Summaries -/

variable {config : Config}

def isComposite (config : Config) (occurrence : Occurrence) : Bool :=
  (config.schema.field? occurrence.parent occurrence.head.name).any fun found =>
    config.schema.isComposite found.typeName

/-- An entry is that of its first occurrence, but for what all occurrences decide together. -/
structure Tells (config : Config) (occurrences : List Occurrence) (entry : FieldInfo × Bool) :
    Prop where
  first : ∃ occurrence ∈ occurrences, ∃ found,
    config.schema.field? occurrence.parent occurrence.head.name = some found ∧
      entry.1.type = found.typeName ∧ entry.1.typeRef = found.type.text
  hidden : entry.1.hidden = occurrences.all Occurrence.masked
  paginated : entry.1.paginated = occurrences.any fun occurrence => occurrence.head.isPaginated
  listName : entry.1.listName = occurrences.findSome? fun occurrence =>
    (DirectiveCheck.listName? occurrence.head).map Prod.fst
  composite : entry.2 = occurrences.any (isComposite config)

private theorem tells_summary {occurrences : List Occurrence}
    (resolved : ∀ occurrence ∈ occurrences,
      (config.schema.field? occurrence.parent occurrence.head.name).isSome) :
    (occurrences = [] ∧ summary config occurrences = none) ∨
      ∃ entry, summary config occurrences = some entry ∧ Tells config occurrences entry := by
  induction occurrences with
  | nil => exact .inl ⟨rfl, rfl⟩
  | cons first rest ih =>
      rw [List.forall_mem_cons] at resolved
      obtain ⟨found, selected⟩ := Option.isSome_iff_exists.1 resolved.1
      have alone : single? config first = some (fieldInfo config
          ⟨first.parent, first.masked, false, []⟩ first.head found,
          config.schema.isComposite found.typeName) := by
        rw [single?, selected]
        rfl
      right
      rw [summary, List.foldr_cons, ← summary, alone]
      have own : isComposite config first = config.schema.isComposite found.typeName := by
        rw [isComposite, selected]
        rfl
      rcases ih resolved.2 with ⟨rfl, none⟩ | ⟨entry, some, later⟩
      · rw [none, Option.merge_none_right]
        refine ⟨_, rfl, ⟨first, List.mem_cons_self, found, selected, rfl, rfl⟩, ?_, ?_, ?_, ?_⟩
        · simp [fieldInfo]
        · simp [fieldInfo]
        · simp [fieldInfo]
        · simp [own]
      · rw [some, Option.merge_some_some]
        refine ⟨_, rfl, ⟨first, List.mem_cons_self, found, selected, rfl, rfl⟩, ?_, ?_, ?_, ?_⟩
        · rw [List.all_cons, ← later.hidden]
          rfl
        · rw [List.any_cons, ← later.paginated]
          rfl
        · rw [List.findSome?_cons, ← later.listName]
          simp only [joinEntries, FieldInfo.merge, fieldInfo]
          cases DirectiveCheck.listName? first.head <;> rfl
        · rw [List.any_cons, own, ← later.composite]
          rfl

/-! ## Artifacts -/

/-- What an entry says about a field is what its occurrences say together. -/
structure SumsUp (config : Config) (occurrences : List Occurrence) (info : FieldInfo) : Prop where
  backed : ∀ occurrence ∈ occurrences, ∃ found,
    config.schema.field? occurrence.parent occurrence.head.name = some found ∧
      info.field = occurrence.head.name ∧ info.type = found.typeName ∧ info.typeRef = found.type.text
  hidden : info.hidden = true ↔ ∀ occurrence ∈ occurrences, occurrence.masked = true
  paginated : info.paginated = true ↔ ∃ occurrence ∈ occurrences, occurrence.head.isPaginated = true
  listName : info.listName =
    occurrences.findSome? fun occurrence => (DirectiveCheck.listName? occurrence.head).map Prod.fst

namespace Records

variable {root : String} {items : List Selection} {shape : SelectionShape}

theorem resolved (records : Records config (placed config.schema root false items) shape)
    {path : ShapePath} {occurrence : Occurrence}
    (member : occurrence ∈ occurrencesAt path (placed config.schema root false items)) :
    (config.schema.field? occurrence.parent occurrence.head.name).isSome := by
  obtain ⟨place, brought, _⟩ := mem_occurrencesAt.1 member
  exact (records place).resolved occurrence (List.mem_filterMap.2 ⟨_, brought, if_pos rfl⟩)

theorem agree (records : Records config (placed config.schema root false items) shape)
    (place : ShapePath) (first second : Occurrence)
    (one : (place, ShapeItem.field first) ∈ placed config.schema root false items)
    (two : (place, ShapeItem.field second) ∈ placed config.schema root false items)
    (same : first.head.responseName = second.head.responseName) :
    first.head.name = second.head.name := by
  have named {occurrence : Occurrence}
      (member : (place, ShapeItem.field occurrence) ∈ placed config.schema root false items) :
      occurrence ∈ (itemsAt place (placed config.schema root false items)).filterMap
        (ShapeItem.named? occurrence.head.responseName) :=
    List.mem_filterMap.2 ⟨.field occurrence, List.mem_filterMap.2 ⟨_, member, if_pos rfl⟩, if_pos rfl⟩
  have inFirst := named one
  have inSecond := named two
  rw [same] at inFirst
  obtain ⟨field, found⟩ := (records place).field?_isSome inFirst
  rw [(records place).agree _ field found first inFirst,
    (records place).agree _ field found second inSecond]

theorem same_field (records : Records config (placed config.schema root false items) shape)
    {path : ShapePath} {first second : Occurrence}
    (one : first ∈ occurrencesAt path (placed config.schema root false items))
    (two : second ∈ occurrencesAt path (placed config.schema root false items)) :
    first.parent = second.parent ∧ first.head.name = second.head.name := by
  obtain ⟨place, inFirst, rfl⟩ := mem_occurrencesAt.1 one
  obtain ⟨other, inSecond, same⟩ := mem_occurrencesAt.1 two
  obtain ⟨rfl, last⟩ := List.append_inj' same rfl
  have named : second.head.responseName = first.head.responseName := by
    simpa using last
  have standing {occurrence : Occurrence}
      (member : (other, ShapeItem.field occurrence) ∈ placed config.schema root false items) :
      ∃ masked standing, StandAt config.schema root items other occurrence.parent masked standing := by
    obtain ⟨type, masked, standing, selection, stands, _, own⟩ := mem_placed_iff.1 member
    obtain ⟨head, inner, _, rfl⟩ := Selection.eq_field_of_own own
    exact ⟨_, _, stands⟩
  obtain ⟨_, _, stands⟩ := standing inFirst
  obtain ⟨_, _, also⟩ := standing inSecond
  exact ⟨stands.type_unique records.agree also,
    records.agree other first second inFirst inSecond named.symm⟩

theorem infoAt?_cases (records : Records config (placed config.schema root false items) shape)
    (path : ShapePath) :
    let occurrences := occurrencesAt path (placed config.schema root false items)
    (occurrences = [] ∧ shape.infoAt? path = none) ∨
      ∃ place name field, path = place ++ [.field name] ∧
        (shape.shapeAt place).field? name = some field ∧ shape.infoAt? path = some field.info ∧
        Tells config occurrences field.entry ∧
        ∀ occurrence ∈ occurrences, occurrence.head.name = field.info.field := by
  rcases List.eq_nil_or_concat' path with rfl | ⟨place, step, rfl⟩
  · exact .inl ⟨occurrencesAt_nil _, rfl⟩
  · cases step with
    | type name =>
        refine .inl ⟨occurrencesAt_condition _ _ _, ?_⟩
        rw [SelectionShape.infoAt?_append, SelectionShape.infoAt?_condition]
    | field name =>
        have entries := (records place).entries name
        have agree := (records place).agree name
        rw [← occurrencesAt_field] at entries agree
        rw [SelectionShape.infoAt?_append, SelectionShape.infoAt?_here]
        rcases tells_summary fun occurrence member => records.resolved member with
          ⟨nothing, none⟩ | ⟨entry, some, tells⟩
        · rw [none, Option.map_eq_none_iff] at entries
          exact .inl ⟨nothing, by rw [entries]; rfl⟩
        · rw [some] at entries
          obtain ⟨field, found, rfl⟩ := Option.map_eq_some_iff.1 entries
          exact .inr ⟨place, name, field, rfl, found, by rw [found]; rfl, tells, agree field found⟩

theorem sumsUp (records : Records config (placed config.schema root false items) shape)
    {path : ShapePath} {info : FieldInfo} (found : shape.infoAt? path = some info) :
    SumsUp config (occurrencesAt path (placed config.schema root false items)) info := by
  rcases records.infoAt?_cases path with ⟨_, none⟩ | ⟨_, _, field, _, _, here, tells, agree⟩
  · cases none.symm.trans found
  · cases here.symm.trans found
    refine ⟨fun occurrence member => ?_, ?_, ?_, tells.listName⟩
    · obtain ⟨first, inFirst, declared, selected, type, typeRef⟩ := tells.first
      obtain ⟨parents, names⟩ := records.same_field member inFirst
      exact ⟨declared, by rw [parents, names, selected], (agree occurrence member).symm, type, typeRef⟩
    · exact (Bool.eq_iff_iff.1 tells.hidden).trans List.all_eq_true
    · exact (Bool.eq_iff_iff.1 tells.paginated).trans List.any_eq_true

end Records

/-- At every path of an artifact's shape there is an entry exactly if a field is selected there that
is not below a field without composite type, and it sums these fields up. The shape of every place
lists response names and fragments without repetition, in the order in which they are met. -/
theorem generate_exact {config : Config} {document : Document} {artifact : Artifact}
    (generates : generate config document = .ok artifact) :
    ∃ selections, document.rootType? config.schema = some artifact.rootType ∧
      document.selections? = some selections ∧
      let brought := placed config.schema artifact.rootType false selections.items
      (∀ path, ((artifact.selection.infoAt? path).isSome ↔ occurrencesAt path brought ≠ []) ∧
        ∀ info, artifact.selection.infoAt? path = some info →
          SumsUp config (occurrencesAt path brought) info) ∧
      ∀ place,
        (artifact.selection.shapeAt place).fields.map FieldShape.name =
          ((itemsAt place brought).filterMap ShapeItem.name?).eraseDups ∧
        (artifact.selection.shapeAt place).fragments =
          ((itemsAt place brought).filterMap ShapeItem.mark?).eraseDups := by
  obtain ⟨selections, rooted, selected, records, _⟩ := records_of_generate generates
  refine ⟨selections, rooted, selected, fun path => ⟨?_, fun info => records.sumsUp⟩, fun place => ?_⟩
  · rcases records.infoAt?_cases path with ⟨nothing, none⟩ | ⟨_, _, field, _, _, here, tells, _⟩
    · simp [nothing, none]
    · obtain ⟨occurrence, member, _⟩ := tells.first
      simp [here, List.ne_nil_of_mem member]
  · rw [(records place).names, (records place).fragments, addAll_nil_eq_eraseDups,
      addAll_nil_eq_eraseDups]
    exact ⟨rfl, rfl⟩

/-- The title in the pages of the catalog, selected through a masked fragment only. -/
theorem generate_exact_catalog :
    ∃ schema document artifact selections info,
      generate (.ofSchema schema) document = .ok artifact ∧
      document.selections? = some selections ∧
      let path := [.field "items", .field "edges", .field "node", .field "title"]
      artifact.selection.infoAt? path = some info ∧ info.hidden = true ∧
        occurrencesAt path (placed schema artifact.rootType false selections.items) ≠ [] ∧
        SumsUp (.ofSchema schema)
          (occurrencesAt path (placed schema artifact.rootType false selections.items)) info := by
  have ran : (Pipeline.runTexts? Pipeline.catalog Pipeline.catalogTexts).any (fun result =>
      result.2.any fun document =>
        (generate (.ofSchema result.1) document).toOption.any fun artifact =>
          (artifact.selection.infoAt?
            [.field "items", .field "edges", .field "node", .field "title"]).any
              FieldInfo.hidden) = true := by
    decide +kernel
  obtain ⟨⟨schema, revised⟩, _, some⟩ := (Option.any_eq_true _ _).1 ran
  obtain ⟨document, _, made⟩ := List.any_eq_true.1 some
  obtain ⟨artifact, generates, entry⟩ := (Option.any_eq_true _ _).1 made
  obtain ⟨info, found, hidden⟩ := (Option.any_eq_true _ _).1 entry
  rw [toOption_eq_some_iff] at generates
  obtain ⟨selections, _, selected, exact, _⟩ := generate_exact generates
  refine ⟨schema, document, artifact, selections, info, generates, selected, found, hidden, ?_, ?_⟩
  · exact (exact _).1.1 (by rw [found]; rfl)
  · exact (exact _).2 info found

def belowNumber : Document :=
  .ofSource "Q" (.operation .query) ⟨none, "query Q \x7b a \x7b x \x7d \x7d", true, true⟩
    [.operation ⟨.query, .start, some "Q", [], [],
      ⟨⟨1, 9⟩, [.field (.plain "a" ⟨1, 11⟩) [.field (.plain "x" ⟨1, 15⟩) []]]⟩⟩]

/-- What is selected below a number has no entry, though an artifact is generated. -/
theorem selection_below_number_left_out :
    ∃ schema artifact opening head leaf,
      Schema.ofDefinitions [.type "Query" (.object [⟨"a", .named "Int", []⟩] [])] = .ok schema ∧
      belowNumber.selections? = some ⟨opening, [.field head [.field leaf []]]⟩ ∧
      head.responseName = "a" ∧ leaf.responseName = "x" ∧
      generate (.ofSchema schema) belowNumber = .ok artifact ∧
      (artifact.selection.infoAt? [.field "a"]).isSome = true ∧
      artifact.selection.infoAt? [.field "a", .field "x"] = none := by
  have ran : (Schema.ofDefinitions [.type "Query" (.object [⟨"a", .named "Int", []⟩] [])]).toOption.any
      (fun schema => (generate (.ofSchema schema) belowNumber).toOption.any fun artifact =>
        (artifact.selection.infoAt? [.field "a"]).isSome &&
          (artifact.selection.infoAt? [.field "a", .field "x"]).isNone) = true := by
    decide +kernel
  obtain ⟨schema, built, made⟩ := (Option.any_eq_true _ _).1 ran
  obtain ⟨artifact, generates, entries⟩ := (Option.any_eq_true _ _).1 made
  rw [Bool.and_eq_true, Option.isNone_iff_eq_none] at entries
  exact ⟨schema, artifact, _, _, _, toOption_eq_some_iff.1 built, rfl, rfl, rfl,
    toOption_eq_some_iff.1 generates, entries⟩

end Generation

end GraphqlStore
