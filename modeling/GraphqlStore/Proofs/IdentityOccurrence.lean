import GraphqlStore.Proofs.IdentityTyping
import GraphqlStore.Proofs.Occurrence

/-!
Which fields occur after identity is completed: those that occurred before, and
in each selection set that is opened on a type the names reserved for the type
that no field right in the set answers.
-/

set_option autoImplicit false

namespace GraphqlStore

/-! ## Names that are reserved -/

/-- What some selections become when names are reserved in them and nothing is reported: the names
that no field right in them answers are appended, and no other field answers to one of them. -/
structure Reserved (opening : Position) (names : List String) (before after : List Selection) :
    Prop where
  mem_iff : ∀ selection, selection ∈ after ↔ selection ∈ before ∨
    ∃ name ∈ names, ¬ Answered name before ∧ selection = .field (Field.plain name opening) []
  free : ∀ name ∈ names, taking? name before = none

namespace Reserved

variable {opening : Position} {names others : List String} {before middle after : List Selection}

theorem nil (items : List Selection) : Reserved opening [] items items :=
  ⟨by simp, by simp⟩

theorem answered_iff (reserved : Reserved opening names before after) {name : String} :
    Answered name after ↔ Answered name before ∨ name ∈ names := by
  constructor
  · rintro ⟨head, below, member, answers⟩
    rcases (reserved.mem_iff _).1 member with known | ⟨other, inNames, _, same⟩
    · exact .inl ⟨head, below, known, answers⟩
    · cases same
      exact .inr ((Field.answers_iff.1 answers).1 ▸ inNames)
  · intro known
    by_cases answered : Answered name before
    · obtain ⟨head, below, member, answers⟩ := answered
      exact ⟨head, below, (reserved.mem_iff _).2 (.inl member), answers⟩
    · exact ⟨_, _, (reserved.mem_iff _).2 (.inr ⟨name, known.resolve_left answered, answered, rfl⟩),
        Field.answers_plain name opening⟩

theorem trans (first : Reserved opening names before middle)
    (second : Reserved opening others middle after) :
    Reserved opening (names ++ others) before after := by
  refine ⟨fun selection => ?_, fun name member => ?_⟩
  · rw [second.mem_iff, first.mem_iff]
    simp only [first.answered_iff, List.mem_append]
    grind
  · rcases List.mem_append.1 member with known | later
    · exact first.free name known
    · have free := taking?_eq_none_iff.1 (second.free name later)
      exact taking?_eq_none_iff.2 fun item inItems => free item ((first.mem_iff item).2 (.inl inItems))

theorem ensurePlain {report : String → Field → Fault} {name : String} {items : List Selection}
    (silent : (ensurePlain report name opening items).faults = []) :
    Reserved opening [name] items (GraphqlStore.ensurePlain report name opening items).items := by
  unfold GraphqlStore.ensurePlain at silent ⊢
  rcases ensureField_cases report name (fun _ items => .keep items) opening items with
    ⟨other, _, same⟩ | ⟨free, before, head, inner, rest, split, _, answers, same⟩ | ⟨free, unanswered, same⟩
  · rw [same] at silent
    cases silent
  · have answered : Answered name items :=
      ⟨head, inner, by rw [split]; exact List.mem_append_right _ List.mem_cons_self, answers⟩
    have unchanged :
        (ensureField report name (fun _ items => .keep items) opening items).items = items := by
      rw [same, split]
      rfl
    rw [unchanged]
    exact ⟨by simp [answered], by simpa using free⟩
  · rw [same]
    refine ⟨fun selection => ?_, by simpa using free⟩
    simp [Completed.keep, unanswered]

theorem foldl {step : String → List Selection → Completed} {keys : List String}
    (each : ∀ key items, (step key items).faults = [] →
      Reserved opening [key] items (step key items).items) {start : Completed}
    (first : start.faults = [] → Reserved opening names before start.items)
    (silent : (keys.foldl (fun done key => done.andThen (step key)) start).faults = []) :
    Reserved opening (names ++ keys) before
      (keys.foldl (fun done key => done.andThen (step key)) start).items := by
  induction keys generalizing start names with
  | nil =>
      rw [List.append_nil]
      exact first silent
  | cons key rest ih =>
      have next (both : (start.andThen (step key)).faults = []) :
          Reserved opening (names ++ [key]) before (start.andThen (step key)).items := by
        have parts := List.append_eq_nil_iff.1 both
        exact (first parts.1).trans (each key _ parts.2)
      have all := ih next silent
      rwa [List.append_assoc] at all

end Reserved

namespace IdentityCompletion

variable {config : Config}

/-- The names that are reserved in selections made on a type. -/
def reservedNames (config : Config) (type : String) : List String :=
  if needsIdentity config.schema type then
    (if config.schema.isAbstract type then [Schema.typenameField] else []) ++ config.identityKeys type
  else []

theorem reserveAll_reserved {type : String} {opening : Position} {items : List Selection}
    (silent : (reserveAll config type opening items).faults = []) :
    Reserved opening (reservedNames config type) items (reserveAll config type opening items).items := by
  unfold reserveAll at silent ⊢
  unfold reservedNames
  split
  · rename_i needed
    rw [if_pos needed] at silent
    refine Reserved.foldl (fun key items silent => ?_) (fun silent => ?_) silent
    · unfold reserveKey at silent ⊢
      split
      · rename_i isKey
        rw [if_pos isKey] at silent
        exact .ensurePlain silent
      · rename_i other
        rw [if_neg other] at silent
        cases silent
    · split
      · rename_i abstract
        rw [if_pos abstract] at silent
        exact .ensurePlain silent
      · exact .nil items
  · exact .nil items

/-! ## Selection sets -/

end IdentityCompletion

/-- The selection sets below a selection that are made on a type of their own: those of declared
fields, and those of inline fragments on another type. -/
inductive Selection.Opens (schema : Schema) :
    String → Selection → List Level → String → SelectionSet → Prop where
  | field {parent : String} {head : Field} {items : List Selection} {declared : FieldDef} :
      schema.field? parent head.name = some (.declared declared) → items ≠ [] →
      Selection.Opens schema parent (.field head items) [⟨parent, head⟩] declared.type.base
        ⟨head.opening, items⟩
  | inside {parent type : String} {head : Field} {items : List Selection} {inner : Selection}
      {declared : FieldDef} {above : List Level} {opened : SelectionSet} :
      schema.field? parent head.name = some (.declared declared) → inner ∈ items →
      Selection.Opens schema declared.type.base inner above type opened →
      Selection.Opens schema parent (.field head items) (⟨parent, head⟩ :: above) type opened
  | inline {parent : String} {head : InlineFragment} {items : List Selection} :
      head.typeWithin parent ≠ parent →
      Selection.Opens schema parent (.inline head items) [] (head.typeWithin parent)
        ⟨head.opening, items⟩
  | within {parent type : String} {head : InlineFragment} {items : List Selection}
      {inner : Selection} {above : List Level} {opened : SelectionSet} :
      inner ∈ items → Selection.Opens schema (head.typeWithin parent) inner above type opened →
      Selection.Opens schema parent (.inline head items) above type opened

/-- The selection sets that are made on a type of their own, with the fields above them. -/
def Opens (schema : Schema) (root : String) (selections : SelectionSet) (above : List Level)
    (type : String) (opened : SelectionSet) : Prop :=
  (above = [] ∧ type = root ∧ opened = selections) ∨
    ∃ item ∈ selections.items, item.Opens schema root above type opened

theorem opens_field_iff {schema : Schema} {parent type : String} {head : Field}
    {items : List Selection} {above : List Level} {opened : SelectionSet} :
    (Selection.field head items).Opens schema parent above type opened ↔
      ∃ declared rest, schema.field? parent head.name = some (.declared declared) ∧ items ≠ [] ∧
        above = ⟨parent, head⟩ :: rest ∧
        Opens schema declared.type.base ⟨head.opening, items⟩ rest type opened := by
  constructor
  · intro opens
    cases opens with
    | field resolved selected => exact ⟨_, [], resolved, selected, rfl, .inl ⟨rfl, rfl, rfl⟩⟩
    | inside resolved member inside =>
        exact ⟨_, _, resolved, List.ne_nil_of_mem member, rfl, .inr ⟨_, member, inside⟩⟩
  · rintro ⟨declared, rest, resolved, selected, rfl, ⟨rfl, rfl, rfl⟩ | ⟨inner, member, inside⟩⟩
    · exact .field resolved selected
    · exact .inside resolved member inside

theorem opens_inline_iff {schema : Schema} {parent type : String} {head : InlineFragment}
    {items : List Selection} {above : List Level} {opened : SelectionSet} :
    (Selection.inline head items).Opens schema parent above type opened ↔
      if head.typeWithin parent = parent then
        ∃ inner ∈ items, inner.Opens schema parent above type opened
      else Opens schema (head.typeWithin parent) ⟨head.opening, items⟩ above type opened := by
  constructor
  · intro opens
    cases opens with
    | inline other =>
        rw [if_neg other]
        exact .inl ⟨rfl, rfl, rfl⟩
    | within member inside =>
        split
        · rename_i same
          rw [same] at inside
          exact ⟨_, member, inside⟩
        · exact .inr ⟨_, member, inside⟩
  · intro opens
    split at opens
    · rename_i same
      obtain ⟨inner, member, inside⟩ := opens
      exact .within member (by rwa [same])
    · rename_i other
      rcases opens with ⟨rfl, rfl, rfl⟩ | ⟨inner, member, inside⟩
      · exact .inline other
      · exact .within member inside

namespace IdentityCompletion

variable {config : Config} {fragments : String → Option Fragment}

/-- A name that is reserved in a selection set and that no field right in it answers, as the field
that is added for it. -/
def Lacks (config : Config) (type : String) (opened : SelectionSet) (last : Level) : Prop :=
  ∃ name ∈ reservedNames config type, ¬ Answered name opened.items ∧
    last = ⟨type, .plain name opened.opening⟩

def SelectionAdds (config : Config) (parent : String) (selection : Selection) (above : List Level)
    (last : Level) : Prop :=
  ∃ type opened, selection.Opens config.schema parent above type opened ∧ Lacks config type opened last

/-- A field that is added to selections made on a type, or to a selection set below them. -/
def Adds (config : Config) (root : String) (selections : SelectionSet) (above : List Level)
    (last : Level) : Prop :=
  ∃ type opened, Opens config.schema root selections above type opened ∧ Lacks config type opened last

theorem adds_iff {root : String} {selections : SelectionSet} {above : List Level} {last : Level} :
    Adds config root selections above last ↔
      (above = [] ∧ Lacks config root selections last) ∨
      ∃ item ∈ selections.items, SelectionAdds config root item above last := by
  constructor
  · rintro ⟨type, opened, ⟨rfl, rfl, rfl⟩ | ⟨item, member, opens⟩, lacks⟩
    · exact .inl ⟨rfl, lacks⟩
    · exact .inr ⟨item, member, type, opened, opens, lacks⟩
  · rintro (⟨rfl, lacks⟩ | ⟨item, member, type, opened, opens, lacks⟩)
    · exact ⟨root, selections, .inl ⟨rfl, rfl, rfl⟩, lacks⟩
    · exact ⟨type, opened, .inr ⟨item, member, opens⟩, lacks⟩

theorem selectionAdds_field_iff {parent : String} {head : Field} {items : List Selection}
    {above : List Level} {last : Level} :
    SelectionAdds config parent (.field head items) above last ↔
      ∃ declared rest, config.schema.field? parent head.name = some (.declared declared) ∧
        items ≠ [] ∧ above = ⟨parent, head⟩ :: rest ∧
        Adds config declared.type.base ⟨head.opening, items⟩ rest last := by
  simp only [SelectionAdds, opens_field_iff, Adds]
  grind

theorem selectionAdds_inline_iff {parent : String} {head : InlineFragment} {items : List Selection}
    {above : List Level} {last : Level} :
    SelectionAdds config parent (.inline head items) above last ↔
      if head.typeWithin parent = parent then
        ∃ inner ∈ items, SelectionAdds config parent inner above last
      else Adds config (head.typeWithin parent) ⟨head.opening, items⟩ above last := by
  simp only [SelectionAdds, opens_inline_iff, Adds]
  split
  · grind
  · rfl

/-! ## Occurrences -/

theorem completeItems_items (config : Config) (parent : String) (items : List Selection) :
    (completeItems config parent items).items =
      items.map fun item => (completeSelection config parent item).1 := by
  induction items with
  | nil => rfl
  | cons item rest ih => simp [completeItems, Completed.cons, ih]

private theorem completeItems_faults (config : Config) (parent : String) (items : List Selection) :
    (completeItems config parent items).faults =
      items.flatMap fun item => (completeSelection config parent item).2.1 := by
  induction items with
  | nil => rfl
  | cons item rest ih => simp [completeItems, Completed.cons, ih]

theorem completeSelection_eq_field_iff {parent : String} {item : Selection} {head : Field} :
    (∃ below, (completeSelection config parent item).1 = .field head below) ↔
      ∃ below, item = .field head below := by
  cases item with
  | field other items =>
      rcases completeSelection_field_cases config parent other items with
        ⟨_, _, _, same⟩ | ⟨_, same⟩ <;> simp [same]
  | spread other => simp [completeSelection]
  | inline other items => simp [completeSelection_inline]

theorem answered_completeItems {name parent : String} {items : List Selection} :
    Answered name (completeItems config parent items).items ↔ Answered name items := by
  rw [completeItems_items]
  constructor
  · rintro ⟨head, below, member, answers⟩
    obtain ⟨item, inItems, same⟩ := List.mem_map.1 member
    obtain ⟨others, rfl⟩ := completeSelection_eq_field_iff.1 ⟨below, same⟩
    exact ⟨head, others, inItems, answers⟩
  · rintro ⟨head, below, member, answers⟩
    obtain ⟨others, same⟩ : ∃ others,
        (completeSelection config parent (.field head below)).1 = .field head others :=
      completeSelection_eq_field_iff.2 ⟨below, rfl⟩
    exact ⟨head, others, List.mem_map.2 ⟨_, member, same⟩, answers⟩

theorem occurs_plain_iff {schema : Schema} {parent name : String} {opening : Position}
    {above : List Level} {last : Level} :
    (Selection.field (.plain name opening) []).Occurs schema fragments parent above last ↔
      above = [] ∧ last = ⟨parent, .plain name opening⟩ := by
  simp [occurs_field_iff, Occurs]

theorem occurs_complete_iff {root : String} {selections : SelectionSet}
    (silent : (complete config root selections).faults = []) {above : List Level} {last : Level} :
    Occurs config.schema fragments root (complete config root selections).items above last ↔
      Occurs config.schema fragments root (completeItems config root selections.items).items above last ∨
        (above = [] ∧ Lacks config root selections last) := by
  have reserved := reserveAll_reserved (List.append_eq_nil_iff.1 silent).2
  constructor
  · rintro ⟨item, member, occurs⟩
    rcases (reserved.mem_iff item).1 member with known | ⟨name, inNames, unanswered, rfl⟩
    · exact .inl ⟨item, known, occurs⟩
    · rw [answered_completeItems] at unanswered
      rw [occurs_plain_iff] at occurs
      exact .inr ⟨occurs.1, name, inNames, unanswered, occurs.2⟩
  · rintro (⟨item, member, occurs⟩ | ⟨rfl, name, inNames, unanswered, rfl⟩)
    · exact ⟨item, (reserved.mem_iff item).2 (.inl member), occurs⟩
    · rw [← answered_completeItems] at unanswered
      exact ⟨_, (reserved.mem_iff _).2 (.inr ⟨name, inNames, unanswered, rfl⟩),
        occurs_plain_iff.2 ⟨rfl, rfl⟩⟩

/-- What occurs in a selection after its completion is what occurred before and what is added. -/
def AddsTo (config : Config) (fragments : String → Option Fragment) (parent : String)
    (selection : Selection) : Prop :=
  ∀ above last,
    (completeSelection config parent selection).1.Occurs config.schema fragments parent above last ↔
      selection.Occurs config.schema fragments parent above last ∨
        SelectionAdds config parent selection above last

theorem occurs_completeItems_of_forall {parent : String} {items : List Selection}
    (each : ∀ item ∈ items, AddsTo config fragments parent item) {above : List Level} {last : Level} :
    Occurs config.schema fragments parent (completeItems config parent items).items above last ↔
      Occurs config.schema fragments parent items above last ∨
        ∃ item ∈ items, SelectionAdds config parent item above last := by
  simp only [Occurs, completeItems_items, List.mem_map, exists_exists_and_eq_and, ← exists_or,
    ← and_or_left]
  exact exists_congr fun item => and_congr_right fun member => each item member above last

theorem occurs_complete_of_forall {root : String} {selections : SelectionSet}
    (each : ∀ item ∈ selections.items, AddsTo config fragments root item)
    (silent : (complete config root selections).faults = []) {above : List Level} {last : Level} :
    Occurs config.schema fragments root (complete config root selections).items above last ↔
      Occurs config.schema fragments root selections.items above last ∨
        Adds config root selections above last := by
  rw [occurs_complete_iff silent, occurs_completeItems_of_forall each, adds_iff]
  exact or_assoc.trans (or_congr_right or_comm)

theorem forall_of_completeItems_faults {parent : String} {items : List Selection}
    (silent : (completeItems config parent items).faults = []) :
    ∀ item ∈ items, (completeSelection config parent item).2.1 = [] := by
  rw [completeItems_faults] at silent
  exact List.flatMap_eq_nil_iff.1 silent

theorem addsTo_of_silent {parent : String} {selection : Selection}
    (silent : (completeSelection config parent selection).2.1 = []) :
    AddsTo config fragments parent selection := by
  induction selection generalizing parent with
  | field head items ih =>
      intro above last
      rw [selectionAdds_field_iff]
      rcases completeSelection_field_cases config parent head items with
        ⟨declared, resolved, selected, same⟩ | ⟨other, same⟩
      · rw [same] at silent ⊢
        have each := forall_of_completeItems_faults (List.append_eq_nil_iff.1 silent).1
        have inside (rest : List Level) :
            Occurs config.schema fragments declared.type.base
                (complete config declared.type.base ⟨head.opening, items⟩).items rest last ↔
              Occurs config.schema fragments declared.type.base items rest last ∨
                Adds config declared.type.base ⟨head.opening, items⟩ rest last :=
          occurs_complete_of_forall (fun item member => ih item member (each item member)) silent
        rw [occurs_field_iff, occurs_field_iff, or_assoc]
        refine or_congr_right ⟨?_, ?_⟩
        · rintro ⟨found, rest, foundHere, rfl, occurs⟩
          cases resolved.symm.trans foundHere
          exact ((inside rest).1 occurs).imp (fun before => ⟨_, rest, resolved, rfl, before⟩)
            fun adds => ⟨declared, rest, resolved, selected, rfl, adds⟩
        · rintro (⟨found, rest, foundHere, rfl, occurs⟩ | ⟨found, rest, foundHere, _, rfl, adds⟩)
          · cases resolved.symm.trans foundHere
            exact ⟨_, rest, resolved, rfl, (inside rest).2 (.inl occurs)⟩
          · cases resolved.symm.trans foundHere
            exact ⟨_, rest, resolved, rfl, (inside rest).2 (.inr adds)⟩
      · rw [same]
        refine (or_iff_left ?_).symm
        rintro ⟨declared, _, resolved, selected, _⟩
        exact selected (other declared resolved)
  | spread head =>
      intro above last
      refine (or_iff_left ?_).symm
      rintro ⟨type, opened, opens, _⟩
      cases opens
  | inline head items ih =>
      intro above last
      rw [completeSelection_inline] at silent ⊢
      simp only at silent ⊢
      rw [selectionAdds_inline_iff, occurs_inline_iff, occurs_inline_iff]
      split at silent
      · rename_i same
        rw [if_pos same, if_pos same, same]
        exact occurs_completeItems_of_forall fun item member =>
          ih item member (forall_of_completeItems_faults silent item member)
      · rename_i other
        rw [if_neg other, if_neg other]
        exact occurs_complete_of_forall (fun item member => ih item member
          (forall_of_completeItems_faults (List.append_eq_nil_iff.1 silent).1 item member)) silent

theorem occurs_complete {root : String} {selections : SelectionSet}
    (silent : (complete config root selections).faults = []) {above : List Level} {last : Level} :
    Occurs config.schema fragments root (complete config root selections).items above last ↔
      Occurs config.schema fragments root selections.items above last ∨
        Adds config root selections above last :=
  occurs_complete_of_forall (fun item member => addsTo_of_silent
    (forall_of_completeItems_faults (List.append_eq_nil_iff.1 silent).1 item member)) silent

end IdentityCompletion

end GraphqlStore
