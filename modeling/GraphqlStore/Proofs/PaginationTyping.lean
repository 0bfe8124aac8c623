import GraphqlStore.Proofs.Documents
import GraphqlStore.Proofs.Supplement

/-!
Pagination keeps typed selections. There is one paginated field at most, and
what the plan selects below it is declared by the type of that field. Nothing
but plain fields is added.
-/

set_option autoImplicit false

namespace GraphqlStore

namespace PaginationCompletion

/-! ## Changes -/

private theorem Plan.apply_truthful (plan : Plan) (opening : Position) (items : List Selection) :
    (plan.apply opening items).Truthful items := by
  refine (ensureField_truthful report "pageInfo" (ensureAll_truthful report plan.pageInfo) opening
    items).andThen fun rest => ?_
  split
  · exact ensureField_truthful report "edges" (ensureAll_truthful report ["cursor"]) opening rest
  · exact Completed.truthful_keep rest

private theorem Plan.applyTo_truthful (plan : Plan) (head : Field) (items : List Selection) :
    (plan.applyTo head items).Truthful items := by
  unfold Plan.applyTo
  split
  · exact plan.apply_truthful head.opening items
  · exact Completed.truthful_keep items

theorem completeFields_truthful (plan : Plan) (items : List Selection) :
    (completeFields plan items).Truthful items := by
  fun_induction completeFields plan items with
  | case1 => exact Completed.truthful_keep []
  | case2 head items rest applied below ihBelow ihRest =>
      intro unchanged
      simp only [Completed.cons, Bool.or_eq_false_iff] at unchanged ⊢
      rw [ihRest unchanged.2, ihBelow unchanged.1.2,
        plan.applyTo_truthful head items unchanged.1.1]
  | case3 head rest ih =>
      intro unchanged
      simp only [Completed.cons, Bool.false_or] at unchanged ⊢
      rw [ih unchanged]
  | case4 head items rest below ihBelow ihRest =>
      intro unchanged
      simp only [Completed.cons, Bool.or_eq_false_iff] at unchanged ⊢
      rw [ihRest unchanged.2, ihBelow unchanged.1]

/-! ## What is added -/

/-- The fields that pagination may add, whatever type they are selected on. -/
def Supplied (_ name : String) : Prop :=
  name ∈ ["pageInfo", "edges", "cursor"] ∨ name ∈ Pagination.pageInfoFields

variable {schema : Schema} {plan : Plan}

private theorem Plan.apply_supplements
    (planned : ∀ name ∈ plan.pageInfo, name ∈ Pagination.pageInfoFields)
    (parent : String) (opening : Position) (items : List Selection) :
    Supplemented schema Supplied parent items (plan.apply opening items).items := by
  have pageInfo : Supplemented schema Supplied parent items
      (ensureField report "pageInfo" (ensureAll report plan.pageInfo) opening items).items :=
    ensureField_supplements report (.inl (by decide))
      (ensureAll_supplements report fun name member => .inr (planned name member)) opening items
  refine pageInfo.trans ?_
  simp only [apply, Completed.andThen]
  split
  · refine ensureField_supplements report (.inl (by decide))
      (ensureAll_supplements report fun name member => .inl ?_) opening _
    rw [List.mem_singleton.1 member]
    decide
  · exact .refl parent _

private theorem Plan.applyTo_supplements
    (planned : ∀ name ∈ plan.pageInfo, name ∈ Pagination.pageInfoFields)
    (parent : String) (head : Field) (items : List Selection) :
    Supplemented schema Supplied parent items (plan.applyTo head items).items := by
  unfold applyTo
  split
  · exact apply_supplements planned parent head.opening items
  · exact .refl parent items

private theorem completeFields_supplements
    (planned : ∀ name ∈ plan.pageInfo, name ∈ Pagination.pageInfoFields)
    (parent : String) (items : List Selection) :
    Supplemented schema Supplied parent items (completeFields plan items).items := by
  fun_induction completeFields plan items generalizing parent with
  | case1 => exact .nil
  | case2 head items rest applied below ihBelow ihRest =>
      exact .field ((plan.applyTo_supplements planned _ head items).trans (ihBelow _)) (ihRest parent)
  | case3 head rest ih => exact .spread (ih parent)
  | case4 head items rest below ihBelow ihRest => exact .inline (ihBelow _) (ihRest parent)

/-! ## Plans -/

variable {allowed : String → Prop} {β : Type} {view : SelectionView schema β}

theorem field?_declared {type name : String} {found : TypeDef} {field : FieldDef}
    (present : schema.type? type = some found) (declared : found.field? name = some field)
    (other : name ≠ Schema.typenameField) : schema.field? type name = some (.declared field) :=
  Schema.field?_eq_some_iff.2 (.inr ⟨other, found, field, present, declared, rfl⟩)

private theorem isComposite_of_fieldType? {type field name : String} {target : TypeDef}
    (found : Pagination.fieldType? schema type field = some target)
    (declared : (target.field? name).isSome) :
    ∃ source declaredField, schema.type? type = some source ∧
      source.field? field = some declaredField ∧
      schema.type? declaredField.type.base = some target ∧
      schema.isComposite declaredField.type.base = true := by
  obtain ⟨declaredField, resolved, present⟩ := Option.bind_eq_some_iff.1 found
  obtain ⟨source, typePresent, fieldPresent⟩ := Option.bind_eq_some_iff.1 resolved
  exact ⟨source, declaredField, typePresent, fieldPresent, present,
    Schema.isComposite_of_field? present declared⟩

private theorem pageInfo_keepsTyped {target : String} {field : FieldDef} {type : TypeDef}
    (present : schema.type? target = some type) (declared : type.field? "pageInfo" = some field) :
    KeepsTyped allowed view field.type.base
      (ensureAll report (Plan.ofConnection schema target).pageInfo) := by
  have planned : ∀ name ∈ (Plan.ofConnection schema target).pageInfo, ∃ pageInfo,
      schema.type? field.type.base = some pageInfo ∧ (pageInfo.field? name).isSome ∧
        name ∈ Pagination.pageInfoFields := by
    intro name member
    cases found : schema.type? field.type.base with
    | none => simp [Plan.ofConnection, Pagination.fieldType?, present, declared, found] at member
    | some pageInfo =>
        simp only [Plan.ofConnection, Pagination.fieldType?, present, declared, found,
          Option.bind_some, List.mem_filter] at member
        exact ⟨pageInfo, rfl, member.2, member.1⟩
  refine ensureAll_keepsTyped report (fun name member => ?_) fun some => ?_
  · obtain ⟨pageInfo, found, declares, known⟩ := planned name member
    obtain ⟨subfield, subfieldDeclared⟩ := Option.isSome_iff_exists.1 declares
    refine ⟨_, field?_declared found subfieldDeclared ?_⟩
    rintro rfl
    revert known
    decide
  · obtain ⟨name, member⟩ := List.exists_mem_of_ne_nil _ some
    obtain ⟨pageInfo, found, declares, _⟩ := planned name member
    exact Schema.isComposite_of_field? found declares

private theorem edges_keepsTyped {target : String}
    (cursor : (Plan.ofConnection schema target).edgeCursor = true) :
    ∃ field, schema.field? target "edges" = some (.declared field) ∧
      KeepsTyped allowed view field.type.base (ensureAll report ["cursor"]) := by
  obtain ⟨edge, found, declares⟩ := (Option.any_eq_true _ _).1 cursor
  obtain ⟨source, field, present, declared, edgePresent, composite⟩ :=
    isComposite_of_fieldType? found declares
  refine ⟨field, field?_declared present declared (by decide), ?_⟩
  refine ensureAll_keepsTyped report (fun name member => ?_) fun _ => composite
  obtain ⟨subfield, subfieldDeclared⟩ := Option.isSome_iff_exists.1 declares
  rw [List.mem_singleton.1 member]
  exact ⟨_, field?_declared edgePresent subfieldDeclared (by decide)⟩

private theorem Plan.apply_keepsTyped {target : String}
    (connection : Pagination.isConnection schema target = true) :
    KeepsTyped allowed view target (Plan.ofConnection schema target).apply := by
  rw [Pagination.isConnection, Bool.and_eq_true] at connection
  obtain ⟨type, present, declares⟩ := (Option.any_eq_true _ _).1 connection.2
  obtain ⟨field, declared⟩ := Option.isSome_iff_exists.1 declares
  have pageInfo : schema.field? target "pageInfo" = some (.declared field) :=
    field?_declared present declared (by decide)
  refine ⟨fun opening items typed => ?_, fun _ _ => Schema.isComposite_of_field? present declares⟩
  have first : Keeps allowed view target items _ :=
    ensureField_keeps report pageInfo (pageInfo_keepsTyped present declared) opening typed
  refine first.trans ?_
  simp only [Plan.apply, Completed.andThen]
  by_cases cursor : (Plan.ofConnection schema target).edgeCursor = true
  · obtain ⟨edges, resolved, keeps⟩ := edges_keepsTyped cursor
    simp only [cursor, if_true]
    exact ensureField_keeps report resolved keeps opening first.typed
  · simp only [cursor, Bool.false_eq_true, if_false]
    exact .refl first.typed

/-! ## Completion -/

theorem completeFields_of_count_eq_zero (plan : Plan) {items : List Selection}
    (none : count items = 0) : completeFields plan items = .keep items := by
  fun_induction completeFields plan items with
  | case1 => rfl
  | case2 head items rest applied below ihBelow ihRest =>
      simp only [count, selectionCount, Nat.add_eq_zero_iff] at none
      obtain ⟨⟨unmarked, inner⟩, others⟩ := none
      have kept : applied = .keep items := by
        by_cases marked : head.isPaginated = true
        · simp [marked] at unmarked
        · simp [applied, Plan.applyTo, marked]
      have same : below = .keep items := by
        rw [kept] at ihBelow
        simpa [below, kept, Completed.keep] using ihBelow inner
      rw [ihRest others, same, kept]
      rfl
  | case3 head rest ih =>
      rw [ih (by simpa [count, selectionCount] using none)]
      rfl
  | case4 head items rest below ihBelow ihRest =>
      simp only [count, selectionCount, Nat.add_eq_zero_iff] at none
      have same : below = .keep items := ihBelow none.1
      rw [ihRest none.2, same]
      rfl

theorem length_filterMap_paginated_cons (parent : String) (head : Field) (items : List Selection)
    (found : Option FieldRef) (path : List String) (rest : List Visit) :
    ((Visit.field parent head items found path :: rest).filterMap paginated?).length =
      (if head.isPaginated then 1 else 0) + (rest.filterMap paginated?).length := by
  rw [List.filterMap_cons]
  by_cases marked : head.isPaginated = true
  · simp [paginated?, marked, Nat.add_comm]
  · simp [paginated?, marked]

private theorem length_paginated_of_forall {parent : String} {path : List String}
    {items : List Selection}
    (each : ∀ item ∈ items, ((item.visits schema parent path).filterMap paginated?).length =
      selectionCount item) :
    ((visits schema parent path items).filterMap paginated?).length = count items := by
  induction items with
  | nil => rfl
  | cons item rest ih =>
      rw [List.forall_mem_cons] at each
      rw [visits, List.filterMap_append, List.length_append, each.1, ih each.2, count]

private theorem length_paginated (text : schema.isComposite "String" = false) {parent : String}
    (path : List String) (known : (schema.type? parent).isSome) {selection : Selection}
    (typed : selection.Typed schema allowed parent) :
    ((selection.visits schema parent path).filterMap paginated?).length = selectionCount selection := by
  refine Typed.walkInduction text (fun _ _ below walked => ?field) (fun _ => ?spread)
    (fun within walked => ?inline) path known typed
  case field =>
    rw [walked, length_filterMap_paginated_cons, length_paginated_of_forall below, selectionCount]
  case spread => rfl
  case inline =>
    rw [walked, List.filterMap_cons_none rfl, length_paginated_of_forall within, selectionCount]

private theorem eq_declared_of_match {found : FieldRef} {field : FieldDef}
    (same : (match some found with
      | some (.declared declared) => some declared
      | _ => none) = some field) : found = .declared field := by
  cases found with
  | declared declared => exact congrArg _ (Option.some.inj same)
  | typename => cases same

private theorem completeFields_applyTo_keeps {plan : Plan} {head : Field}
    (marked : head.isPaginated = true)
    {type : String} (keeps : KeepsTyped allowed view type plan.apply) {items : List Selection}
    (typed : Typed schema allowed type items) (selected : items ≠ [] → schema.isComposite type = true)
    (none : count items = 0) :
    Keeps allowed view type items (completeFields plan (plan.applyTo head items).items).items ∧
      ((completeFields plan (plan.applyTo head items).items).items ≠ [] →
        schema.isComposite type = true) := by
  have applies : plan.applyTo head items = plan.apply head.opening items := if_pos marked
  have stays : (completeFields plan (plan.applyTo head items).items).items =
      (plan.apply head.opening items).items := by
    rw [applies, completeFields_of_count_eq_zero plan ((plan.apply_adds.count _ _).trans none)]
    rfl
  rw [stays]
  exact ⟨keeps.keeps head.opening items typed, keeps.composite head.opening selected⟩

private theorem completeFields_keeps (text : schema.isComposite "String" = false) (plan : Plan)
    {parent : String} (path : List String) (known : (schema.type? parent).isSome)
    {items : List Selection} (typed : Typed schema allowed parent items) (single : count items ≤ 1)
    (suits : ∀ visit ∈ visits schema parent path items, ∀ head declared,
      paginated? visit = some (head, declared) →
      ∃ field, declared = some field ∧ KeepsTyped allowed view field.type.base plan.apply) :
    Keeps allowed view parent items (completeFields plan items).items := by
  fun_induction completeFields plan items generalizing parent path with
  | case1 => exact .refl typed
  | case2 =>
      rename_i head items rest applied below ihBelow ihRest
      obtain ⟨typedField, typedRest⟩ := typed_cons.1 typed
      simp only [count, selectionCount] at single
      simp only [visits, List.mem_append] at suits
      have others := ihRest path known typedRest (by omega) fun visit later => suits visit (.inr later)
      cases typedField with
      | @field _ _ _ found resolved arguments selected inside =>
          have kept : Keeps allowed view found.typeName items below.items ∧
              (below.items ≠ [] → schema.isComposite found.typeName = true) := by
            by_cases marked : head.isPaginated = true
            · obtain ⟨field, same, keeps⟩ := suits _ (.inl List.mem_cons_self) head _ (if_pos marked)
              rw [resolved] at same
              obtain rfl := eq_declared_of_match same
              rw [if_pos marked] at single
              exact completeFields_applyTo_keeps marked keeps inside selected (by omega)
            · have applies : applied = .keep items := if_neg marked
              have stays : below = completeFields plan items := by
                simp only [below, applies, Completed.keep]
              rw [stays]
              by_cases empty : items = []
              · rw [empty] at inside ⊢
                rw [completeFields]
                exact ⟨.refl inside, absurd rfl⟩
              · obtain ⟨⟨field, rfl⟩, knownBelow⟩ := declared_of_isComposite text (selected empty)
                refine ⟨?_, fun _ => selected empty⟩
                have inner := ihBelow (path ++ [head.responseName]) knownBelow
                rw [applies] at inner
                refine inner inside (show count items ≤ 1 by omega) fun visit later => ?_
                refine suits visit (.inl ?_)
                simp only [Selection.visits, resolved]
                exact List.mem_cons_of_mem _ later
          refine .cons (.field resolved arguments kept.2 kept.1.typed) ?_ others
          exact view.field resolved kept.1.same
  | case3 head rest ih =>
      obtain ⟨typedSpread, typedRest⟩ := typed_cons.1 typed
      simp only [count, selectionCount, Nat.zero_add] at single
      simp only [visits, List.mem_append] at suits
      exact .cons typedSpread rfl
        (ih path known typedRest single fun visit later => suits visit (.inr later))
  | case4 =>
      rename_i head items rest below ihBelow ihRest
      obtain ⟨typedInline, typedRest⟩ := typed_cons.1 typed
      simp only [count, selectionCount] at single
      simp only [visits, List.mem_append] at suits
      have others := ihRest path known typedRest (by omega) fun visit later => suits visit (.inr later)
      cases typedInline with
      | inline composite inside =>
          have knownWithin := Schema.type?_typeWithin_isSome known composite
          have kept := ihBelow path knownWithin inside (by omega) fun visit later =>
            suits visit (.inl (by
              rw [Selection.visits, if_pos knownWithin]
              exact List.mem_cons_of_mem _ later))
          exact .cons (.inline composite kept.typed) (view.inline kept.same) others

/-! ## Documents -/

variable {config : Config} {document : Document} {definition : Definition}

private theorem checkField_plan {head : Field} {field : FieldDef} {plan : Plan}
    (planned : (checkField config document head field).2 = some plan) :
    Pagination.isConnection config.schema field.type.base = true ∧
      plan = .ofConnection config.schema field.type.base := by
  unfold checkField at planned
  split at planned
  · cases planned
  · simp only at planned
    split at planned
    · split at planned
      · rename_i connection
        exact ⟨connection, (Option.some.inj planned).symm⟩
      · cases planned
    · cases planned

private theorem checkFirst_plan {head : Field} {declared : Option FieldDef} {plan : Plan}
    (planned : (checkFirst config document head declared).2 = some plan) :
    ∃ field, declared = some field ∧
      Pagination.isConnection config.schema field.type.base = true ∧
      plan = .ofConnection config.schema field.type.base := by
  unfold checkFirst at planned
  split at planned
  · cases planned
  · cases planned
  · cases planned
  · exact ⟨_, rfl, checkField_plan planned⟩

private theorem planned_of_check {config : Config} {document : Document}
    (planned : (check config document).2 = some plan) :
    ∀ name ∈ plan.pageInfo, name ∈ Pagination.pageInfoFields := by
  unfold check at planned
  split at planned
  · cases planned
  · obtain ⟨field, _, _, rfl⟩ := checkFirst_plan planned
    intro name member
    simp only [Plan.ofConnection] at member
    split at member
    · exact (List.mem_filter.1 member).1
    · cases member

/-- The paginated fields that the walk through a document meets, with their declarations. -/
def met (config : Config) (document : Document) : List (Field × Option FieldDef) :=
  ((document.visits? config.schema).getD []).filterMap paginated?

theorem met_of_check (sound : (check config document).1 = []) :
    (met config document = [] ∧ (check config document).2 = none) ∨
      ∃ head declared, met config document = [(head, declared)] ∧
      (checkFirst config document head declared).1 = [] ∧
      (check config document).2 = (checkFirst config document head declared).2 := by
  have same : met config document =
    ((document.visits? config.schema).getD []).filterMap paginated? := rfl
  unfold check at sound ⊢
  rw [← same] at sound ⊢
  match entries : met config document with
  | [] => exact .inl ⟨rfl, rfl⟩
  | [(head, declared)] =>
      rw [entries] at sound
      simp only [List.nil_append, List.map_eq_nil_iff] at sound
      exact .inr ⟨head, declared, rfl, sound, rfl⟩
  | (head, declared) :: (second, other) :: rest =>
      rw [entries] at sound
      simp at sound

def completedItems (config : Config) (document : Document) (items : List Selection) : List Selection :=
  match (check config document).2 with
  | none => items
  | some plan => (completeFields plan items).items

theorem completedItems_supplements (config : Config) (document : Document) (parent : String)
    (items : List Selection) :
    Supplemented config.schema Supplied parent items (completedItems config document items) := by
  unfold completedItems
  split
  · exact .refl parent items
  · rename_i plan planned
    exact completeFields_supplements (planned_of_check planned) parent items

theorem spreadNames_completedItems (config : Config) (document : Document) (items : List Selection) :
    spreadNames (completedItems config document items) = spreadNames items :=
  (completedItems_supplements config document config.schema.query items).spreadNames_eq

theorem name_step (config : Config) (document : Document) :
    (step config document).1.name = document.name := by
  unfold step
  split
  · rfl
  · exact Document.name_revise _ _

theorem step_defines (config : Config) (defines : document.Defines definition) :
    (step config document).1.Defines
      (definition.withItems (completedItems config document definition.selections.items)) := by
  unfold step completedItems
  cases checked : check config document with
  | mk faults plan =>
      cases plan with
      | none =>
          simp only [Definition.withItems_self]
          exact defines
      | some plan =>
          exact (defines.complete (fun selections => completeFields plan selections.items)
            (completeFields_truthful plan _)).1

theorem check_of_step (sound : (step config document).2 = []) : (check config document).1 = [] := by
  unfold step at sound
  split at sound
  · rename_i checked
    rw [checked]
    exact List.map_eq_nil_iff.1 sound
  · rename_i checked
    rw [checked]
    exact (List.append_eq_nil_iff.1 (List.map_eq_nil_iff.1 sound)).1

theorem completedItems_keeps {view : SelectionView config.schema β}
    (text : config.schema.isComposite "String" = false) (defines : document.Defines definition)
    {root : String} (rooted : document.rootType? config.schema = some root)
    (known : (config.schema.type? root).isSome)
    (typed : Typed config.schema allowed root definition.selections.items)
    (sound : (check config document).1 = []) :
    Keeps allowed view root definition.selections.items
      (completedItems config document definition.selections.items) := by
  unfold completedItems
  cases planned : (check config document).2 with
  | none => exact .refl typed
  | some plan =>
      have walked : met config document =
          (visits config.schema root [] definition.selections.items).filterMap paginated? := by
        rw [met, defines.visits?_eq rooted]
        rfl
      have counted : (met config document).length = count definition.selections.items := by
        rw [walked]
        exact length_paginated_of_forall fun item member =>
          length_paginated text [] known (typed item member)
      rcases met_of_check sound with ⟨_, unplanned⟩ | ⟨first, field, only, _, samePlan⟩
      · rw [unplanned] at planned
        cases planned
      · refine completeFields_keeps text plan [] known typed ?_
          fun visit member head declared marked => ?_
        · rw [← counted, only]
          exact Nat.le_refl 1
        · have entry : (head, declared) ∈ met config document := by
            rw [walked]
            exact List.mem_filterMap.2 ⟨visit, member, marked⟩
          rw [only, List.mem_singleton] at entry
          obtain ⟨rfl, rfl⟩ := Prod.mk.inj entry
          obtain ⟨found, same, connection, rfl⟩ := checkFirst_plan (samePlan.symm.trans planned)
          exact ⟨found, same, Plan.apply_keepsTyped connection⟩

end PaginationCompletion

end GraphqlStore
