import GraphqlStore.Proofs.AcceptedRun
import GraphqlStore.Proofs.AppendOnly
import GraphqlStore.Proofs.InlinedScope

/-!
A pass that rewrites documents leaves them alone the second time and reports
the same. A completion is not undone by what other completions append, so each
of them finds its fields again; and if no fragment leads back to itself, the
only spreads that inlining leaves are those that it would leave again.
-/

set_option autoImplicit false

namespace GraphqlStore

/-! ## Completers -/

/-- A completion that was made before: it reports the same and changes nothing. -/
def Completed.settled (done : Completed) : Completed := ⟨done.items, done.faults, false⟩

/-- Completers that only append, find again what they have appended, and do so whatever is appended
by others. -/
structure Steady (branching : List String) (completer : Completer) : Prop where
  appends : Appends branching completer
  truthful : ∀ opening items, (completer opening items).Truthful items
  persists : ∀ opening {items others : List Selection}, Extended branching items items others →
    (completer opening items).changed = false →
    completer opening others = ⟨others, (completer opening items).faults, false⟩
  settles : ∀ opening items,
    completer opening (completer opening items).items = (completer opening items).settled

namespace Steady

variable {branching : List String} {first next : Completer}

theorem keep : Steady branching fun _ items => .keep items :=
  ⟨.keep, fun _ => Completed.truthful_keep, fun _ _ _ _ _ => rfl, fun _ _ => rfl⟩

theorem settles_of_extended (steady : Steady branching first) (opening : Position)
    {items others : List Selection}
    (extended : Extended branching (first opening items).items (first opening items).items others) :
    first opening others = ⟨others, (first opening items).faults, false⟩ := by
  have again := steady.settles opening items
  have persists := steady.persists opening extended
  rw [again] at persists
  exact persists rfl

theorem andThen (steady : Steady branching first) (steadyNext : Steady branching next) :
    Steady branching fun opening items => (first opening items).andThen (next opening) where
  appends := steady.appends.andThen steadyNext.appends
  truthful opening items := (steady.truthful opening items).andThen (steadyNext.truthful opening)
  persists := by
    intro opening items others extended unchanged
    simp only [Completed.andThen, Bool.or_eq_false_iff] at unchanged ⊢
    have same := steady.truthful opening items unchanged.1
    rw [same] at unchanged ⊢
    rw [steady.persists opening extended unchanged.1]
    simp only [steadyNext.persists opening extended unchanged.2, Bool.or_self]
  settles := by
    intro opening items
    have extended := steadyNext.appends opening _ _ (.refl (first opening items).items _)
    simp only [Completed.andThen, Completed.settled, steady.settles_of_extended opening extended]
    rw [steadyNext.settles]
    rfl

end Steady

/-! ## Selecting a field -/

section Fields

variable {branching : List String} {name : String} {below : Completer}

/-- A field is still there in what extends the selections around it, and nothing before it is
selected under another name. -/
theorem Extended.split_field {whole before inner after others : List Selection} {head : Field}
    (extended : Extended branching whole (before ++ .field head inner :: after) others) (name : String) :
    ∃ start further rest, others = start ++ .field head further :: rest ∧
      Extended branching inner inner further ∧ (Answered name start → Answered name before) := by
  induction before generalizing others with
  | nil =>
      cases extended with
      | field inner _ => exact ⟨[], _, _, rfl, inner, id⟩
  | cons selection before ih =>
      cases extended with
      | field _ extendedRest =>
          obtain ⟨start, further, rest, rfl, inner, answered⟩ := ih extendedRest
          refine ⟨_ :: start, further, rest, rfl, inner, fun found => ?_⟩
          rw [answered_cons] at found ⊢
          refine found.imp (fun first => ?_) answered
          simpa [Answered] using first
      | spread extendedRest =>
          obtain ⟨start, further, rest, rfl, inner, answered⟩ := ih extendedRest
          refine ⟨_ :: start, further, rest, rfl, inner, fun found => ?_⟩
          rw [answered_cons] at found ⊢
          exact found.imp_right answered
      | inline _ extendedRest =>
          obtain ⟨start, further, rest, rfl, inner, answered⟩ := ih extendedRest
          refine ⟨_ :: start, further, rest, rfl, inner, fun found => ?_⟩
          rw [answered_cons] at found ⊢
          refine found.imp (fun first => ?_) answered
          simp [Answered] at first

private theorem ensureField_of_taking? (report : String → Field → Fault) {items : List Selection}
    {other : Field} (taken : taking? name items = some other) (opening : Position) :
    ensureField report name below opening items = ⟨items, [report name other], false⟩ := by
  rw [ensureField, taken]

private theorem ensureField_append_field (report : String → Field → Fault)
    {before inner after : List Selection}
    {head : Field} (free : taking? name (before ++ .field head inner :: after) = none)
    (unanswered : ¬ Answered name before) (answers : head.answers name = true) (opening : Position) :
    ensureField report name below opening (before ++ .field head inner :: after) =
      ⟨before ++ .field head (below head.opening inner).items :: after,
        (below head.opening inner).faults, (below head.opening inner).changed⟩ := by
  rw [ensureField, free, completeFirst?_append_field unanswered answers]

private theorem ensureField_steady (report : String → Field → Fault)
    (steady : Steady branching below) (adds : AddsBare below)
    (branches : ∀ opening items, (below opening items).items = items ∨ name ∈ branching) :
    Steady branching (ensureField report name below) := by
  have appends := ensureField_appends report steady.appends adds branches
  refine ⟨appends, ensureField_truthful report name steady.truthful, ?persists, ?settles⟩
  case persists =>
    intro opening items others extended unchanged
    have taking := extended.taking?_eq name
    rcases ensureField_cases report name below opening items with
      ⟨other, taken, same⟩ | ⟨free, before, head, inner, after, rfl, unanswered, answers, same⟩ |
        ⟨_, _, same⟩
    · rw [same, ensureField_of_taking? report (taking.trans taken)]
    · rw [same] at unchanged ⊢
      obtain ⟨start, further, rest, rfl, extendedInner, answered⟩ := extended.split_field name
      rw [ensureField_append_field report (taking.trans free) (fun found => unanswered (answered found))
        answers, steady.persists head.opening extendedInner unchanged]
    · rw [same] at unchanged
      cases unchanged
  case settles =>
    intro opening items
    have taking := (appends opening items items (.refl items items)).taking?_eq name
    rcases ensureField_cases report name below opening items with
      ⟨other, taken, same⟩ | ⟨free, before, head, inner, after, rfl, unanswered, answers, same⟩ |
        ⟨free, unanswered, same⟩
    · rw [same]
      exact same
    · rw [same] at taking ⊢
      rw [ensureField_append_field report (taking.trans free) unanswered answers, steady.settles]
      rfl
    · rw [same] at taking ⊢
      rw [ensureField_append_field report (taking.trans free) unanswered (Field.answers_plain name opening)]
      have opens : (Field.plain name opening).opening = opening := rfl
      rw [opens, steady.settles]
      rfl

private theorem ensurePlain_steady (report : String → Field → Fault) (name : String) :
    Steady branching (ensurePlain report name) :=
  ensureField_steady report .keep .keep fun _ _ => .inl rfl

private theorem ensureAll_steady (report : String → Field → Fault) (names : List String) :
    Steady branching (ensureAll report names) :=
  foldl_of_andThen Steady.andThen (fun name _ => ensurePlain_steady report name) .keep

end Fields

theorem Extended.ne_nil {branching : List String} {whole items others : List Selection}
    (extended : Extended branching whole items others) (some : items ≠ []) : others ≠ [] := by
  intro empty
  subst empty
  cases extended
  exact some rfl

/-! ## Pagination -/

namespace PaginationCompletion

private theorem Plan.apply_steady (plan : Plan) : Steady branching plan.apply := by
  have below {name : String} (branches : name ∈ branching) (names : List String) :
      Steady branching (ensureField report name (ensureAll report names)) :=
    ensureField_steady report (ensureAll_steady report names) (ensureAll_addsBare report names)
      fun _ _ => .inr branches
  refine (below (by decide) plan.pageInfo).andThen ?_
  split
  · exact below (by decide) ["cursor"]
  · exact .keep

private theorem Plan.applyTo_settles (plan : Plan) (head : Field) {items others : List Selection}
    (extended : Extended branching (plan.applyTo head items).items (plan.applyTo head items).items
      others) :
    plan.applyTo head others = ⟨others, (plan.applyTo head items).faults, false⟩ := by
  unfold applyTo at extended ⊢
  split
  · rename_i marked
    rw [if_pos marked] at extended
    exact plan.apply_steady.settles_of_extended head.opening extended
  · rfl

private theorem completeFields_settles (plan : Plan) (items : List Selection) :
    completeFields plan (completeFields plan items).items = (completeFields plan items).settled := by
  fun_induction completeFields plan items with
  | case1 => rw [Completed.keep, completeFields]; rfl
  | case2 head items rest applied below ihBelow ihRest =>
      have again : completeFields plan below.items = below.settled := ihBelow
      have extended := completeFields_extends plan (.refl applied.items applied.items)
      have applies : plan.applyTo head below.items = ⟨below.items, applied.faults, false⟩ :=
        plan.applyTo_settles head extended
      simp only [Completed.cons, completeFields, applies, again, ihRest]
      rfl
  | case3 head rest ih =>
      simp only [Completed.cons, completeFields, ih]
      rfl
  | case4 head items rest below ihBelow ihRest =>
      have again : completeFields plan below.items = below.settled := ihBelow
      simp only [Completed.cons, completeFields, again, ihRest]
      rfl

/-! The paginated fields that a walk meets, which decide what is checked and planned. -/

variable {schema : Schema} {parent : String} {path : List String} {items others : List Selection}

private theorem filterMap_paginated_plain (name : String) (position : Position)
    (silent : ∀ parent path, (visits schema parent path items).filterMap paginated? = []) :
    ((Selection.field (Field.plain name position) items).visits schema parent path).filterMap
      paginated? = [] := by
  have unmarked (found : Option FieldRef) (path : List String) :
      paginated? (.field parent (Field.plain name position) items found path) = none := rfl
  rw [Selection.visits, List.filterMap_cons_none (unmarked _ _)]
  split
  · exact silent _ _
  · rfl

private theorem filterMap_paginated_of_forall
    (silent : ∀ item ∈ items, (item.visits schema parent path).filterMap paginated? = []) :
    (visits schema parent path items).filterMap paginated? = [] := by
  rw [visits_eq, List.filterMap_flatMap, List.flatMap_eq_nil_iff]
  exact silent

private theorem filterMap_paginated_appended {branching : List String} {whole : List Selection}
    {item : Selection} (suits : AppendedTo branching whole item) :
    (item.visits schema parent path).filterMap paginated? = [] := by
  obtain ⟨_, _, bare⟩ := suits
  refine filterMap_paginated_plain _ _ fun parent path => filterMap_paginated_of_forall ?_
  intro inner member
  obtain ⟨name, position, rfl⟩ := bare inner member
  exact filterMap_paginated_plain name position fun _ _ => rfl

private theorem filterMap_paginated_eq {branching : List String} {whole : List Selection}
    (extended : Extended branching whole items others) :
    (visits schema parent path others).filterMap paginated? =
      (visits schema parent path items).filterMap paginated? := by
  induction extended generalizing parent path with
  | appended suits =>
      exact filterMap_paginated_of_forall fun item member => filterMap_paginated_appended (suits item member)
  | @field whole items others rest more head _ _ ihBelow ihRest =>
      have marks (found : Option FieldRef) (path : List String) :
          paginated? (.field parent head others found path) =
            paginated? (.field parent head items found path) := rfl
      simp only [visits, Selection.visits, List.filterMap_append, List.filterMap_cons, marks, ihRest]
      cases schema.field? parent head.name with
      | none => rfl
      | some found =>
          cases found with
          | declared field => simp only [ihBelow]
          | typename => rfl
  | spread _ ih => simp only [visits, Selection.visits, List.filterMap_append, ih]
  | @inline _ _ _ _ _ head _ _ ihWithin ihRest =>
      simp only [visits, Selection.visits, List.filterMap_append, List.filterMap_cons, ihRest]
      by_cases known : (schema.type? (head.typeWithin parent)).isSome = true
      · simp only [known, if_true, ihWithin]
      · simp only [known, Bool.false_eq_true, if_false]

end PaginationCompletion

/-! ## Identity -/

namespace IdentityCompletion

variable {config : Config} {branching : List String}

private theorem reserveKey_steady (schema : Schema) (type key : String) :
    Steady branching (reserveKey schema type key) := by
  unfold reserveKey
  split
  · exact ensurePlain_steady _ key
  · exact ⟨fun _ _ _ extended => extended, fun _ _ _ => rfl, fun _ _ _ _ _ => rfl, fun _ _ => rfl⟩

private theorem reserveAll_steady (config : Config) (type : String) :
    Steady branching (reserveAll config type) := by
  unfold reserveAll
  split
  · refine foldl_of_andThen Steady.andThen
      (fun key _ => reserveKey_steady config.schema type key) ?_
    split
    · exact ensurePlain_steady _ _
    · exact .keep
  · exact .keep

private theorem reserveKey_addsBare (schema : Schema) (type key : String) :
    AddsBare (reserveKey schema type key) := by
  unfold reserveKey
  split
  · exact ensurePlain_addsBare _ key
  · exact fun _ items => ⟨[], (List.append_nil items).symm, by simp⟩

private theorem reserveAll_addsBare (config : Config) (type : String) :
    AddsBare (reserveAll config type) := by
  unfold reserveAll
  split
  · refine foldl_of_andThen AddsBare.andThen
      (fun key _ => reserveKey_addsBare config.schema type key) ?_
    split
    · exact ensurePlain_addsBare _ _
    · exact .keep
  · exact .keep

theorem completeItems_append (parent : String) (first second : List Selection) :
    completeItems config parent (first ++ second) =
      ⟨(completeItems config parent first).items ++ (completeItems config parent second).items,
        (completeItems config parent first).faults ++ (completeItems config parent second).faults,
        (completeItems config parent first).changed || (completeItems config parent second).changed⟩ := by
  induction first with
  | nil => rfl
  | cons selection rest ih =>
      simp only [List.cons_append, completeItems, ih, Completed.cons, List.append_assoc, Bool.or_assoc]

private theorem completeItems_of_isBare (parent : String) {items : List Selection}
    (bare : ∀ item ∈ items, item.IsBare) : completeItems config parent items = .keep items := by
  induction items with
  | nil => rfl
  | cons item rest ih =>
      rw [List.forall_mem_cons] at bare
      obtain ⟨⟨name, position, rfl⟩, bareRest⟩ := bare
      rcases completeSelection_field_cases config parent (Field.plain name position) [] with
        ⟨_, _, some, _⟩ | ⟨_, same⟩
      · exact absurd rfl some
      · rw [completeItems, same, ih bareRest]
        rfl

private theorem completeItems_settles_of_forall {parent : String} {items : List Selection}
    (each : ∀ item ∈ items, completeSelection config parent (completeSelection config parent item).1 =
      ((completeSelection config parent item).1, (completeSelection config parent item).2.1, false)) :
    completeItems config parent (completeItems config parent items).items =
      (completeItems config parent items).settled := by
  induction items with
  | nil => rfl
  | cons item rest ih =>
      rw [List.forall_mem_cons] at each
      simp only [completeItems, Completed.cons, each.1, ih each.2]
      rfl

theorem complete_settles_of_completeItems {root : String} (opening : Position) {items : List Selection}
    (settles : completeItems config root (completeItems config root items).items =
      (completeItems config root items).settled) :
    complete config root ⟨opening, (complete config root ⟨opening, items⟩).items⟩ =
      (complete config root ⟨opening, items⟩).settled := by
  let inner := completeItems config root items
  let reserved := reserveAll config root opening inner.items
  obtain ⟨added, same, bare⟩ := reserveAll_addsBare config root opening inner.items
  have completed : completeItems config root reserved.items = ⟨reserved.items, inner.faults, false⟩ := by
    simp only [reserved, same, completeItems_append, settles, completeItems_of_isBare root bare, inner,
      Completed.settled, Completed.keep, List.append_nil, Bool.or_self]
  have steady := (reserveAll_steady config root : Steady [] _).settles opening inner.items
  calc complete config root ⟨opening, reserved.items⟩
      = (completeItems config root reserved.items).andThen (reserveAll config root opening) := rfl
    _ = ⟨reserved.items, inner.faults ++ reserved.faults, false⟩ := by
        rw [completed, Completed.andThen]
        simp only [reserved, steady, Completed.settled, Bool.or_self]

private theorem completeSelection_settles (parent : String) (selection : Selection) :
    completeSelection config parent (completeSelection config parent selection).1 =
      ((completeSelection config parent selection).1,
        (completeSelection config parent selection).2.1, false) := by
  induction selection generalizing parent with
  | field head items ih =>
      rcases completeSelection_field_cases config parent head items with
        ⟨field, resolved, some, same⟩ | ⟨_, same⟩
      · have settles := complete_settles_of_completeItems head.opening
          (completeItems_settles_of_forall fun item member => ih item member field.type.base)
        have extended : Extended [] items items
            (complete config field.type.base ⟨head.opening, items⟩).items :=
          complete_extends field.type.base ⟨head.opening, items⟩
        rw [same]
        rcases completeSelection_field_cases config parent head
            (complete config field.type.base ⟨head.opening, items⟩).items with
          ⟨other, resolvedOther, _, again⟩ | ⟨none, _⟩
        · cases resolved.symm.trans resolvedOther
          rw [again, settles]
          rfl
        · exact absurd (none field resolved) (extended.ne_nil some)
      · rw [same]
        exact same
  | spread head => rfl
  | inline head items ih =>
      have settles (type : String) := completeItems_settles_of_forall fun item member =>
        ih item member type
      simp only [completeSelection_inline]
      split
      · rw [settles]
        rfl
      · rw [complete_settles_of_completeItems head.opening (settles _)]
        rfl

private theorem complete_settles (root : String) (selections : SelectionSet) :
    complete config root ⟨selections.opening, (complete config root selections).items⟩ =
      (complete config root selections).settled :=
  complete_settles_of_completeItems selections.opening
    (completeItems_settles_of_forall fun item _ => completeSelection_settles root item)

end IdentityCompletion

/-! ## Documents -/

section Documents

variable {complete : SelectionSet → Completed}

private theorem ExecutableDocument.complete_settles
    (settles : ∀ selections, complete ⟨selections.opening, (complete selections).items⟩ =
      (complete selections).settled) (definitions : ExecutableDocument) :
    let done := ExecutableDocument.complete complete definitions
    ExecutableDocument.complete complete done.definitions = ⟨done.definitions, done.faults, false⟩ := by
  induction definitions with
  | nil => rfl
  | cons definition rest ih =>
      simp only [ExecutableDocument.complete, Definition.selections_withItems,
        Definition.withItems_withItems, settles, ih, Completed.settled, Bool.or_self]

theorem ExecutableDocument.definitions_complete_of_changed
    (truthful : ∀ selections, (complete selections).Truthful selections.items)
    {definitions : ExecutableDocument}
    (unchanged : (ExecutableDocument.complete complete definitions).changed = false) :
    (ExecutableDocument.complete complete definitions).definitions = definitions := by
  induction definitions with
  | nil => rfl
  | cons definition rest ih =>
      simp only [ExecutableDocument.complete, Bool.or_eq_false_iff] at unchanged ⊢
      rw [truthful _ unchanged.1, ih unchanged.2, Definition.withItems_self]

private theorem Document.revise_settles (document : Document)
    (truthful : ∀ selections, (complete selections).Truthful selections.items)
    (settles : ∀ selections, complete ⟨selections.opening, (complete selections).items⟩ =
      (complete selections).settled) :
    let done := ExecutableDocument.complete complete document.working
    let revised := document.revise done.definitions done.changed
    let again := ExecutableDocument.complete complete revised.working
    revised.revise again.definitions again.changed = revised ∧ again.faults = done.faults := by
  intro done revised again
  have working : revised.working = done.definitions := by
    cases changed : done.changed with
    | true => simp only [revised, changed, revise, if_true]
    | false =>
        simp only [revised, changed, revise, Bool.false_eq_true, if_false]
        exact (ExecutableDocument.definitions_complete_of_changed truthful changed).symm
  have same : again = ⟨done.definitions, done.faults, false⟩ := by
    simp only [again, working]
    exact ExecutableDocument.complete_settles settles document.working
  rw [same]
  exact ⟨rfl, rfl⟩

variable {branching : List String} {before after : Document}

theorem Document.Extended.definition? (extended : before.Extended branching after) :
    (before.definition? = none ∧ after.definition? = none) ∨
      ∃ definition items, before.definition? = some definition ∧
        after.definition? = some (definition.withItems items) ∧
        GraphqlStore.Extended branching definition.selections.items definition.selections.items
          items := by
  have definitions := extended.definitions
  unfold Document.definition?
  cases first : before.working with
  | nil =>
      rw [first, List.forall₂_nil_left_iff] at definitions
      exact .inl ⟨rfl, by rw [definitions]; rfl⟩
  | cons definition rest =>
      rw [first, List.forall₂_cons_left_iff] at definitions
      obtain ⟨other, others, ⟨items, rfl, inner⟩, _, same⟩ := definitions
      exact .inr ⟨definition, items, rfl, by rw [same]; rfl, inner⟩

theorem Document.Extended.rootType?_eq (extended : before.Extended branching after) (schema : Schema) :
    after.rootType? schema = before.rootType? schema := by
  unfold Document.rootType?
  rw [extended.kept.2.1]
  rcases extended.definition? with ⟨none, noneAfter⟩ | ⟨definition, items, found, foundAfter, _⟩
  · rw [none, noneAfter]
  · rw [found, foundAfter]
    cases definition <;> rfl

private theorem PaginationCompletion.check_extended (extended : before.Extended branching after)
    (config : Config) :
    check config after = check config before := by
  have walked : ((after.visits? config.schema).getD []).filterMap paginated? =
      ((before.visits? config.schema).getD []).filterMap paginated? := by
    unfold Document.visits? Document.selections?
    rw [extended.rootType?_eq]
    rcases extended.definition? with ⟨none, noneAfter⟩ | ⟨definition, items, found, foundAfter, inner⟩
    · rw [none, noneAfter]
    · rw [found, foundAfter, Option.map_some, Option.map_some, Definition.selections_withItems]
      cases before.rootType? config.schema with
      | none => rfl
      | some root => exact filterMap_paginated_eq inner
  have refetch : refetchIssues config after = refetchIssues config before := by
    unfold refetchIssues
    rcases extended.definition? with ⟨none, noneAfter⟩ | ⟨definition, items, found, foundAfter, _⟩
    · rw [none, noneAfter]
    · rw [found, foundAfter]
      cases definition <;> rfl
  simp only [check, checkFirst, checkField, walked, refetch, extended.kept.2.1]

theorem Document.reports_revise (document : Document) (working : ExecutableDocument) (changed : Bool)
    (faults : List Fault) :
    (document.revise working changed).reports faults = document.reports faults := by
  unfold Document.reports
  rw [Document.name_revise]

theorem PaginationCompletion.step_step (config : Config) (document : Document) :
    step config (step config document).1 = step config document := by
  have rechecked := check_extended (step_extends config document) config
  cases checked : check config document with
  | mk faults planned =>
      cases planned with
      | none =>
          have same : step config document = (document, document.reports faults) := by
            simp only [step, checked]
          rw [same]
          exact same
      | some plan =>
          obtain ⟨settled, sameFaults⟩ := document.revise_settles
            (fun selections => completeFields_truthful plan selections.items)
            (fun selections => completeFields_settles plan selections.items)
          simp only [step, checked] at rechecked ⊢
          rw [rechecked]
          simp only [settled, sameFaults, Document.reports_revise]

theorem IdentityCompletion.step_step (config : Config) (document : Document) :
    step config (step config document).1 = step config document := by
  have rooted := (step_extends config document : document.Extended [] _).rootType?_eq config.schema
  cases found : document.rootType? config.schema with
  | none =>
      have same : step config document = (document, []) := by simp only [step, found]
      rw [same]
      exact same
  | some root =>
      obtain ⟨settled, sameFaults⟩ := document.revise_settles
        (@complete_truthful config root) (complete_settles root)
      simp only [step, found] at rooted ⊢
      rw [rooted]
      simp only [settled, sameFaults, Document.reports_revise]

end Documents

/-! ## Inlining -/

private theorem Selection.anySpread_mapSpreads (test : Spread → Bool) (replace : Spread → Selection)
    (selection : Selection) :
    (selection.mapSpreads replace).anySpread test =
      selection.anySpread fun spread => (replace spread).anySpread test := by
  have each {items : List Selection}
      (same : ∀ item ∈ items, (item.mapSpreads replace).anySpread test =
        item.anySpread fun spread => (replace spread).anySpread test) :
      GraphqlStore.anySpread test (GraphqlStore.mapSpreads replace items) =
        GraphqlStore.anySpread (fun spread => (replace spread).anySpread test) items := by
    rw [anySpread_eq, anySpread_eq, mapSpreads_eq, List.any_map]
    rw [Bool.eq_iff_iff, List.any_eq_true, List.any_eq_true]
    refine exists_congr fun item => and_congr_right fun member => ?_
    rw [Function.comp_apply, same item member]
  induction selection with
  | field head items ih => exact each ih
  | spread head => rfl
  | inline head items ih => exact each ih

private theorem anySpread_mapSpreads (test : Spread → Bool) (replace : Spread → Selection)
    (items : List Selection) :
    anySpread test (mapSpreads replace items) =
      anySpread (fun spread => (replace spread).anySpread test) items := by
  induction items with
  | nil => rfl
  | cons item rest ih => rw [mapSpreads, anySpread, anySpread, item.anySpread_mapSpreads, ih]

private theorem anySpread_eq_false {test : Spread → Bool} {items : List Selection}
    (silent : ∀ spread, spread.name ∈ spreadNames items → test spread = false) :
    anySpread test items = false := by
  have never (selection : Selection) : selection.anySpread (fun _ => false) = false := by
    induction selection with
    | field head items ih => rw [Selection.anySpread, anySpread_eq, List.any_eq_false]; simpa using ih
    | spread head => rfl
    | inline head items ih => rw [Selection.anySpread, anySpread_eq, List.any_eq_false]; simpa using ih
  rw [anySpread_congr silent, anySpread_eq, List.any_eq_false]
  exact fun item _ => by simp [never item]

namespace Inlining

variable {registry : FragmentRegistry} {masking : FragmentMasking} {stack : List String}

private theorem anySpread_expandSpread (acyclic : registry.Acyclic) (chain : List String)
    {spread : Spread} (avoids : registry.Avoids [spread.name] chain) :
    (expandSpread registry masking (chain ++ stack) spread).anySpread (replaces registry stack) = false := by
  have here : spread.name ∈ [spread.name] := List.mem_singleton.2 rfl
  generalize same : chain ++ stack = whole
  fun_induction expandSpread registry masking whole spread generalizing chain with
  | case1 whole spread missing =>
      rw [Selection.anySpread, replaces, NameMap.contains, missing]
      rfl
  | case2 whole spread fragment found fresh _ ih =>
      rw [Selection.anySpread, anySpread_mapSpreads]
      refine anySpread_eq_false fun inner inside => ?_
      refine ih inner (spread.name :: chain) ?_ (List.mem_singleton.2 rfl) (congrArg _ same)
      exact (avoids.body acyclic here found).subset fun name member =>
        List.mem_singleton.1 member ▸ inside
  | case3 whole spread fragment found again =>
      rw [not_not, ← same, List.mem_append] at again
      have onStack := again.resolve_left (avoids.not_mem here)
      rw [Selection.anySpread, replaces]
      simp [onStack]

theorem working_step (context : PassContext) (document : Document) :
    (step context document).1.working =
      expandDocument context.registry context.config.fragmentMasking document.working := by
  unfold step Document.revise
  dsimp only
  split
  · rfl
  · rename_i unchanged
    cases definitions : document.working with
    | nil => rfl
    | cons definition rest =>
        rw [definitions, changes, Bool.not_eq_true] at unchanged
        rw [expandDocument, expand_of_changes unchanged, Definition.withItems_self]

private theorem changes_expandDocument (acyclic : registry.Acyclic) {other : FragmentRegistry}
    (named : ∀ name, other.contains name = registry.contains name) (definitions : ExecutableDocument) :
    changes other (expandDocument registry masking definitions) = false := by
  cases definitions with
  | nil => rfl
  | cons definition rest =>
      have stacked (items : List Selection) :
          initialStack (definition.withItems items) = initialStack definition := by
        cases definition <;> rfl
      have replaced : replaces other = replaces registry := by
        funext stack spread
        rw [replaces, replaces, named]
      rw [expandDocument, changes, stacked, replaced, Definition.selections_withItems, expand,
        anySpread_mapSpreads]
      exact anySpread_eq_false fun spread _ => anySpread_expandSpread acyclic [] .nil

theorem step_step (context : PassContext) (acyclic : context.registry.Acyclic) {again : PassContext}
    (named : ∀ name, again.registry.contains name = context.registry.contains name)
    (document : Document) : step again (step context document).1 = step context document := by
  have unchanged : changes again.registry (step context document).1.working = false := by
    rw [working_step]
    exact changes_expandDocument acyclic named document.working
  rw [step, unchanged]
  rfl

end Inlining

/-! ## Passes -/

theorem FragmentRegistry.contains_ofDocuments_iff {documents : List Document} {name : String} :
    (FragmentRegistry.ofDocuments documents).contains name = true ↔
      ∃ document ∈ documents,
        document.definition?.map Definition.kindAndName = some (.fragment, some name) := by
  rw [NameMap.contains]
  constructor
  · intro present
    obtain ⟨fragment, found⟩ := Option.isSome_iff_exists.1 present
    rcases find?_foldl_register found with absent | ⟨document, member, defined, named⟩
    · cases absent
    · exact ⟨document, member, by rw [defined, ← named]; rfl⟩
  · rintro ⟨document, member, kind⟩
    obtain ⟨definition, defined, same⟩ := Option.map_eq_some_iff.1 kind
    refine find?_foldl_register_isSome (.inr ⟨document, member, ?_⟩)
    cases definition with
    | shorthand written => cases same
    | operation declared => cases same
    | fragment declared => exact ⟨declared, defined, by cases same; rfl⟩

theorem Pass.revising_rerun {name : String}
    {step : PassContext → Document → Document × List Diagnostic} {context again : PassContext}
    {documents : List Document}
    (same : ∀ document, step again (step context document).1 = step context document) :
    (Pass.revising name step).run again ((Pass.revising name step).run context documents).documents =
      (Pass.revising name step).run context documents := by
  have results : ((documents.map (step context)).map Prod.fst).map (step again) =
      documents.map (step context) := by
    rw [List.map_map, List.map_map]
    exact List.map_congr_left fun document _ => same document
  simp only [Pass.revising, results]

private theorem Inlining.contains_ofDocuments_run (config : Config) (documents : List Document)
    (name : String) :
    (FragmentRegistry.ofDocuments (Pass.fragmentInlining.run
      ⟨config, FragmentRegistry.ofDocuments documents⟩ documents).documents).contains name =
      (FragmentRegistry.ofDocuments documents).contains name := by
  have kept (document : Document) :
      (step ⟨config, FragmentRegistry.ofDocuments documents⟩ document).1.definition?.map
          Definition.kindAndName =
        document.definition?.map Definition.kindAndName := by
    rw [Document.definition?, working_step, Document.definition?]
    cases document.working with
    | nil => rfl
    | cons definition rest => exact congrArg some (Definition.kindAndName_withItems definition _)
  rw [Bool.eq_iff_iff, FragmentRegistry.contains_ofDocuments_iff, FragmentRegistry.contains_ofDocuments_iff]
  simp only [Pass.fragmentInlining, Pass.revising, List.map_map, List.mem_map, exists_exists_and_eq_and,
    Function.comp_apply, kept]

/-- Each pass that rewrites documents leaves what it has made and reports what it has reported when
it runs again, provided no fragment leads back to itself. -/
theorem Pass.rerun_eq {pass : Pass}
    (rewrites : pass ∈ [Pass.paginationArguments, Pass.fragmentInlining, Pass.identityKeys])
    (config : Config) {documents : List Document}
    (acyclic : (FragmentRegistry.ofDocuments documents).Acyclic) :
    let once := pass.run ⟨config, FragmentRegistry.ofDocuments documents⟩ documents
    pass.run ⟨config, FragmentRegistry.ofDocuments once.documents⟩ once.documents = once := by
  simp only [List.mem_cons, List.not_mem_nil, or_false] at rewrites
  rcases rewrites with rfl | rfl | rfl
  · exact Pass.revising_rerun (PaginationCompletion.step_step config)
  · exact Pass.revising_rerun
      (Inlining.step_step _ acyclic (Inlining.contains_ofDocuments_run config documents))
  · exact Pass.revising_rerun (IdentityCompletion.step_step config)

/-- A list and a value of the catalog, each with a name of another field's in the way. -/
def takenTexts : List String :=
  ["query Q \x7b items(first: 2) @paginate \x7b pageInfo: edges \x7b node \x7b ...F \x7d \x7d \x7d " ++
      "node \x7b id: __typename ...F \x7d \x7d",
    "fragment F on Item \x7b title \x7d"]

/-- The documents of texts; nothing if one is refused. -/
def documentsOf? (texts : List String) : Option (List Document) := do
  let collection ← (Collection.collect (texts.map fun text => ⟨none, text, true, true⟩)).toOption
  collection.toExcept.toOption

/-- Each pass revises a document of these, two of them report as well, and none does more the
second time. -/
theorem Pass.rerun_eq_taken :
    ∃ schema documents, Schema.ofDefinitions Pipeline.catalog = .ok schema ∧
      documentsOf? takenTexts = some documents ∧
      let passes := [Pass.paginationArguments, Pass.fragmentInlining, Pass.identityKeys]
      let once := fun (pass : Pass) =>
        pass.run ⟨.ofSchema schema, FragmentRegistry.ofDocuments documents⟩ documents
      (passes.map fun pass => ((once pass).documents.map Document.revision, (once pass).errors.length)) =
          [([1, 0], 1), ([1, 0], 0), ([1, 1], 1)] ∧
        ∀ pass ∈ passes, pass.run
          ⟨.ofSchema schema, FragmentRegistry.ofDocuments (once pass).documents⟩ (once pass).documents =
            once pass := by
  have made : (Schema.ofDefinitions Pipeline.catalog).toOption.any (fun schema =>
      (documentsOf? takenTexts).any fun documents =>
        (FragmentRegistry.ofDocuments documents).keys.all
          (fun name => !(FragmentRegistry.ofDocuments documents).isCyclic name) &&
        ([Pass.paginationArguments, Pass.fragmentInlining, Pass.identityKeys].map (fun pass =>
          let once := pass.run ⟨.ofSchema schema, FragmentRegistry.ofDocuments documents⟩ documents
          (once.documents.map Document.revision, once.errors.length))) ==
            [([1, 0], 1), ([1, 0], 0), ([1, 1], 1)]) = true := by
    decide +kernel
  obtain ⟨schema, built, made⟩ := (Option.any_eq_true _ _).1 made
  obtain ⟨documents, collects, made⟩ := (Option.any_eq_true _ _).1 made
  rw [Bool.and_eq_true, List.all_eq_true] at made
  have acyclic : (FragmentRegistry.ofDocuments documents).Acyclic :=
    FragmentRegistry.acyclic_of_keys fun name member => by simpa using made.1 name member
  exact ⟨schema, documents, toOption_eq_some_iff.1 built, collects, beq_iff_eq.1 made.2,
    fun pass member => Pass.rerun_eq member (.ofSchema schema) acyclic⟩

end GraphqlStore
