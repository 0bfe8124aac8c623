import GraphqlStore.Proofs.IdentityTyping
import GraphqlStore.Proofs.PaginationTyping
import Mathlib.Data.List.Forall2

/-!
Completion only appends. The selections that were there stay in place, in their
order and at every depth; after them come fields without alias, arguments and
directives, under names that no other field of the same selections answers to.
Such a field has no selections below it, unless it is one of the two that a
connection is completed with.
-/

set_option autoImplicit false

namespace GraphqlStore

/-! ## What may be appended -/

/-- A field is selected in the place of a selection: it is the selection, or it stands in an inline
fragment. -/
inductive Selection.Offers (field : Field) : Selection → Prop where
  | field {items : List Selection} : Selection.Offers field (.field field items)
  | inline {head : InlineFragment} {items : List Selection} {item : Selection} :
      item ∈ items → Selection.Offers field item → Selection.Offers field (.inline head items)

/-- Of the fields of selections and of their inline fragments, only those of a name answer to it. -/
def Unclaimed (name : String) (items : List Selection) : Prop :=
  ∀ item ∈ items, ∀ field, item.Offers field → field.responseName = name → field.name = name

private theorem selection_taking?_eq_none_iff_offers {name : String} {selection : Selection} :
    selection.taking? name = none ↔
      ∀ field, selection.Offers field → field.responseName = name → field.name = name := by
  induction selection with
  | field head items _ =>
      constructor
      · intro free field offers answers
        cases offers
        simpa [Selection.taking?, Field.takes, answers] using free
      · intro named
        have own := named head .field
        simp only [Selection.taking?, Field.takes, ite_eq_right_iff, Bool.and_eq_true, bne_iff_ne,
          beq_iff_eq, reduceCtorEq, imp_false, not_and]
        exact fun other answers => other (own answers)
  | spread head =>
      refine ⟨fun _ field offers => ?_, fun _ => rfl⟩
      cases offers
  | inline head items ih =>
      rw [Selection.taking?, taking?_eq_none_iff]
      constructor
      · intro free field offers
        cases offers with
        | inline member inside => exact (ih _ member).1 (free _ member) field inside
      · exact fun named item member => (ih item member).2 fun field inside =>
          named field (.inline member inside)

private theorem taking?_eq_none_iff_unclaimed {name : String} {items : List Selection} :
    taking? name items = none ↔ Unclaimed name items := by
  simp only [taking?_eq_none_iff, selection_taking?_eq_none_iff_offers, Unclaimed]

/-- A field without alias, arguments, directives and selections. -/
def Selection.IsBare (selection : Selection) : Prop :=
  ∃ name position, selection = .field (Field.plain name position) []

/-- A field that may be appended to selections: it is plain, no other field of theirs answers to its
name, and it has selections only under some names, all of them bare. -/
inductive AppendedTo (branching : List String) (items : List Selection) : Selection → Prop where
  | plain {name : String} {position : Position} {below : List Selection} :
      Unclaimed name items → (below ≠ [] → name ∈ branching) → (∀ item ∈ below, item.IsBare) →
      AppendedTo branching items (.field (Field.plain name position) below)

/-- The third selections are the second ones, with the selections below them extended in turn, and
after them what may be appended to the first ones. -/
inductive Extended (branching : List String) :
    List Selection → List Selection → List Selection → Prop where
  | appended {whole added : List Selection} :
      (∀ item ∈ added, AppendedTo branching whole item) → Extended branching whole [] added
  | field {whole items others rest more : List Selection} {head : Field} :
      Extended branching items items others → Extended branching whole rest more →
      Extended branching whole (.field head items :: rest) (.field head others :: more)
  | spread {whole rest more : List Selection} {head : Spread} :
      Extended branching whole rest more →
      Extended branching whole (.spread head :: rest) (.spread head :: more)
  | inline {whole items others rest more : List Selection} {head : InlineFragment} :
      Extended branching items items others → Extended branching whole rest more →
      Extended branching whole (.inline head items :: rest) (.inline head others :: more)

namespace Extended

variable {branching : List String} {whole items others : List Selection}

theorem of_forall
    (each : ∀ item ∈ items, ∀ rest more, Extended branching whole rest more →
      Extended branching whole (item :: rest) (item :: more)) :
    Extended branching whole items items := by
  induction items with
  | nil => exact .appended (by simp)
  | cons item rest ih =>
      rw [List.forall_mem_cons] at each
      exact each.1 rest rest (ih each.2)

theorem cons_same (selection : Selection) {rest more : List Selection}
    (extended : Extended branching whole rest more) :
    Extended branching whole (selection :: rest) (selection :: more) := by
  induction selection generalizing whole rest more with
  | field head items ih =>
      exact .field (of_forall fun item member _ _ further => ih item member further) extended
  | spread head => exact .spread extended
  | inline head items ih =>
      exact .inline (of_forall fun item member _ _ further => ih item member further) extended

theorem refl (whole items : List Selection) : Extended branching whole items items :=
  of_forall fun item _ _ _ further => further.cons_same item

private theorem snoc (extended : Extended branching whole items others) {item : Selection}
    (suits : AppendedTo branching whole item) :
    Extended branching whole items (others ++ [item]) := by
  induction extended with
  | appended added =>
      exact .appended (List.forall_mem_append.2 ⟨added, List.forall_mem_singleton.2 suits⟩)
  | field below _ _ ih => exact .field below (ih suits)
  | spread _ ih => exact .spread (ih suits)
  | inline within _ _ ih => exact .inline within (ih suits)

private theorem taking?_plain (name other : String) (position : Position) (below : List Selection) :
    (Selection.field (Field.plain other position) below).taking? name = none := by
  simp [Selection.taking?, Field.takes, Field.plain, Field.responseName]

theorem taking?_eq (extended : Extended branching whole items others) (name : String) :
    taking? name others = taking? name items := by
  induction extended with
  | appended added =>
      refine taking?_eq_none_iff.2 fun item member => ?_
      obtain ⟨_, _, _⟩ := added item member
      exact taking?_plain name _ _ _
  | field _ _ _ ihRest => rw [taking?, taking?, Selection.taking?, Selection.taking?, ihRest]
  | spread _ ih => rw [taking?, taking?, Selection.taking?, ih]
  | inline _ _ ihWithin ihRest =>
      rw [taking?, taking?, Selection.taking?, Selection.taking?, ihWithin, ihRest]

private theorem deepen {before after inner further : List Selection} {head : Field} {name : String}
    (extended : Extended branching whole items (before ++ .field head inner :: after))
    (answers : head.answers name = true) (branches : name ∈ branching)
    (continues : ∀ start, Extended branching start start inner →
      Extended branching start start further)
    (bare : (∀ item ∈ inner, item.IsBare) → ∀ item ∈ further, item.IsBare) :
    Extended branching whole items (before ++ .field head further :: after) := by
  generalize same : before ++ .field head inner :: after = others at extended
  induction extended generalizing before with
  | appended added =>
      subst same
      rw [List.forall_mem_append, List.forall_mem_cons] at added
      refine .appended (List.forall_mem_append.2 ⟨added.1, List.forall_mem_cons.2 ⟨?_, added.2.2⟩⟩)
      obtain ⟨unclaimed, _, below⟩ := added.2.1
      refine .plain unclaimed (fun _ => ?_) (bare below)
      obtain ⟨rfl, _⟩ := Field.answers_iff.1 answers
      exact branches
  | field below rest _ ih =>
      cases before with
      | nil =>
          cases same
          exact .field (continues _ below) rest
      | cons first before =>
          cases same
          exact .field below (ih rfl)
  | spread _ ih =>
      cases before with
      | nil => cases same
      | cons first before =>
          cases same
          exact .spread (ih rfl)
  | inline within _ _ ih =>
      cases before with
      | nil => cases same
      | cons first before =>
          cases same
          exact .inline within (ih rfl)

end Extended

/-! ## Completers -/

/-- Completers that extend further what selections have become. -/
def Appends (branching : List String) (completer : Completer) : Prop :=
  ∀ opening start items, Extended branching start start items →
    Extended branching start start (completer opening items).items

/-- Completers that put bare fields after the selections and change nothing else. -/
def AddsBare (completer : Completer) : Prop :=
  ∀ opening items, ∃ added, (completer opening items).items = items ++ added ∧
    ∀ item ∈ added, item.IsBare

theorem foldl_of_andThen {holds : Completer → Prop}
    (andThen : ∀ {first next : Completer}, holds first → holds next →
      holds fun opening items => (first opening items).andThen (next opening))
    {step : String → Completer} {names : List String} (each : ∀ name ∈ names, holds (step name))
    {start : Completer} (first : holds start) :
    holds fun opening items =>
      names.foldl (fun done name => done.andThen (step name opening)) (start opening items) := by
  induction names generalizing start with
  | nil => exact first
  | cons name rest ih =>
      rw [List.forall_mem_cons] at each
      exact ih each.2 (andThen first each.1)

theorem AddsBare.keep : AddsBare fun _ items => .keep items :=
  fun _ items => ⟨[], (List.append_nil items).symm, by simp⟩

theorem AddsBare.andThen {first next : Completer} (adds : AddsBare first) (addsNext : AddsBare next) :
    AddsBare fun opening items => (first opening items).andThen (next opening) := by
  intro opening items
  obtain ⟨added, same, bare⟩ := adds opening items
  obtain ⟨others, sameNext, bareOthers⟩ := addsNext opening (first opening items).items
  refine ⟨added ++ others, ?_, List.forall_mem_append.2 ⟨bare, bareOthers⟩⟩
  rw [← List.append_assoc, ← same]
  exact sameNext

theorem AddsBare.isBare {completer : Completer} (adds : AddsBare completer) (opening : Position)
    {items : List Selection} (bare : ∀ item ∈ items, item.IsBare) :
    ∀ item ∈ (completer opening items).items, item.IsBare := by
  obtain ⟨added, same, bareAdded⟩ := adds opening items
  rw [same]
  exact List.forall_mem_append.2 ⟨bare, bareAdded⟩

theorem ensurePlain_addsBare (report : String → Field → Fault) (name : String) :
    AddsBare (ensurePlain report name) := by
  intro opening items
  unfold ensurePlain
  rcases ensureField_cases report name (fun _ items => .keep items) opening items with
    ⟨_, _, same⟩ | ⟨_, before, head, inner, after, rfl, _, _, same⟩ | ⟨_, _, same⟩
  · exact ⟨[], by rw [same, List.append_nil], by simp⟩
  · exact ⟨[], by rw [same, List.append_nil, Completed.keep], by simp⟩
  · exact ⟨_, by rw [same, Completed.keep], List.forall_mem_singleton.2 ⟨name, opening, rfl⟩⟩

theorem ensureAll_addsBare (report : String → Field → Fault) (names : List String) :
    AddsBare (ensureAll report names) :=
  foldl_of_andThen AddsBare.andThen (fun name _ => ensurePlain_addsBare report name) AddsBare.keep

section Completers

variable {branching : List String}

theorem Appends.keep : Appends branching fun _ items => .keep items :=
  fun _ _ _ extended => extended

theorem Appends.andThen {first next : Completer} (appends : Appends branching first)
    (appendsNext : Appends branching next) :
    Appends branching fun opening items => (first opening items).andThen (next opening) :=
  fun opening start _ extended =>
    appendsNext opening start _ (appends opening start _ extended)

/-- Selecting a field only appends, if completing below it adds bare fields, and does so under some
names only. -/
theorem ensureField_appends (report : String → Field → Fault) {name : String} {below : Completer}
    (appends : Appends branching below) (adds : AddsBare below)
    (branches : ∀ opening items, (below opening items).items = items ∨ name ∈ branching) :
    Appends branching (ensureField report name below) := by
  intro opening start items extended
  rcases ensureField_cases report name below opening items with
    ⟨other, _, same⟩ | ⟨_, before, head, inner, after, rfl, _, answers, same⟩ | ⟨free, _, same⟩
  · rw [same]
    exact extended
  · rw [same]
    rcases branches head.opening inner with unchanged | branches
    · rwa [unchanged]
    · exact extended.deepen answers branches (fun start => appends head.opening start _)
        (adds.isBare head.opening)
  · rw [same]
    refine extended.snoc (.plain ?_ (fun some => ?_) (adds.isBare opening (by simp)))
    · exact taking?_eq_none_iff_unclaimed.1 ((extended.taking?_eq name).symm.trans free)
    · exact (branches opening []).resolve_left some

private theorem ensurePlain_appends (report : String → Field → Fault) (name : String) :
    Appends branching (ensurePlain report name) :=
  ensureField_appends report .keep .keep fun _ _ => .inl rfl

private theorem ensureAll_appends (report : String → Field → Fault) (names : List String) :
    Appends branching (ensureAll report names) :=
  foldl_of_andThen Appends.andThen (fun name _ => ensurePlain_appends report name) Appends.keep

end Completers

/-! ## Pagination -/

namespace PaginationCompletion

/-- The fields of a connection below which fields are added. -/
def branching : List String := ["pageInfo", "edges"]

private theorem Plan.apply_appends (plan : Plan) : Appends branching plan.apply := by
  have below {name : String} (branches : name ∈ branching) (names : List String) :
      Appends branching (ensureField report name (ensureAll report names)) :=
    ensureField_appends report (ensureAll_appends report names) (ensureAll_addsBare report names)
      fun _ _ => .inr branches
  refine (below (by decide) plan.pageInfo).andThen ?_
  split
  · exact below (by decide) ["cursor"]
  · exact .keep

private theorem Plan.applyTo_appends (plan : Plan) (head : Field) {start items : List Selection}
    (extended : Extended branching start start items) :
    Extended branching start start (plan.applyTo head items).items := by
  unfold applyTo
  split
  · exact plan.apply_appends head.opening start items extended
  · exact extended

private theorem count_of_isBare {items : List Selection} (bare : ∀ item ∈ items, item.IsBare) :
    count items = 0 := by
  induction items with
  | nil => rfl
  | cons item rest ih =>
      rw [List.forall_mem_cons] at bare
      obtain ⟨⟨name, position, rfl⟩, bareRest⟩ := bare
      rw [count, ih bareRest]
      rfl

private theorem count_appended {branching : List String} {whole added : List Selection}
    (suits : ∀ item ∈ added, AppendedTo branching whole item) : count added = 0 := by
  induction added with
  | nil => rfl
  | cons item rest ih =>
      rw [List.forall_mem_cons] at suits
      obtain ⟨⟨_, _, bare⟩, suitsRest⟩ := suits
      rw [count, ih suitsRest, selectionCount, count_of_isBare bare, isPaginated_plain]
      rfl

private theorem completeFields_appended (plan : Plan) {whole added : List Selection}
    (suits : ∀ item ∈ added, AppendedTo branching whole item) :
    Extended branching whole [] (completeFields plan added).items := by
  rw [completeFields_of_count_eq_zero plan (count_appended suits)]
  exact .appended suits

/-- Completing paginated fields extends further what selections have become. What was appended to
them has no paginated field. -/
theorem completeFields_extends (plan : Plan) {whole start items : List Selection}
    (extended : Extended branching whole start items) :
    Extended branching whole start (completeFields plan items).items := by
  fun_induction completeFields plan items generalizing whole start with
  | case1 => exact extended
  | case2 =>
      rename_i head items rest applied below ihBelow ihRest
      cases extended with
      | appended suits => simpa only [completeFields] using completeFields_appended plan suits
      | field inner further =>
          exact .field (ihBelow (plan.applyTo_appends head inner)) (ihRest further)
  | case3 head rest ih =>
      cases extended with
      | appended suits => simpa only [completeFields] using completeFields_appended plan suits
      | spread further => exact .spread (ih further)
  | case4 =>
      rename_i head items rest below ihBelow ihRest
      cases extended with
      | appended suits => simpa only [completeFields] using completeFields_appended plan suits
      | inline inner further => exact .inline (ihBelow inner) (ihRest further)

end PaginationCompletion

/-! ## Identity -/

namespace IdentityCompletion

variable {config : Config} {branching : List String}

private theorem reserveKey_appends (schema : Schema) (type key : String) :
    Appends branching (reserveKey schema type key) := by
  unfold reserveKey
  split
  · exact ensurePlain_appends _ key
  · exact fun _ _ _ extended => extended

private theorem reserveAll_appends (config : Config) (type : String) :
    Appends branching (reserveAll config type) := by
  unfold reserveAll
  split
  · refine foldl_of_andThen Appends.andThen
      (fun key _ => reserveKey_appends config.schema type key) ?_
    split
    · exact ensurePlain_appends _ _
    · exact .keep
  · exact .keep

theorem completeItems_extends_of_forall {parent : String} {whole items : List Selection}
    (each : ∀ item ∈ items, ∀ rest more, Extended branching whole rest more →
      Extended branching whole (item :: rest) ((completeSelection config parent item).1 :: more)) :
    Extended branching whole items (completeItems config parent items).items := by
  induction items with
  | nil => exact .refl whole []
  | cons item rest ih =>
      rw [List.forall_mem_cons] at each
      exact each.1 _ _ (ih each.2)

private theorem completeSelection_extends (parent : String) (selection : Selection)
    {whole rest more : List Selection} (extended : Extended branching whole rest more) :
    Extended branching whole (selection :: rest)
      ((completeSelection config parent selection).1 :: more) := by
  induction selection generalizing parent whole rest more with
  | field head items ih =>
      rcases completeSelection_field_cases config parent head items with
        ⟨field, _, _, same⟩ | ⟨_, same⟩
      · rw [same]
        refine .field (reserveAll_appends config field.type.base head.opening items _ ?_) extended
        exact completeItems_extends_of_forall fun item member _ _ =>
          ih item member field.type.base
      · rw [same]
        exact extended.cons_same _
  | spread head => exact .spread extended
  | inline head items ih =>
      have within (type : String) : Extended branching items items (completeItems config type items).items :=
        completeItems_extends_of_forall fun item member _ _ => ih item member type
      rw [completeSelection_inline]
      refine .inline ?_ extended
      split
      · exact within parent
      · exact reserveAll_appends config _ head.opening items _ (within _)

theorem complete_extends (root : String) (selections : SelectionSet) :
    Extended branching selections.items selections.items (complete config root selections).items :=
  reserveAll_appends config root selections.opening selections.items _
    (completeItems_extends_of_forall fun item _ _ _ => completeSelection_extends root item)

end IdentityCompletion

/-! ## Documents -/

/-- A definition with fields appended to its selections. -/
def Definition.Extended (branching : List String) (before after : Definition) : Prop :=
  ∃ items, after = before.withItems items ∧
    GraphqlStore.Extended branching before.selections.items before.selections.items items

/-- A document whose working copy has fields appended, and that is otherwise what it was. -/
structure Document.Extended (branching : List String) (before after : Document) : Prop where
  definitions : List.Forall₂ (Definition.Extended branching) before.working after.working
  others : { after with working := before.working, revision := before.revision } = before

section Documents

variable {branching : List String}

theorem Document.Extended.kept {before after : Document} (extended : before.Extended branching after) :
    after.name = before.name ∧ after.kind = before.kind ∧ after.pristine = before.pristine := by
  have name := congrArg Document.name extended.others
  have kind := congrArg Document.kind extended.others
  have pristine := congrArg Document.pristine extended.others
  exact ⟨name, kind, pristine⟩

theorem Document.Extended.refl (document : Document) : document.Extended branching document :=
  ⟨List.forall₂_same.2 fun definition _ =>
    ⟨_, (Definition.withItems_self definition).symm, .refl _ _⟩, rfl⟩

theorem ExecutableDocument.complete_extends {complete : SelectionSet → Completed}
    (extended : ∀ selections, GraphqlStore.Extended branching selections.items selections.items
      (complete selections).items) (definitions : ExecutableDocument) :
    List.Forall₂ (Definition.Extended branching) definitions
      (ExecutableDocument.complete complete definitions).definitions := by
  induction definitions with
  | nil => exact .nil
  | cons definition rest ih => exact .cons ⟨_, rfl, extended definition.selections⟩ ih

theorem Document.extended_revise (document : Document) {complete : SelectionSet → Completed}
    (extended : ∀ selections, GraphqlStore.Extended branching selections.items selections.items
      (complete selections).items) :
    let done := ExecutableDocument.complete complete document.working
    document.Extended branching (document.revise done.definitions done.changed) := by
  unfold Document.revise
  dsimp only
  split
  · exact ⟨ExecutableDocument.complete_extends extended document.working, rfl⟩
  · exact .refl document

theorem PaginationCompletion.step_extends (config : Config) (document : Document) :
    document.Extended PaginationCompletion.branching (PaginationCompletion.step config document).1 := by
  unfold PaginationCompletion.step
  split
  · exact .refl document
  · exact document.extended_revise fun selections => completeFields_extends _ (.refl _ _)

theorem IdentityCompletion.step_extends (config : Config) (document : Document) :
    document.Extended branching (IdentityCompletion.step config document).1 := by
  unfold IdentityCompletion.step
  split
  · exact .refl document
  · exact document.extended_revise (IdentityCompletion.complete_extends _)

theorem Pass.revising_forall₂ {name : String} {relation : Document → Document → Prop}
    {step : PassContext → Document → Document × List Diagnostic} {context : PassContext}
    (each : ∀ document, relation document (step context document).1) (documents : List Document) :
    List.Forall₂ relation documents ((Pass.revising name step).run context documents).documents := by
  induction documents with
  | nil => exact .nil
  | cons document rest ih => exact .cons (each document) ih

/-- The passes that complete pagination and identity only append fields. Pagination adds fields
below two of the fields it appends, identity below none. -/
theorem Pass.completion_only_appends (context : PassContext) (documents : List Document) :
    List.Forall₂ (Document.Extended ["pageInfo", "edges"]) documents
        (Pass.paginationArguments.run context documents).documents ∧
      List.Forall₂ (Document.Extended []) documents
        (Pass.identityKeys.run context documents).documents :=
  ⟨Pass.revising_forall₂ (PaginationCompletion.step_extends context.config) documents,
    Pass.revising_forall₂ (IdentityCompletion.step_extends context.config) documents⟩

end Documents

end GraphqlStore
