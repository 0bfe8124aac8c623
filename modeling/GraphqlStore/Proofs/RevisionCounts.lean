import GraphqlStore.Proofs.RepeatedPasses
import GraphqlStore.Proofs.RunHistory

/-!
The revision of a document counts its changes. A completion reports a change
exactly if it has appended something, which makes selections larger, and
inlining exactly if it has put an inline fragment in the place of a spread. So
each built-in pass raises the revision of a document by one if it leaves another
working copy, and otherwise not at all; it touches nothing else of a document.
-/

set_option autoImplicit false

namespace GraphqlStore

open PaginationCompletion (size selectionSize size_append)

/-! ## Completers -/

/-- A completion makes selections no smaller, and larger if it reports a change. -/
def Completed.Grows (items : List Selection) (done : Completed) : Prop :=
  size items + done.changed.toNat ≤ size done.items

/-- Completers that append whenever they report a change. -/
def Enlarges (completer : Completer) : Prop :=
  ∀ opening items, (completer opening items).Grows items

theorem toNat_or_le (first second : Bool) :
    (first || second).toNat ≤ first.toNat + second.toNat := by
  cases first <;> cases second <;> decide

namespace Completed.Grows

theorem keep (items : List Selection) : (Completed.keep items).Grows items :=
  Nat.le_refl _

theorem andThen {items : List Selection} {done : Completed} {next : List Selection → Completed}
    (first : done.Grows items) (second : (next done.items).Grows done.items) :
    (done.andThen next).Grows items := by
  have flags := toNat_or_le done.changed (next done.items).changed
  unfold Completed.Grows at first second ⊢
  simp only [Completed.andThen]
  omega

theorem cons {selection done : Selection} {faults : List Fault} {changed : Bool}
    {items : List Selection} {rest : Completed}
    (here : selectionSize selection + changed.toNat ≤ selectionSize done)
    (later : rest.Grows items) :
    (Completed.cons done faults changed rest).Grows (selection :: items) := by
  have flags := toNat_or_le changed rest.changed
  unfold Completed.Grows at later ⊢
  simp only [Completed.cons, size]
  omega

private theorem items_ne {items : List Selection} {done : Completed} (grows : done.Grows items)
    (changed : done.changed = true) : done.items ≠ items := by
  intro same
  rw [Completed.Grows, same, changed, Bool.toNat_true] at grows
  omega

end Completed.Grows

namespace Enlarges

theorem keep : Enlarges fun _ items => .keep items :=
  fun _ items => .keep items

theorem andThen {first next : Completer} (enlarges : Enlarges first) (enlargesNext : Enlarges next) :
    Enlarges fun opening items => (first opening items).andThen (next opening) :=
  fun opening items => (enlarges opening items).andThen (enlargesNext opening _)

theorem ensureField (report : String → Field → Fault) (name : String) {below : Completer}
    (enlarges : Enlarges below) : Enlarges (ensureField report name below) := by
  intro opening items
  rcases ensureField_cases report name below opening items with
    ⟨other, _, same⟩ | ⟨_, before, head, inner, after, rfl, _, _, same⟩ | ⟨_, _, same⟩
  · rw [same]
    exact .keep items
  · have grows := enlarges head.opening inner
    rw [same]
    unfold Completed.Grows at grows ⊢
    simp only [size_append, size, selectionSize]
    omega
  · rw [same]
    simp only [Completed.Grows, size_append, size, selectionSize, Bool.toNat_true]
    omega

theorem ensurePlain (report : String → Field → Fault) (name : String) :
    Enlarges (ensurePlain report name) :=
  .ensureField report name .keep

theorem ensureAll (report : String → Field → Fault) (names : List String) :
    Enlarges (ensureAll report names) :=
  foldl_of_andThen Enlarges.andThen (fun name _ => .ensurePlain report name) .keep

end Enlarges

namespace PaginationCompletion

private theorem Plan.apply_enlarges (plan : Plan) : Enlarges plan.apply := by
  refine (Enlarges.ensureField report "pageInfo" (.ensureAll report plan.pageInfo)).andThen ?_
  split
  · exact .ensureField report "edges" (.ensureAll report ["cursor"])
  · exact .keep

private theorem Plan.applyTo_grows (plan : Plan) (head : Field) (items : List Selection) :
    (plan.applyTo head items).Grows items := by
  unfold Plan.applyTo
  split
  · exact plan.apply_enlarges head.opening items
  · exact .keep items

private theorem completeFields_grows (plan : Plan) (items : List Selection) :
    (completeFields plan items).Grows items := by
  fun_induction completeFields plan items with
  | case1 => exact .keep []
  | case2 head items rest applied below ihBelow ihRest =>
      have here : below.Grows applied.items := ihBelow
      have both : (applied.andThen fun _ => below).Grows items :=
        (plan.applyTo_grows head items).andThen here
      refine .cons ?_ ihRest
      rw [selectionSize, selectionSize, Nat.add_right_comm]
      exact Nat.succ_le_succ both
  | case3 head rest ih => exact .cons (Nat.le_refl _) ih
  | case4 head items rest below ihBelow ihRest =>
      refine .cons ?_ ihRest
      rw [selectionSize, selectionSize, Nat.add_right_comm]
      exact Nat.succ_le_succ ihBelow

end PaginationCompletion

namespace IdentityCompletion

variable {config : Config}

private theorem reserveKey_enlarges (schema : Schema) (type key : String) :
    Enlarges (reserveKey schema type key) := by
  intro opening items
  unfold reserveKey
  split
  · exact Enlarges.ensurePlain _ key opening items
  · exact .keep items

private theorem reserveAll_enlarges (config : Config) (type : String) :
    Enlarges (reserveAll config type) := by
  unfold reserveAll
  split
  · refine foldl_of_andThen Enlarges.andThen
      (fun key _ => reserveKey_enlarges config.schema type key) ?_
    split
    · exact .ensurePlain _ _
    · exact .keep
  · exact .keep

theorem completeItems_grows_of_forall {parent : String} {items : List Selection}
    (each : ∀ item ∈ items, selectionSize item + (completeSelection config parent item).2.2.toNat ≤
      selectionSize (completeSelection config parent item).1) :
    (completeItems config parent items).Grows items := by
  induction items with
  | nil => exact .keep []
  | cons item rest ih =>
      rw [List.forall_mem_cons] at each
      exact .cons each.1 (ih each.2)

private theorem complete_grows_of_forall {root : String} {opening : Position}
    {items : List Selection}
    (each : ∀ item ∈ items, selectionSize item + (completeSelection config root item).2.2.toNat ≤
      selectionSize (completeSelection config root item).1) :
    (complete config root ⟨opening, items⟩).Grows items :=
  (completeItems_grows_of_forall each).andThen (reserveAll_enlarges config root opening _)

private theorem completeSelection_grows (parent : String) (selection : Selection) :
    selectionSize selection + (completeSelection config parent selection).2.2.toNat ≤
      selectionSize (completeSelection config parent selection).1 := by
  induction selection generalizing parent with
  | field head items ih =>
      rcases completeSelection_field_cases config parent head items with
        ⟨field, _, _, same⟩ | ⟨_, same⟩
      · rw [same, selectionSize, selectionSize, Nat.add_right_comm]
        exact Nat.succ_le_succ (complete_grows_of_forall fun item member => ih item member _)
      · rw [same]
        exact Nat.le_refl _
  | spread head => exact Nat.le_refl _
  | inline head items ih =>
      rw [completeSelection_inline, selectionSize, selectionSize, Nat.add_right_comm]
      refine Nat.succ_le_succ ?_
      split
      · exact completeItems_grows_of_forall fun item member => ih item member _
      · exact complete_grows_of_forall fun item member => ih item member _

private theorem complete_grows (root : String) (selections : SelectionSet) :
    (complete config root selections).Grows selections.items :=
  complete_grows_of_forall fun item _ => completeSelection_grows root item

end IdentityCompletion

/-! ## Documents -/

/-- What passes leave alone: all of a document but its working copy and its revision. -/
structure Document.Keeps (before after : Document) : Prop where
  name : after.name = before.name
  kind : after.kind = before.kind
  source : after.source = before.source
  pristine : after.pristine = before.pristine
  artifact : after.artifact = before.artifact
  store : after.store = before.store

/-- The revision is raised by one if the working copy is another one, and otherwise stays. -/
structure Document.Counts (before after : Document) : Prop extends before.Keeps after where
  equal : after.working = before.working → after.revision = before.revision
  differs : after.working ≠ before.working → after.revision = before.revision + 1

namespace Document

theorem Keeps.refl (document : Document) : document.Keeps document :=
  ⟨rfl, rfl, rfl, rfl, rfl, rfl⟩

theorem Keeps.trans {first second third : Document} (one : first.Keeps second)
    (two : second.Keeps third) : first.Keeps third where
  name := two.name.trans one.name
  kind := two.kind.trans one.kind
  source := two.source.trans one.source
  pristine := two.pristine.trans one.pristine
  artifact := two.artifact.trans one.artifact
  store := two.store.trans one.store

private theorem Keeps.trans_all {first second third : List Document}
    (one : List.Forall₂ Keeps first second)
    (two : List.Forall₂ Keeps second third) : List.Forall₂ Keeps first third := by
  induction one generalizing third with
  | nil =>
      cases two
      exact .nil
  | cons here _ ih =>
      cases two with
      | cons next later => exact .cons (here.trans next) (ih later)

theorem Counts.refl (document : Document) : document.Counts document :=
  ⟨.refl document, fun _ => rfl, fun differs => absurd rfl differs⟩

theorem counts_revise (document : Document) {working : ExecutableDocument} {changed : Bool}
    (truthful : changed = true ↔ working ≠ document.working) :
    document.Counts (document.revise working changed) := by
  cases changed with
  | true =>
      refine ⟨⟨rfl, rfl, rfl, rfl, rfl, rfl⟩, ?_, fun _ => rfl⟩
      intro same
      exact absurd same (truthful.1 rfl)
  | false => exact .refl document

end Document

theorem ExecutableDocument.changed_complete_iff {complete : SelectionSet → Completed}
    (truthful : ∀ selections, (complete selections).Truthful selections.items)
    (grows : ∀ selections, (complete selections).Grows selections.items)
    (definitions : ExecutableDocument) :
    (ExecutableDocument.complete complete definitions).changed = true ↔
      (ExecutableDocument.complete complete definitions).definitions ≠ definitions := by
  constructor
  · intro changed same
    induction definitions with
    | nil => cases changed
    | cons definition rest ih =>
        simp only [ExecutableDocument.complete, List.cons.injEq, Bool.or_eq_true] at changed same
        rcases changed with here | later
        · have items := congrArg (fun other => (Definition.selections other).items) same.1
          simp only [Definition.selections_withItems] at items
          exact (grows definition.selections).items_ne here items
        · exact ih later same.2
  · intro differs
    cases changed : (ExecutableDocument.complete complete definitions).changed with
    | true => rfl
    | false =>
        exact absurd (ExecutableDocument.definitions_complete_of_changed truthful changed) differs

theorem PaginationCompletion.step_counts (config : Config) (document : Document) :
    document.Counts (step config document).1 := by
  unfold step
  split
  · exact .refl document
  · rename_i plan _
    exact document.counts_revise (ExecutableDocument.changed_complete_iff
      (fun selections => completeFields_truthful plan selections.items)
      (fun selections => completeFields_grows plan selections.items) document.working)

theorem IdentityCompletion.step_counts (config : Config) (document : Document) :
    document.Counts (step config document).1 := by
  unfold step
  split
  · exact .refl document
  · exact document.counts_revise (ExecutableDocument.changed_complete_iff
      (complete_truthful _) (complete_grows _) document.working)

/-! ## Inlining -/

private theorem mapSpreads_ne_of_forall {test : Spread → Bool} {replace : Spread → Selection}
    {items : List Selection}
    (each : ∀ item ∈ items, item.anySpread test = true → item.mapSpreads replace ≠ item)
    (some : anySpread test items = true) : mapSpreads replace items ≠ items := by
  induction items with
  | nil => cases some
  | cons item rest ih =>
      rw [List.forall_mem_cons] at each
      rw [anySpread, Bool.or_eq_true] at some
      intro same
      rw [mapSpreads, List.cons.injEq] at same
      rcases some with here | later
      · exact each.1 here same.1
      · exact ih each.2 later same.2

private theorem Selection.mapSpreads_ne {test : Spread → Bool} {replace : Spread → Selection}
    (replaced : ∀ spread, test spread = true → replace spread ≠ .spread spread)
    {selection : Selection} (some : selection.anySpread test = true) :
    selection.mapSpreads replace ≠ selection := by
  induction selection with
  | field head items ih =>
      intro same
      rw [Selection.mapSpreads, Selection.field.injEq] at same
      exact mapSpreads_ne_of_forall ih some same.2
  | spread head => exact replaced head some
  | inline head items ih =>
      intro same
      rw [Selection.mapSpreads, Selection.inline.injEq] at same
      exact mapSpreads_ne_of_forall ih some same.2

namespace Inlining

private theorem expandSpread_ne {registry : FragmentRegistry} {masking : FragmentMasking}
    {stack : List String} {spread : Spread} (replaced : replaces registry stack spread = true) :
    expandSpread registry masking stack spread ≠ .spread spread := by
  simp only [replaces, NameMap.contains, Bool.and_eq_true, Bool.not_eq_true', List.contains_eq_mem,
    decide_eq_false_iff_not] at replaced
  obtain ⟨fragment, found⟩ := Option.isSome_iff_exists.1 replaced.1
  unfold expandSpread
  split
  · rename_i missing
    cases found.symm.trans missing
  · rw [dif_pos replaced.2]
    intro same
    cases same

theorem changes_iff (registry : FragmentRegistry) (masking : FragmentMasking)
    (definitions : ExecutableDocument) :
    changes registry definitions = true ↔ expandDocument registry masking definitions ≠ definitions := by
  cases definitions with
  | nil => simp [changes, expandDocument]
  | cons definition rest =>
      rw [changes, expandDocument]
      constructor
      · intro some same
        have items := congrArg (fun other => (Definition.selections other).items)
          (List.cons.inj same).1
        simp only [Definition.selections_withItems] at items
        exact mapSpreads_ne_of_forall
          (fun _ _ => Selection.mapSpreads_ne fun _ => expandSpread_ne) some items
      · intro differs
        cases some : anySpread (replaces registry (initialStack definition))
            definition.selections.items with
        | true => rfl
        | false =>
            rw [expand_of_changes some, Definition.withItems_self] at differs
            exact absurd rfl differs

theorem step_counts (context : PassContext) (document : Document) :
    document.Counts (step context document).1 :=
  document.counts_revise (changes_iff _ _ document.working)

end Inlining

/-! ## Passes -/

def Pass.checks : List Pass := [schemaConformance, directiveValidation, scalarUsage]

theorem Pass.documents_of_checks {pass : Pass} (reports : pass ∈ Pass.checks) (context : PassContext)
    (documents : List Document) : (pass.run context documents).documents = documents := by
  simp only [Pass.checks, List.mem_cons, List.not_mem_nil, or_false] at reports
  rcases reports with rfl | rfl | rfl <;> rfl

theorem Pass.builtin_counts {pass : Pass} (builtin : pass ∈ Pass.builtin) (context : PassContext)
    (documents : List Document) :
    List.Forall₂ Document.Counts documents (pass.run context documents).documents := by
  have split : pass ∈ Pass.checks ∨
      pass ∈ [paginationArguments, fragmentInlining, identityKeys] :=
    List.mem_append.1 builtin
  rcases split with reports | rewrites
  · rw [Pass.documents_of_checks reports]
    exact List.forall₂_same.2 fun document _ => .refl document
  · simp only [List.mem_cons, List.not_mem_nil, or_false] at rewrites
    rcases rewrites with rfl | rfl | rfl
    · exact Pass.revising_forall₂ (PaginationCompletion.step_counts context.config) documents
    · exact Pass.revising_forall₂ (Inlining.step_counts context) documents
    · exact Pass.revising_forall₂ (IdentityCompletion.step_counts context.config) documents

private theorem Pass.cancels_of_builtin {pass : Pass} (builtin : pass ∈ Pass.builtin)
    (context : PassContext)
    (documents : List Document) : (pass.run context documents).cancels = false := by
  simp only [Pass.builtin, List.mem_cons, List.not_mem_nil, or_false] at builtin
  rcases builtin with rfl | rfl | rfl | rfl | rfl | rfl <;> rfl

namespace Pipeline

variable {config : Config} {documents revised : List Document} {turns : List Turn}

theorem History.result_eq (history : History config documents turns revised) {turn : Turn}
    (member : turn ∈ turns) : turn.result = turn.pass.run turn.context turn.given := by
  induction history with
  | done => cases member
  | turn _ _ result _ ih =>
      rcases List.mem_cons.1 member with rfl | later
      · exact result
      · exact ih later

theorem History.keeps (history : History config documents turns revised)
    (each : ∀ turn ∈ turns, List.Forall₂ Document.Keeps turn.given turn.result.documents) :
    List.Forall₂ Document.Keeps documents revised := by
  induction history with
  | done documents => exact List.forall₂_same.2 fun document _ => .refl document
  | turn _ given _ _ ih =>
      rw [List.forall_mem_cons] at each
      have first := each.1
      rw [given] at first
      exact Document.Keeps.trans_all first (ih each.2)

/-- Any sequence of built-in passes runs to its end, if a check of response names that has none (see
`Merge.faults`) is taken as one that finds nothing. Every pass raises the revision of a document by
one if it leaves another working copy and by nothing else; passes that check leave all documents as
they are; and nothing but working copies and revisions is ever touched. -/
theorem builtin_revisions (config : Config) (documents : List Document) {passes : List Pass}
    (builtin : ∀ pass ∈ passes, pass ∈ Pass.builtin) :
    ∃ turns revised, turns.map Turn.pass = passes ∧ History config documents turns revised ∧
      run? config ⟨documents, [], false⟩ passes = some ⟨revised, reported turns, false⟩ ∧
      (∀ turn ∈ turns, List.Forall₂ Document.Counts turn.given turn.result.documents) ∧
      (∀ turn ∈ turns, turn.pass ∈ [Pass.schemaConformance, Pass.directiveValidation,
        Pass.scalarUsage] → turn.result.documents = turn.given) ∧
      List.Forall₂ Document.Keeps documents revised := by
  obtain ⟨turns, revised, rfl, history⟩ := exists_history config passes documents
  have counts (turn : Turn) (member : turn ∈ turns) :
      List.Forall₂ Document.Counts turn.given turn.result.documents := by
    rw [history.result_eq member]
    exact Pass.builtin_counts (builtin _ (List.mem_map_of_mem member)) turn.context turn.given
  have down : raised false turns = false := by
    rw [raised, Bool.false_or, List.any_eq_false]
    intro turn member
    rw [history.result_eq member,
      Pass.cancels_of_builtin (builtin _ (List.mem_map_of_mem member)) turn.context turn.given]
    exact Bool.false_ne_true
  refine ⟨turns, revised, rfl, history, ?_, counts, ?_, ?_⟩
  · cases ran : run? config ⟨documents, [], false⟩ (turns.map Turn.pass) with
    | none => exact absurd (run?_eq_none_iff.1 ran) (not_cancelledBefore_of_raised history down)
    | some reached => rw [run?_eq_some ran history, down, List.nil_append]
  · intro turn member reports
    rw [history.result_eq member]
    exact Pass.documents_of_checks reports turn.context turn.given
  · exact history.keeps fun turn member =>
      (counts turn member).imp fun _ _ counted => counted.toKeeps

/-- The keys come first here and once more at the end, where they are found. The query is revised by
three of the four passes that rewrite, its fragment by one. -/
theorem builtin_revisions_taken :
    ∃ schema documents, Schema.ofDefinitions catalog = .ok schema ∧
      documentsOf? takenTexts = some documents ∧
      let passes := Pass.identityKeys :: Pass.builtin
      ∃ turns revised, turns.map Turn.pass = passes ∧
        History (.ofSchema schema) documents turns revised ∧
        run? (.ofSchema schema) ⟨documents, [], false⟩ passes = some ⟨revised, reported turns, false⟩ ∧
        (∀ turn ∈ turns, List.Forall₂ Document.Counts turn.given turn.result.documents) ∧
        (∀ turn ∈ turns, turn.pass ∈ [Pass.schemaConformance, Pass.directiveValidation,
          Pass.scalarUsage] → turn.result.documents = turn.given) ∧
        List.Forall₂ Document.Keeps documents revised ∧ revised.map Document.revision = [3, 1] := by
  have made : (Schema.ofDefinitions catalog).toOption.any (fun schema =>
      (documentsOf? takenTexts).any fun documents =>
        (run? (.ofSchema schema) ⟨documents, [], false⟩ (Pass.identityKeys :: Pass.builtin)).any
          fun progress => progress.documents.map Document.revision == [3, 1]) = true := by
    decide +kernel
  obtain ⟨schema, built, made⟩ := (Option.any_eq_true _ _).1 made
  obtain ⟨documents, collects, made⟩ := (Option.any_eq_true _ _).1 made
  obtain ⟨progress, ran, revisions⟩ := (Option.any_eq_true _ _).1 made
  have builtin : ∀ pass ∈ Pass.identityKeys :: Pass.builtin, pass ∈ Pass.builtin := by
    intro pass member
    rcases List.mem_cons.1 member with rfl | listed
    · simp [Pass.builtin]
    · exact listed
  obtain ⟨turns, revised, passes, history, reached, counts, checks, keeps⟩ :=
    builtin_revisions (.ofSchema schema) documents builtin
  cases ran.symm.trans reached
  exact ⟨schema, documents, toOption_eq_some_iff.1 built, collects, turns, revised, passes, history,
    reached, counts, checks, keeps, beq_iff_eq.1 revisions⟩

end Pipeline

end GraphqlStore
