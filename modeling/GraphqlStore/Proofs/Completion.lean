import GraphqlStore.Pass.Identity
import GraphqlStore.Pass.Pagination
import GraphqlStore.Proofs.Typing

/-!
What a completion does: a name that is taken is reported and nothing changes, a
field that is selected under its own name has the selections below it
completed, and any other is appended. From these three cases follows that
completion tells whether it changed anything, that it keeps selections typed,
and that nothing else is read off them afterwards.
-/

set_option autoImplicit false

namespace GraphqlStore

/-- Some field right in the list is selected under its own name. -/
def Answered (name : String) (items : List Selection) : Prop :=
  ∃ head below, Selection.field head below ∈ items ∧ head.answers name = true

theorem Field.answers_iff {field : Field} {name : String} :
    field.answers name = true ↔ field.name = name ∧ field.responseName = name := by
  simp [Field.answers]

@[simp]
theorem Field.name_plain (name : String) (position : Position) :
    (Field.plain name position).name = name := rfl

theorem Field.answers_plain (name : String) (position : Position) :
    (Field.plain name position).answers name = true := by
  simp [Field.answers, Field.plain, Field.responseName]

theorem answered_cons {name : String} {selection : Selection} {rest : List Selection} :
    Answered name (selection :: rest) ↔ Answered name [selection] ∨ Answered name rest := by
  simp only [Answered, List.mem_cons, List.not_mem_nil, or_false]
  grind

theorem taking?_eq_none_iff {name : String} {items : List Selection} :
    taking? name items = none ↔ ∀ item ∈ items, item.taking? name = none := by
  induction items with
  | nil => simp [taking?]
  | cons item rest ih => simp [taking?, ih]

/-! ## The three cases -/

theorem completeFirst?_eq_none_iff {name : String} {below : Completer} {items : List Selection} :
    completeFirst? name below items = none ↔ ¬ Answered name items := by
  induction items with
  | nil => simp [completeFirst?, Answered]
  | cons selection rest ih =>
      cases selection with
      | field head inner =>
          by_cases selected : head.answers name = true
          · simp only [completeFirst?, selected, if_true, reduceCtorEq, false_iff]
            exact fun unanswered => unanswered ⟨head, inner, List.mem_cons_self, selected⟩
          · simp only [completeFirst?, selected, Bool.false_eq_true, if_false, Option.map_eq_none_iff, ih]
            rw [answered_cons]
            simp [Answered, selected]
      | spread head =>
          simp only [completeFirst?, Option.map_eq_none_iff, ih]
          rw [answered_cons]
          simp [Answered]
      | inline head inner =>
          simp only [completeFirst?, Option.map_eq_none_iff, ih]
          rw [answered_cons]
          simp [Answered]

private theorem completeFirst?_eq_some {name : String} {below : Completer} {items : List Selection}
    {completed : Completed} (found : completeFirst? name below items = some completed) :
    ∃ before head inner after, items = before ++ .field head inner :: after ∧
      ¬ Answered name before ∧ head.answers name = true ∧
      completed = ⟨before ++ .field head (below head.opening inner).items :: after,
        (below head.opening inner).faults, (below head.opening inner).changed⟩ := by
  induction items generalizing completed with
  | nil => simp [completeFirst?] at found
  | cons selection rest ih =>
      have later {inner : Completed} (other : ¬ Answered name [selection])
          (found : completeFirst? name below rest = some inner) :
          ∃ before head items after, selection :: rest = before ++ .field head items :: after ∧
            ¬ Answered name before ∧ head.answers name = true ∧
            inner.cons selection [] false =
              ⟨before ++ .field head (below head.opening items).items :: after,
                (below head.opening items).faults, (below head.opening items).changed⟩ := by
        obtain ⟨before, head, items, after, split, unanswered, answers, rfl⟩ := ih found
        refine ⟨selection :: before, head, items, after, by rw [split, List.cons_append], ?_, answers, rfl⟩
        rw [answered_cons, not_or]
        exact ⟨other, unanswered⟩
      cases selection with
      | field head items =>
          by_cases selected : head.answers name = true
          · simp only [completeFirst?, selected, if_true, Option.some.injEq] at found
            exact ⟨[], head, items, rest, rfl, by simp [Answered], selected, found.symm⟩
          · simp only [completeFirst?, selected, Bool.false_eq_true, if_false,
              Option.map_eq_some_iff] at found
            obtain ⟨inner, found, rfl⟩ := found
            exact later (by simp [Answered, selected]) found
      | spread head =>
          simp only [completeFirst?, Option.map_eq_some_iff] at found
          obtain ⟨inner, found, rfl⟩ := found
          exact later (by simp [Answered]) found
      | inline head items =>
          simp only [completeFirst?, Option.map_eq_some_iff] at found
          obtain ⟨inner, found, rfl⟩ := found
          exact later (by simp [Answered]) found

theorem completeFirst?_append_field {name : String} {below : Completer} {before : List Selection}
    (unanswered : ¬ Answered name before) {head : Field} (answers : head.answers name = true)
    (inner after : List Selection) :
    completeFirst? name below (before ++ .field head inner :: after) =
      some ⟨before ++ .field head (below head.opening inner).items :: after,
        (below head.opening inner).faults, (below head.opening inner).changed⟩ := by
  induction before with
  | nil => simp [completeFirst?, answers]
  | cons selection rest ih =>
      rw [answered_cons, not_or] at unanswered
      cases selection with
      | field other items =>
          have skipped : other.answers name ≠ true := by simpa [Answered] using unanswered.1
          simp [completeFirst?, skipped, ih unanswered.2, Completed.cons]
      | spread other => simp [completeFirst?, ih unanswered.2, Completed.cons]
      | inline other items => simp [completeFirst?, ih unanswered.2, Completed.cons]

theorem ensureField_cases (report : String → Field → Fault) (name : String) (below : Completer)
    (opening : Position) (items : List Selection) :
    (∃ other, taking? name items = some other ∧
      ensureField report name below opening items = ⟨items, [report name other], false⟩) ∨
    (taking? name items = none ∧ ∃ before head inner after,
      items = before ++ .field head inner :: after ∧ ¬ Answered name before ∧
      head.answers name = true ∧
      ensureField report name below opening items =
        ⟨before ++ .field head (below head.opening inner).items :: after,
          (below head.opening inner).faults, (below head.opening inner).changed⟩) ∨
    (taking? name items = none ∧ ¬ Answered name items ∧
      ensureField report name below opening items =
        ⟨items ++ [.field (Field.plain name opening) (below opening []).items],
          (below opening []).faults, true⟩) := by
  unfold ensureField
  cases taken : taking? name items with
  | some other => exact .inl ⟨other, rfl, rfl⟩
  | none =>
      cases found : completeFirst? name below items with
      | some completed =>
          exact .inr (.inl ⟨rfl, completeFirst?_eq_some found⟩)
      | none => exact .inr (.inr ⟨rfl, completeFirst?_eq_none_iff.1 found, rfl⟩)

/-! ## Changes -/

/-- A completion that reports no change has made none. -/
def Completed.Truthful (items : List Selection) (done : Completed) : Prop :=
  done.changed = false → done.items = items

theorem Completed.truthful_keep (items : List Selection) : (Completed.keep items).Truthful items :=
  fun _ => rfl

theorem Completed.Truthful.andThen {items : List Selection} {done : Completed}
    {next : List Selection → Completed} (first : done.Truthful items)
    (second : ∀ middle, (next middle).Truthful middle) : (done.andThen next).Truthful items := by
  intro unchanged
  simp only [Completed.andThen, Bool.or_eq_false_iff] at unchanged
  exact (second _ unchanged.2).trans (first unchanged.1)

theorem ensureField_truthful (report : String → Field → Fault) (name : String) {below : Completer}
    (inner : ∀ opening items, (below opening items).Truthful items) (opening : Position)
    (items : List Selection) : (ensureField report name below opening items).Truthful items := by
  intro unchanged
  rcases ensureField_cases report name below opening items with
    ⟨other, _, same⟩ | ⟨_, before, head, items, after, rfl, _, _, same⟩ | ⟨_, _, same⟩
  · rw [same]
  · rw [same] at unchanged ⊢
    rw [inner head.opening items unchanged]
  · rw [same] at unchanged
    cases unchanged

theorem ensurePlain_truthful (report : String → Field → Fault) (name : String) (opening : Position)
    (items : List Selection) : (ensurePlain report name opening items).Truthful items :=
  ensureField_truthful report name (fun _ items => Completed.truthful_keep items) opening items

theorem truthful_foldl {names : List String} {step : String → List Selection → Completed}
    (each : ∀ name items, (step name items).Truthful items) {items : List Selection}
    {start : Completed} (truthful : start.Truthful items) :
    (names.foldl (fun done name => done.andThen (step name)) start).Truthful items := by
  induction names generalizing start with
  | nil => exact truthful
  | cons name rest ih => exact ih (truthful.andThen (each name))

theorem ensureAll_truthful (report : String → Field → Fault) (names : List String)
    (opening : Position) (items : List Selection) :
    (ensureAll report names opening items).Truthful items :=
  truthful_foldl (fun name items => ensurePlain_truthful report name opening items)
    (Completed.truthful_keep items)

/-! ## Typing, and what is read off selections -/

/-- What is read off selections on a type, one after the other. Of the selections below a field or
in an inline fragment only that matters which is read off them, and a field that is added gives
nothing by itself. -/
structure SelectionView (schema : Schema) (β : Type) where
  read : String → Selection → List β
  field : ∀ {parent : String} {head : Field} {found : FieldRef} {items others : List Selection},
    schema.field? parent head.name = some found →
    items.flatMap (read found.typeName) = others.flatMap (read found.typeName) →
    read parent (.field head items) = read parent (.field head others)
  plain : ∀ {parent name : String} {position : Position} {found : FieldRef} {items : List Selection},
    schema.field? parent name = some found → items.flatMap (read found.typeName) = [] →
    read parent (.field (Field.plain name position) items) = []
  inline : ∀ {parent : String} {head : InlineFragment} {items others : List Selection},
    items.flatMap (read (head.typeWithin parent)) = others.flatMap (read (head.typeWithin parent)) →
    read parent (.inline head items) = read parent (.inline head others)

def SelectionView.of {schema : Schema} {β : Type} (view : SelectionView schema β) (parent : String)
    (items : List Selection) : List β :=
  items.flatMap (view.read parent)

variable {schema : Schema} {allowed : String → Prop} {β : Type} {view : SelectionView schema β}

theorem SelectionView.of_append (parent : String) (first second : List Selection) :
    view.of parent (first ++ second) = view.of parent first ++ view.of parent second :=
  List.flatMap_append

theorem SelectionView.of_cons (parent : String) (selection : Selection) (rest : List Selection) :
    view.of parent (selection :: rest) = view.read parent selection ++ view.of parent rest :=
  List.flatMap_cons

theorem typed_nil {parent : String} : Typed schema allowed parent [] :=
  List.forall_mem_nil _

theorem typed_append {parent : String} {first second : List Selection} :
    Typed schema allowed parent (first ++ second) ↔
      Typed schema allowed parent first ∧ Typed schema allowed parent second :=
  List.forall_mem_append

theorem typed_cons {parent : String} {selection : Selection} {rest : List Selection} :
    Typed schema allowed parent (selection :: rest) ↔
      selection.Typed schema allowed parent ∧ Typed schema allowed parent rest :=
  List.forall_mem_cons

/-- Selections that are typed and of which the same is read as of others. -/
structure Keeps (allowed : String → Prop) (view : SelectionView schema β) (type : String)
    (before after : List Selection) : Prop where
  typed : Typed schema allowed type after
  same : view.of type after = view.of type before

theorem Keeps.refl {type : String} {items : List Selection} (typed : Typed schema allowed type items) :
    Keeps allowed view type items items :=
  ⟨typed, rfl⟩

theorem Keeps.trans {type : String} {before middle after : List Selection}
    (first : Keeps allowed view type before middle) (second : Keeps allowed view type middle after) :
    Keeps allowed view type before after :=
  ⟨second.typed, second.same.trans first.same⟩

theorem Keeps.cons {type : String} {selection other : Selection} {rest others : List Selection}
    (first : other.Typed schema allowed type) (read : view.read type other = view.read type selection)
    (second : Keeps allowed view type rest others) :
    Keeps allowed view type (selection :: rest) (other :: others) := by
  refine ⟨typed_cons.2 ⟨first, second.typed⟩, ?_⟩
  rw [SelectionView.of_cons, SelectionView.of_cons, read, second.same]

/-- Completers that keep typed selections on a type, and add to none only if the type is
composite. -/
structure KeepsTyped (allowed : String → Prop) (view : SelectionView schema β) (type : String)
    (completer : Completer) : Prop where
  keeps : ∀ opening items, Typed schema allowed type items →
    Keeps allowed view type items (completer opening items).items
  selected : ∀ opening, (completer opening []).items ≠ [] → schema.isComposite type = true

theorem KeepsTyped.composite {type : String} {completer : Completer}
    (keeps : KeepsTyped allowed view type completer) (opening : Position) {items : List Selection}
    (selected : items ≠ [] → schema.isComposite type = true)
    (added : (completer opening items).items ≠ []) : schema.isComposite type = true := by
  by_cases empty : items = []
  · subst empty
    exact keeps.selected opening added
  · exact selected empty

private theorem keepsTyped_keep (type : String) :
    KeepsTyped allowed view type fun _ items => .keep items :=
  ⟨fun _ _ typed => .refl typed, fun _ selected => absurd rfl selected⟩

theorem ensureField_keeps (report : String → Field → Fault) {type name : String} {found : FieldRef}
    (resolved : schema.field? type name = some found) {below : Completer}
    (keeps : KeepsTyped allowed view found.typeName below) (opening : Position)
    {items : List Selection} (typed : Typed schema allowed type items) :
    Keeps allowed view type items (ensureField report name below opening items).items := by
  rcases ensureField_cases report name below opening items with
    ⟨other, _, same⟩ | ⟨_, before, head, inner, after, rfl, _, answers, same⟩ | ⟨_, _, same⟩
  · rw [same]
    exact .refl typed
  · have resolvedHead : schema.field? type head.name = some found := by
      rw [(Field.answers_iff.1 answers).1, resolved]
    rw [typed_append, typed_cons] at typed
    obtain ⟨typedBefore, typedField, typedAfter⟩ := typed
    cases typedField with
    | @field _ _ _ other otherResolved arguments selected inside =>
        obtain rfl : found = other := Option.some.inj (resolvedHead.symm.trans otherResolved)
        have kept := keeps.keeps head.opening inner inside
        rw [same]
        refine ⟨typed_append.2 ⟨typedBefore, typed_cons.2 ⟨?_, typedAfter⟩⟩, ?_⟩
        · exact .field resolvedHead arguments (keeps.composite head.opening selected) kept.typed
        · rw [SelectionView.of_append, SelectionView.of_append, SelectionView.of_cons,
            SelectionView.of_cons, view.field resolvedHead kept.same]
  · have kept := keeps.keeps opening [] typed_nil
    have plain : (Selection.field (Field.plain name opening) (below opening []).items).Typed schema
        allowed type :=
      .field resolved (by simp [Field.plain]) (keeps.selected opening) kept.typed
    rw [same]
    refine ⟨typed_append.2 ⟨typed, typed_cons.2 ⟨plain, typed_nil⟩⟩, ?_⟩
    rw [SelectionView.of_append, SelectionView.of_cons, view.plain resolved kept.same]
    exact List.append_nil _

theorem ensurePlain_keeps (report : String → Field → Fault) {type name : String} {found : FieldRef}
    (resolved : schema.field? type name = some found) (opening : Position)
    {items : List Selection} (typed : Typed schema allowed type items) :
    Keeps allowed view type items (ensurePlain report name opening items).items :=
  ensureField_keeps report resolved (keepsTyped_keep _) opening typed

theorem keeps_foldl {type : String} {names : List String} {step : String → List Selection → Completed}
    (each : ∀ name ∈ names, ∀ items, Typed schema allowed type items →
      Keeps allowed view type items (step name items).items)
    {items : List Selection} {start : Completed} (kept : Keeps allowed view type items start.items) :
    Keeps allowed view type items
      (names.foldl (fun done name => done.andThen (step name)) start).items := by
  induction names generalizing start with
  | nil => exact kept
  | cons name rest ih =>
      exact ih (fun other later => each other (List.mem_cons_of_mem _ later))
        (kept.trans (each name List.mem_cons_self _ kept.typed))

theorem ensureAll_keepsTyped (report : String → Field → Fault) {type : String} {names : List String}
    (resolved : ∀ name ∈ names, ∃ found, schema.field? type name = some found)
    (composite : names ≠ [] → schema.isComposite type = true) :
    KeepsTyped allowed view type (ensureAll report names) := by
  refine ⟨fun opening items typed => ?_, fun opening added => ?_⟩
  · refine keeps_foldl (fun name member items typed => ?_) (.refl typed)
    obtain ⟨found, declared⟩ := resolved name member
    exact ensurePlain_keeps report declared opening typed
  · refine composite fun none => added ?_
    rw [none]
    rfl

end GraphqlStore
