import GraphqlStore.Document.Completion
import GraphqlStore.Document.Visit
import GraphqlStore.Pagination.Connection

/-!
Pagination: a document marks at most one field as read page by page. If pages
are told apart by cursors, the cursors are selected.
-/

set_option autoImplicit false

namespace GraphqlStore

namespace PaginationCompletion

/-- What is wrong with a paginated field. -/
inductive Issue where
  | several
  | operation (kind : DocumentKind)
  | mode (reason : PaginationError)
  | noConnection (field type : String)
  | noRefetch (type : String)
  | taken (name : String) (other : Field)

namespace Issue

def message : Issue → String
  | .several => "a document can contain at most one @paginate field"
  | .operation kind => "@paginate cannot be used in a " ++ kind.text
  | .mode reason => reason.message
  | .noConnection field type =>
      "cursor pagination on \"" ++ field ++ "\" requires a connection type, found \"" ++ type ++ "\""
  | .noRefetch type => Pagination.noRefetch type
  | .taken name other =>
      "response name \"" ++ name ++ "\" is needed for pagination but selects \"" ++ other.name ++ "\""

def hint : Issue → Option String
  | .several => some "split the paginated selections into separate documents"
  | .noConnection _ _ => some "connections select edges \x7b node \x7d and pageInfo"
  | .noRefetch type => some ("set types." ++ type ++ ".resolve.queryField in the config")
  | _ => none

def fault (position : Position) (issue : Issue) : Fault := ⟨issue.message, some position, issue.hint⟩

end Issue

/-! ## Completion -/

/-- What is selected below a paginated field. -/
structure Plan where
  pageInfo : List String
  edgeCursor : Bool
deriving DecidableEq, Repr

/-- What a connection has to select, as far as its types declare it. -/
def Plan.ofConnection (schema : Schema) (connection : String) : Plan :=
  let pageInfo := match Pagination.fieldType? schema connection "pageInfo" with
    | some type => Pagination.pageInfoFields.filter fun name => (type.field? name).isSome
    | none => []
  let edgeCursor := (Pagination.fieldType? schema connection "edges").any fun edge =>
    (edge.field? "cursor").isSome
  ⟨pageInfo, edgeCursor⟩

def report (name : String) (other : Field) : Fault := (Issue.taken name other).fault other.position

/-- Selects what the plan asks for below a paginated field. -/
def Plan.apply (plan : Plan) : Completer := fun opening items =>
  (ensureField report "pageInfo" (ensureAll report plan.pageInfo) opening items).andThen fun rest =>
    if plan.edgeCursor then ensureField report "edges" (ensureAll report ["cursor"]) opening rest
    else .keep rest

mutual
def selectionCount : Selection → Nat
  | .field head items => (if head.isPaginated then 1 else 0) + count items
  | .spread _ => 0
  | .inline _ items => count items

def count : List Selection → Nat
  | [] => 0
  | selection :: rest => selectionCount selection + count rest
end

theorem count_append (first second : List Selection) :
    count (first ++ second) = count first + count second := by
  induction first with
  | nil => simp [count]
  | cons selection rest ih => simp [count, ih]; omega

mutual
/-- How many selections a selection is, itself and those below. -/
def selectionSize : Selection → Nat
  | .field _ items => size items + 1
  | .spread _ => 1
  | .inline _ items => size items + 1

def size : List Selection → Nat
  | [] => 0
  | selection :: rest => selectionSize selection + size rest
end

theorem size_append (first second : List Selection) :
    size (first ++ second) = size first + size second := by
  induction first with
  | nil => simp [size]
  | cons selection rest ih => simp [size, ih]; omega

/-- Completers that add a bounded number of fields, none of them a paginated one. -/
structure Adds (bound : Nat) (completer : Completer) : Prop where
  count : ∀ opening items, count (completer opening items).items = count items
  size : ∀ opening items, size (completer opening items).items ≤ size items + bound

theorem isPaginated_plain (name : String) (position : Position) :
    (Field.plain name position).isPaginated = false := rfl

theorem completeFirst?_adds {bound : Nat} {name : String} {below : Completer}
    (adds : Adds bound below) {items : List Selection} {completed : Completed}
    (found : completeFirst? name below items = some completed) :
    count completed.items = count items ∧ size completed.items ≤ size items + bound := by
  induction items generalizing completed with
  | nil => simp [completeFirst?] at found
  | cons selection rest ih =>
      have later {inner : Completed} (some : completeFirst? name below rest = some inner) :
          count (inner.cons selection [] false).items = count (selection :: rest) ∧
            size (inner.cons selection [] false).items ≤ size (selection :: rest) + bound := by
        obtain ⟨counts, sizes⟩ := ih some
        simp only [Completed.cons, count, size, counts, true_and]
        omega
      cases selection with
      | field head items =>
          by_cases selected : head.answers name
          · simp only [completeFirst?, selected, if_true, Option.some.injEq] at found
            subst found
            have sizes := adds.size head.opening items
            simp only [count, selectionCount, adds.count head.opening items, size, selectionSize,
              true_and]
            omega
          · simp only [completeFirst?, selected, Bool.false_eq_true, if_false,
              Option.map_eq_some_iff] at found
            obtain ⟨inner, some, rfl⟩ := found
            exact later some
      | spread head =>
          simp only [completeFirst?, Option.map_eq_some_iff] at found
          obtain ⟨inner, some, rfl⟩ := found
          exact later some
      | inline head items =>
          simp only [completeFirst?, Option.map_eq_some_iff] at found
          obtain ⟨inner, some, rfl⟩ := found
          exact later some

theorem ensureField_adds {bound : Nat} (report : String → Field → Fault) (name : String)
    {below : Completer} (adds : Adds bound below) :
    Adds (bound + 1) (ensureField report name below) := by
  have both : ∀ opening items,
      count (ensureField report name below opening items).items = count items ∧
        size (ensureField report name below opening items).items ≤ size items + (bound + 1) := by
    intro opening items
    unfold ensureField
    split
    · exact ⟨rfl, Nat.le_add_right _ _⟩
    · split
      · rename_i completed found
        obtain ⟨counts, sizes⟩ := completeFirst?_adds adds found
        exact ⟨counts, by omega⟩
      · have counts := adds.count opening []
        have sizes := adds.size opening []
        simp only [count, size] at counts sizes
        simp only [count_append, count, selectionCount, isPaginated_plain, Bool.false_eq_true,
          if_false, counts, size_append, size, selectionSize]
        omega
  exact ⟨fun opening items => (both opening items).1, fun opening items => (both opening items).2⟩

theorem andThen_adds {first second : Nat} {completer next : Completer} (adds : Adds first completer)
    (addsNext : Adds second next) :
    Adds (first + second) fun opening items => (completer opening items).andThen (next opening) := by
  refine ⟨fun opening items => ?_, fun opening items => ?_⟩
  · exact (addsNext.count opening _).trans (adds.count opening items)
  · have one := adds.size opening items
    have two := addsNext.size opening (completer opening items).items
    simp only [Completed.andThen]
    omega

theorem keep_adds : Adds 0 fun _ items => .keep items :=
  ⟨fun _ _ => rfl, fun _ _ => Nat.le_refl _⟩

theorem ensureAll_adds (report : String → Field → Fault) (names : List String) :
    Adds names.length (ensureAll report names) := by
  have fold : ∀ (names : List String) (bound : Nat) (start : Completer), Adds bound start →
      Adds (bound + names.length) fun opening items =>
        names.foldl (fun done name => done.andThen (ensurePlain report name opening))
          (start opening items) := by
    intro names
    induction names with
    | nil => intro bound start adds; exact adds
    | cons name rest ih =>
        intro bound start adds
        have plain : Adds 1 (ensurePlain report name) := ensureField_adds report name keep_adds
        have both := ih (bound + 1) _ (andThen_adds adds plain)
        rwa [Nat.add_assoc, Nat.add_comm 1] at both
  have all := fold names 0 _ keep_adds
  rw [Nat.zero_add] at all
  exact all

/-- How many fields a plan adds at most: the two fields of a connection, what tells where a page
ends, and the cursor. -/
def Plan.bound (plan : Plan) : Nat := plan.pageInfo.length + 3

theorem Plan.apply_adds (plan : Plan) : Adds plan.bound plan.apply := by
  have pageInfo := ensureField_adds report "pageInfo" (ensureAll_adds report plan.pageInfo)
  have edges := ensureField_adds report "edges" (ensureAll_adds report ["cursor"])
  have rest : Adds 2 fun opening items =>
      if plan.edgeCursor then ensureField report "edges" (ensureAll report ["cursor"]) opening items
      else .keep items := by
    by_cases cursor : plan.edgeCursor
    · simp only [cursor, if_true]
      exact edges
    · simp only [cursor, Bool.false_eq_true, if_false]
      exact ⟨fun _ _ => rfl, fun _ _ => Nat.le_add_right _ _⟩
  have both := andThen_adds pageInfo rest
  rw [Nat.add_assoc] at both
  exact both

/-- What is selected below a field before its own selections are completed. -/
def Plan.applyTo (plan : Plan) (head : Field) (items : List Selection) : Completed :=
  if head.isPaginated then plan.apply head.opening items else .keep items

/-- How much there is to complete: a paginated field counts for more than a plan adds. -/
def Plan.load (plan : Plan) (items : List Selection) : Nat := count items * plan.bound + size items

/-- Completing a field leaves less to complete below it. -/
theorem Plan.load_applyTo_lt (plan : Plan) (head : Field) (items rest : List Selection) :
    plan.load (plan.applyTo head items).items < plan.load (.field head items :: rest) := by
  by_cases marked : head.isPaginated
  · have counts := plan.apply_adds.count head.opening items
    have sizes := plan.apply_adds.size head.opening items
    simp only [Plan.load, Plan.applyTo, marked, if_true, counts, count, selectionCount, size,
      selectionSize, Nat.add_mul, Nat.one_mul]
    omega
  · simp only [Plan.load, Plan.applyTo, marked, Bool.false_eq_true, if_false, Completed.keep, count,
      selectionCount, size, selectionSize, Nat.add_mul, Nat.zero_mul]
    omega

/-- Completes every paginated field, one around others before those. -/
def completeFields (plan : Plan) : List Selection → Completed
  | [] => .keep []
  | .field head items :: rest =>
      let applied := plan.applyTo head items
      let below := completeFields plan applied.items
      .cons (.field head below.items) (applied.faults ++ below.faults)
        (applied.changed || below.changed) (completeFields plan rest)
  | .spread head :: rest => .cons (.spread head) [] false (completeFields plan rest)
  | .inline head items :: rest =>
      let below := completeFields plan items
      .cons (.inline head below.items) below.faults below.changed (completeFields plan rest)
termination_by items => plan.load items
decreasing_by
  · exact plan.load_applyTo_lt head items rest
  · simp only [Plan.load, count, size, selectionSize, Nat.add_mul]
    omega
  · simp only [Plan.load, count, size, selectionSize, Nat.add_mul]
    omega
  · simp only [Plan.load, count, selectionCount, size, selectionSize, Nat.add_mul]
    omega
  · simp only [Plan.load, count, size, selectionSize, Nat.add_mul]
    omega

/-! ## Checks -/

/-- The paginated field of a visit, and its declaration. -/
def paginated? : Visit → Option (Field × Option FieldDef)
  | .field _ head _ found _ =>
      if head.isPaginated then
        some (head, match found with
          | some (.declared declared) => some declared
          | _ => none)
      else none
  | _ => none

/-- What is wrong if the paginated field is in a fragment whose values cannot be fetched again. -/
def refetchIssues (config : Config) (document : Document) : List Issue :=
  match document.definition? with
  | some (.fragment declared) =>
      if (Pagination.refetch? config declared.condition).isSome then []
      else [.noRefetch declared.condition]
  | _ => []

/-- What is wrong with the paginated field of a document, and what has to be selected below. -/
def checkField (config : Config) (document : Document) (head : Field) (declared : FieldDef) :
    List Issue × Option Plan :=
  match Pagination.fieldMode declared head with
  | .error reason => ([.mode reason], none)
  | .ok (mode, _) =>
      let target := declared.type.base
      if mode.isCursor then
        if Pagination.isConnection config.schema target then
          (refetchIssues config document, some (.ofConnection config.schema target))
        else ([.noConnection declared.name target], none)
      else (refetchIssues config document, none)

/-- What is wrong with the first paginated field of a document. -/
def checkFirst (config : Config) (document : Document) (head : Field) (declared : Option FieldDef) :
    List Issue × Option Plan :=
  match document.kind, declared with
  | .operation .mutation, _ => ([.operation document.kind], none)
  | .operation .subscription, _ => ([.operation document.kind], none)
  | _, none => ([], none)
  | _, some declared => checkField config document head declared

/-- What is wrong with the paginated fields of a document, and what has to be selected below. -/
def check (config : Config) (document : Document) : List Fault × Option Plan :=
  match ((document.visits? config.schema).getD []).filterMap paginated? with
  | [] => ([], none)
  | (head, declared) :: others =>
      let several := match others with
        | (second, _) :: _ => [Issue.fault second.position .several]
        | [] => []
      let (issues, plan) := checkFirst config document head declared
      (several ++ issues.map (Issue.fault head.position), plan)

/-- A document with its cursors selected, and what is wrong with its pagination. -/
def step (config : Config) (document : Document) : Document × List Diagnostic :=
  match check config document with
  | (faults, none) => (document, document.reports faults)
  | (faults, some plan) =>
      let done := ExecutableDocument.complete
        (fun selections => completeFields plan selections.items) document.working
      (document.revise done.definitions done.changed, document.reports (faults ++ done.faults))

end PaginationCompletion

/-- Paginated fields are well formed, and their cursors are selected. -/
def Pass.paginationArguments : Pass :=
  .revising "pagination_arguments" fun context => PaginationCompletion.step context.config

end GraphqlStore
