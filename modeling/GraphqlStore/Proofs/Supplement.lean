import GraphqlStore.Proofs.Completion

/-!
What completion does to selections: it adds plain fields, at any depth, and
leaves everything else as it is. The relation tells on which type a field is
added, so that it can say which fields may be added where. What does not read
plain fields is the same before and after, such as spreads and variables.
-/

set_option autoImplicit false

namespace GraphqlStore

/-- The type on which the selections below a declared field are made. Below any other field it is
left open. -/
def Schema.typeBelow (schema : Schema) (parent name : String) : String :=
  match schema.field? parent name with
  | some (.declared declared) => declared.type.base
  | _ => parent

/-- The second selections are the first ones, made on a type, with plain fields added to them that
may be supplied there. -/
inductive Supplemented (schema : Schema) (supplied : String → String → Prop) :
    String → List Selection → List Selection → Prop where
  | nil {parent : String} : Supplemented schema supplied parent [] []
  | field {parent : String} {head : Field} {items others rest more : List Selection} :
      Supplemented schema supplied (schema.typeBelow parent head.name) items others →
      Supplemented schema supplied parent rest more →
      Supplemented schema supplied parent (.field head items :: rest) (.field head others :: more)
  | spread {parent : String} {head : Spread} {rest more : List Selection} :
      Supplemented schema supplied parent rest more →
      Supplemented schema supplied parent (.spread head :: rest) (.spread head :: more)
  | inline {parent : String} {head : InlineFragment} {items others rest more : List Selection} :
      Supplemented schema supplied (head.typeWithin parent) items others →
      Supplemented schema supplied parent rest more →
      Supplemented schema supplied parent (.inline head items :: rest) (.inline head others :: more)
  | plain {parent name : String} {position : Position} {items rest more : List Selection} :
      supplied parent name → Supplemented schema supplied (schema.typeBelow parent name) [] items →
      Supplemented schema supplied parent rest more →
      Supplemented schema supplied parent rest (.field (Field.plain name position) items :: more)

namespace Supplemented

variable {schema : Schema} {supplied : String → String → Prop} {parent : String}
  {items middle others : List Selection}

theorem append {rest more : List Selection}
    (first : Supplemented schema supplied parent items others)
    (second : Supplemented schema supplied parent rest more) :
    Supplemented schema supplied parent (items ++ rest) (others ++ more) := by
  induction first with
  | nil => exact second
  | field below _ _ ih => exact .field below (ih second)
  | spread _ ih => exact .spread (ih second)
  | inline within _ _ ih => exact .inline within (ih second)
  | plain given below _ _ ih => exact .plain given below (ih second)

theorem of_forall (each : ∀ item ∈ items, Supplemented schema supplied parent [item] [item]) :
    Supplemented schema supplied parent items items := by
  induction items with
  | nil => exact .nil
  | cons item rest ih =>
      rw [List.forall_mem_cons] at each
      exact each.1.append (ih each.2)

theorem single (parent : String) (selection : Selection) :
    Supplemented schema supplied parent [selection] [selection] := by
  induction selection generalizing parent with
  | field head items ih => exact .field (of_forall fun item member => ih item member _) .nil
  | spread head => exact .spread .nil
  | inline head items ih => exact .inline (of_forall fun item member => ih item member _) .nil

theorem refl (parent : String) (items : List Selection) :
    Supplemented schema supplied parent items items :=
  of_forall fun item _ => single parent item

theorem trans (first : Supplemented schema supplied parent items middle)
    (second : Supplemented schema supplied parent middle others) :
    Supplemented schema supplied parent items others := by
  induction second generalizing items with
  | nil => exact first
  | field below _ ihBelow ihRest =>
      cases first with
      | field within rest => exact .field (ihBelow within) (ihRest rest)
      | plain given within rest => exact .plain given (ihBelow within) (ihRest rest)
  | spread _ ih =>
      cases first with
      | spread rest => exact .spread (ih rest)
  | inline _ _ ihWithin ihRest =>
      cases first with
      | inline within rest => exact .inline (ihWithin within) (ihRest rest)
  | plain given below _ _ ih => exact .plain given below (ih first)

theorem spreadNames_eq (supplemented : Supplemented schema supplied parent items others) :
    spreadNames others = spreadNames items := by
  induction supplemented with
  | nil => rfl
  | field _ _ ihBelow ihRest =>
      rw [spreadNames, spreadNames, Selection.spreads, Selection.spreads, ihBelow, ihRest]
  | spread _ ih => rw [spreadNames, spreadNames, ih]
  | inline _ _ ihWithin ihRest =>
      rw [spreadNames, spreadNames, Selection.spreads, Selection.spreads, ihWithin, ihRest]
  | plain _ _ _ ihBelow ihRest =>
      rw [spreadNames, Selection.spreads, ihBelow, ihRest]
      rfl

theorem selectionVariables_eq (supplemented : Supplemented schema supplied parent items others) :
    selectionVariables others = selectionVariables items := by
  induction supplemented with
  | nil => rfl
  | field _ _ ihBelow ihRest =>
      rw [selectionVariables, selectionVariables, Selection.variableNames, Selection.variableNames,
        ihBelow, ihRest]
  | spread _ ih => rw [selectionVariables, selectionVariables, ih]
  | inline _ _ ihWithin ihRest =>
      rw [selectionVariables, selectionVariables, Selection.variableNames, Selection.variableNames,
        ihWithin, ihRest]
  | plain _ _ _ ihBelow ihRest =>
      rw [selectionVariables, Selection.variableNames, ihBelow, ihRest]
      rfl

end Supplemented

/-! ## Completion -/

section Completion

variable {schema : Schema} {supplied : String → String → Prop} {parent : String}

/-- Selecting a field that may be supplied adds plain fields only, if completing below it does. -/
theorem ensureField_supplements (report : String → Field → Fault) {name : String}
    (given : supplied parent name) {below : Completer}
    (inner : ∀ opening items,
      Supplemented schema supplied (schema.typeBelow parent name) items (below opening items).items)
    (opening : Position) (items : List Selection) :
    Supplemented schema supplied parent items (ensureField report name below opening items).items := by
  rcases ensureField_cases report name below opening items with
    ⟨other, _, same⟩ | ⟨_, before, head, items, after, rfl, _, answers, same⟩ | ⟨_, _, same⟩
  · rw [same]
    exact .refl parent items
  · have named : head.name = name := (Field.answers_iff.1 answers).1
    rw [same]
    refine (Supplemented.refl parent before).append (.field ?_ (.refl parent after))
    rw [named]
    exact inner head.opening items
  · have added : Supplemented schema supplied parent []
        [.field (Field.plain name opening) (below opening []).items] :=
      .plain given (inner opening []) .nil
    rw [same]
    simpa using (Supplemented.refl parent items).append added

theorem ensurePlain_supplements (report : String → Field → Fault) {name : String}
    (given : supplied parent name) (opening : Position) (items : List Selection) :
    Supplemented schema supplied parent items (ensurePlain report name opening items).items :=
  ensureField_supplements report given (fun _ items => .refl _ items) opening items

theorem supplemented_foldl {names : List String} {step : String → List Selection → Completed}
    (each : ∀ name ∈ names, ∀ items, Supplemented schema supplied parent items (step name items).items)
    {items : List Selection} {start : Completed}
    (done : Supplemented schema supplied parent items start.items) :
    Supplemented schema supplied parent items
      (names.foldl (fun done name => done.andThen (step name)) start).items := by
  induction names generalizing start with
  | nil => exact done
  | cons name rest ih =>
      rw [List.forall_mem_cons] at each
      exact ih each.2 (done.trans (each.1 start.items))

theorem ensureAll_supplements (report : String → Field → Fault) {names : List String}
    (given : ∀ name ∈ names, supplied parent name) (opening : Position) (items : List Selection) :
    Supplemented schema supplied parent items (ensureAll report names opening items).items :=
  supplemented_foldl
    (fun name member items => ensurePlain_supplements report (given name member) opening items)
    (.refl parent items)

end Completion

end GraphqlStore
