import GraphqlStore.Proofs.Conformance
import GraphqlStore.Proofs.IdentityOccurrence
import GraphqlStore.Proofs.MergeCheck

/-!
The law of response names after identity is completed. In the selection set to
which a name is added no other field answers to it; a field elsewhere can, and
the law is kept exactly if each such field is the one that is added.
-/

set_option autoImplicit false

namespace GraphqlStore

/-! ## Names that are taken -/

/-- A lookup for selections in which spreads are not followed. -/
def noFragments : String → Option Fragment := fun _ => none

/-- A name is not taken exactly if every field that is not below another one and answers to it has
that name. -/
theorem selection_taking?_eq_none_iff {name parent : String} {selection : Selection} :
    selection.taking? name = none ↔
      ∀ level below, selection.Brings noFragments parent level below → level.head.takes name = false := by
  induction selection generalizing parent with
  | field head items _ =>
      simp [Selection.taking?, brings_field_iff]
  | spread head =>
      refine ⟨fun _ level below brings => ?_, fun _ => rfl⟩
      cases brings with
      | spread found _ _ => cases found
  | inline head items ih =>
      simp only [Selection.taking?, taking?_eq_none_iff, brings_inline_iff]
      constructor
      · rintro free level below ⟨inner, member, brings⟩
        exact (ih inner member).1 (free inner member) level below brings
      · intro free inner member
        exact (ih inner member).2 fun level below brings => free level below ⟨inner, member, brings⟩

namespace IdentityCompletion

variable {config : Config}

/-- Where nothing is reported, no other field in a selection set answers to a name that is reserved
there. -/
theorem name_eq_of_reserved {type : String} {opened : SelectionSet}
    (silent : (complete config type opened).faults = []) {name : String}
    (reserved : name ∈ reservedNames config type) {level : Level}
    (occurs : Occurs config.schema noFragments type opened.items [] level)
    (answers : level.head.responseName = name) : level.head.name = name := by
  have parts := List.append_eq_nil_iff.1 silent
  have free := taking?_eq_none_iff.1 ((reserveAll_reserved parts.2).free name reserved)
  obtain ⟨item, member, still⟩ := (occurs_completeItems_of_forall fun item member =>
    addsTo_of_silent (forall_of_completeItems_faults parts.1 item member)).2 (.inl occurs)
  obtain ⟨below, brings⟩ := occurs_nil_iff.1 still
  have untaken := selection_taking?_eq_none_iff.1 (free item member) level below brings
  simpa [Field.takes, answers] using untaken

private theorem silent_of_selection_opens {parent type : String} {selection : Selection}
    {above : List Level}
    {opened : SelectionSet} (opens : selection.Opens config.schema parent above type opened)
    (silent : (completeSelection config parent selection).2.1 = []) :
    (complete config type opened).faults = [] := by
  have fieldSilent {parent : String} {head : Field} {items : List Selection} {declared : FieldDef}
      (resolved : config.schema.field? parent head.name = some (.declared declared))
      (selected : items ≠ []) (silent : (completeSelection config parent (.field head items)).2.1 = []) :
      (complete config declared.type.base ⟨head.opening, items⟩).faults = [] := by
    rcases completeSelection_field_cases config parent head items with
      ⟨other, otherResolved, _, same⟩ | ⟨empty, _⟩
    · cases resolved.symm.trans otherResolved
      rw [same] at silent
      exact silent
    · exact absurd (empty declared resolved) selected
  induction opens with
  | field resolved selected => exact fieldSilent resolved selected silent
  | inside resolved member _ ih =>
      have below := fieldSilent resolved (List.ne_nil_of_mem member) silent
      exact ih (forall_of_completeItems_faults (List.append_eq_nil_iff.1 below).1 _ member)
  | inline other =>
      rw [completeSelection_inline] at silent
      simpa only [if_neg other] using silent
  | @within parent type head items inner above opened member _ ih =>
      rw [completeSelection_inline] at silent
      refine ih ?_
      by_cases same : head.typeWithin parent = parent
      · rw [same]
        simp only [if_pos same] at silent
        exact forall_of_completeItems_faults silent inner member
      · simp only [if_neg same] at silent
        exact forall_of_completeItems_faults (List.append_eq_nil_iff.1 silent).1 inner member

private theorem silent_of_opens {root type : String} {selections opened : SelectionSet}
    {above : List Level} (opens : Opens config.schema root selections above type opened)
    (silent : (complete config root selections).faults = []) :
    (complete config type opened).faults = [] := by
  rcases opens with ⟨_, rfl, rfl⟩ | ⟨item, member, opens⟩
  · exact silent
  · exact silent_of_selection_opens opens
      (forall_of_completeItems_faults (List.append_eq_nil_iff.1 silent).1 item member)

/-! ## The law -/

end IdentityCompletion

theorem Level.Meets.symm {schema : Schema} {first second : Level} (meets : first.Meets schema second) :
    second.Meets schema first := by
  refine ⟨meets.name.symm, ?_⟩
  have coincide := meets.coincide
  simp only [Merge.canCoincide, Bool.or_eq_true, beq_iff_eq] at coincide ⊢
  grind

theorem Field.agrees_plain_iff {field : Field} {name : String} {position : Position} :
    field.Agrees (.plain name position) ↔ field.name = name ∧ field.arguments = [] := by
  constructor
  · intro agrees
    refine ⟨agrees.name, List.eq_nil_iff_forall_not_mem.2 fun argument member => ?_⟩
    obtain ⟨other, inPlain, _⟩ := agrees.forth argument member
    cases inPlain
  · rintro ⟨sameName, none⟩
    refine ⟨sameName, ?_, ?_⟩ <;> simp [ArgumentsWithin, none, Field.plain]

namespace IdentityCompletion

variable {config : Config} {fragments : String → Option Fragment}

theorem responseLaw_complete_iff {root : String} {selections : SelectionSet}
    (silent : (complete config root selections).faults = [])
    (law : ResponseLaw config.schema fragments root selections.items) :
    ResponseLaw config.schema fragments root (complete config root selections).items ↔
      ∀ above added, Adds config root selections above added → ∀ otherAbove other,
        Occurs config.schema fragments root selections.items otherAbove other →
        List.Forall₂ (Level.Meets config.schema) otherAbove above → other.Meets config.schema added →
        other.head.Agrees added.head := by
  constructor
  · intro kept above added adds otherAbove other occurs meetAbove meets
    exact kept otherAbove other above added ((occurs_complete silent).2 (.inl occurs))
      ((occurs_complete silent).2 (.inr adds)) meetAbove meets
  · intro apart firstAbove first secondAbove second firstOccurs secondOccurs meetAbove meets
    rw [occurs_complete silent] at firstOccurs secondOccurs
    rcases firstOccurs with firstOccurs | firstAdds <;> rcases secondOccurs with secondOccurs | secondAdds
    · exact law firstAbove first secondAbove second firstOccurs secondOccurs meetAbove meets
    · exact apart secondAbove second secondAdds firstAbove first firstOccurs meetAbove meets
    · refine (apart firstAbove first firstAdds secondAbove second secondOccurs ?_ meets.symm).symm
      exact (List.Forall₂.flip meetAbove).imp fun _ _ other => other.symm
    · obtain ⟨_, _, _, name, _, _, rfl⟩ := firstAdds
      obtain ⟨_, _, _, other, _, _, rfl⟩ := secondAdds
      exact Field.agrees_plain_iff.2 ⟨meets.name, rfl⟩

/-- A document of which nothing is reported while its identity is completed. In a selection set no
other field answers to a name that is reserved there. If the law of response names held before, it is
kept exactly if each field that meets one that is added is the same field without arguments. -/
theorem responseLaw_step_iff {document : Document} {definition : Definition}
    (defines : document.Defines definition) {root : String}
    (rooted : document.rootType? config.schema = some root)
    (silent : (step config document).2 = [])
    (law : ResponseLaw config.schema fragments root definition.selections.items) :
    ∃ completed, (step config document).1.Defines (definition.withItems completed) ∧
      (∀ above type opened, Opens config.schema root definition.selections above type opened →
        ∀ name ∈ reservedNames config type, ∀ level,
          Occurs config.schema noFragments type opened.items [] level →
          level.head.responseName = name → level.head.name = name) ∧
      (ResponseLaw config.schema fragments root completed ↔
        ∀ above type opened, Opens config.schema root definition.selections above type opened →
          ∀ name ∈ reservedNames config type, ¬ Answered name opened.items → ∀ otherAbove other,
            Occurs config.schema fragments root definition.selections.items otherAbove other →
            List.Forall₂ (Level.Meets config.schema) otherAbove above →
            other.Meets config.schema ⟨type, .plain name opened.opening⟩ →
            other.head.name = name ∧ other.head.arguments = []) := by
  obtain ⟨completes, reports⟩ := step_defines defines rooted
  have none := reports.1 silent
  refine ⟨_, completes, fun above type opened opens name reserved level =>
    name_eq_of_reserved (silent_of_opens opens none) reserved, ?_⟩
  rw [responseLaw_complete_iff none law]
  constructor
  · intro apart above type opened opens name reserved unanswered otherAbove other occurs meetAbove meets
    exact Field.agrees_plain_iff.1 (apart above _ ⟨type, opened, opens, name, reserved, unanswered, rfl⟩
      otherAbove other occurs meetAbove meets)
  · rintro apart above _ ⟨type, opened, opens, name, reserved, unanswered, rfl⟩ otherAbove other occurs
      meetAbove meets
    exact Field.agrees_plain_iff.2 (apart above type opened opens name reserved unanswered
      otherAbove other occurs meetAbove meets)

/-- An interface without a key and an implementor with one. -/
def keyed : List SchemaDefinition :=
  [.type "I" (.interface [⟨"title", .named "Int", []⟩]),
    .type "A" (.object [⟨"title", .named "Int", []⟩, ⟨"id", .named "ID", []⟩] ["I"]),
    .type "Query" (.object [⟨"i", .named "I", []⟩] [])]

def titleAs (aliasName : Option String) : Field := ⟨.start, aliasName, "title", [], [], .start⟩

/-- The title of a value behind the interface, and that of a value of the type with a key. -/
def titles (aliasName : Option String) : List Selection :=
  [.field (.plain "i" .start) [.field (titleAs aliasName) [],
    .inline ⟨.start, some "A", [], .start⟩ [.field (titleAs none) []]]]

def titleQuery (aliasName : Option String) : Definition :=
  .operation ⟨.query, .start, some "Q", [], [], ⟨.start, titles aliasName⟩⟩

def titleDocument (aliasName : Option String) : Document :=
  .ofSource "Q" (.operation .query) ⟨none, "", true, true⟩ [titleQuery aliasName]

theorem titleDocument_defines (aliasName : Option String) :
    (titleDocument aliasName).Defines (titleQuery aliasName) :=
  ⟨rfl, rfl⟩

theorem occurs_titles {schema : Schema} {found : FieldRef}
    (resolved : schema.field? "Query" "i" = some found) (type : found.typeName = "I")
    {aliasName : Option String} {above : List Level} {last : Level} :
    Occurs schema fragments "Query" (titles aliasName) above last ↔
      (above = [] ∧ last = ⟨"Query", .plain "i" .start⟩) ∨
      (above = [⟨"Query", .plain "i" .start⟩] ∧
        (last = ⟨"I", titleAs aliasName⟩ ∨ last = ⟨"A", titleAs none⟩)) := by
  simp only [Occurs, titles, List.mem_cons, List.not_mem_nil, or_false, exists_eq_left,
    occurs_field_iff, Field.name_plain, resolved, Option.some.injEq, exists_eq_or_imp, false_and,
    exists_false, and_false, ↓existsAndEq, occurs_inline_iff, InlineFragment.typeWithin, Option.getD_some,
    true_and, exists_and_left, exists_eq_left', type]
  grind

theorem responseLaw_titles {schema : Schema} {found : FieldRef}
    (resolved : schema.field? "Query" "i" = some found) (type : found.typeName = "I")
    (aliasName : Option String) : ResponseLaw schema fragments "Query" (titles aliasName) := by
  intro firstAbove first secondAbove second firstOccurs secondOccurs meetAbove _
  rw [occurs_titles resolved type] at firstOccurs secondOccurs
  have title {level : Level}
      (one : level = ⟨"I", titleAs aliasName⟩ ∨ level = ⟨"A", titleAs none⟩) :
      level.head.name = "title" ∧ level.head.arguments = [] := by
    rcases one with rfl | rfl <;> exact ⟨rfl, rfl⟩
  rcases firstOccurs with ⟨rfl, rfl⟩ | ⟨rfl, first⟩
  · rcases secondOccurs with ⟨rfl, rfl⟩ | ⟨rfl, _⟩
    · exact .refl _
    · cases meetAbove
  · rcases secondOccurs with ⟨rfl, _⟩ | ⟨rfl, second⟩
    · cases meetAbove
    · refine ⟨(title first).1.trans (title second).1.symm, ?_, ?_⟩ <;>
        simp [ArgumentsWithin, (title first).2, (title second).2]

private theorem type_of_opens_titles {schema : Schema} {declared : FieldDef}
    (resolved : schema.field? "Query" "i" = some (.declared declared))
    (base : declared.type.base = "I") {aliasName : Option String} {above : List Level} {type : String}
    {opened : SelectionSet} (opens : Opens schema "Query" ⟨.start, titles aliasName⟩ above type opened) :
    type = "Query" ∨ type = "I" ∨ type = "A" := by
  have leaf {parent : String} {head : Field} {above : List Level} :
      ¬ (Selection.field head []).Opens schema parent above type opened := by
    simp [opens_field_iff]
  rcases opens with ⟨_, rfl, _⟩ | ⟨item, member, opens⟩
  · exact .inl rfl
  · obtain rfl := List.mem_singleton.1 member
    obtain ⟨other, rest, otherResolved, _, rfl, opens⟩ := opens_field_iff.1 opens
    cases resolved.symm.trans otherResolved
    rw [base] at opens
    rcases opens with ⟨_, rfl, _⟩ | ⟨inner, inItems, opens⟩
    · exact .inr (.inl rfl)
    · rcases List.mem_pair.1 inItems with rfl | rfl
      · exact absurd opens leaf
      · rw [opens_inline_iff, if_neg (by decide)] at opens
        rcases opens with ⟨_, rfl, _⟩ | ⟨inner, inItems, opens⟩
        · exact .inr (.inr rfl)
        · obtain rfl := List.mem_singleton.1 inItems
          exact absurd opens leaf

/-- A schema in which the value is behind the interface, and of which the query gives no report. -/
def acceptsTitles (aliasName : Option String) (schema : Schema) : Bool :=
  (step (.ofSchema schema) (titleDocument aliasName)).2.isEmpty &&
    schema.root? .query == some "Query" &&
    schema.field? "Query" "i" == some (.declared ⟨"i", .named "I", []⟩)

theorem responseLaw_step_iff_titles :
    ∃ schema, Schema.ofDefinitions keyed = .ok schema ∧
      (step (.ofSchema schema) (titleDocument none)).2 = [] ∧
      ResponseLaw schema noFragments "Query" (titles none) ∧
      ∃ completed,
        (step (.ofSchema schema) (titleDocument none)).1.Defines ((titleQuery none).withItems completed) ∧
        ResponseLaw schema noFragments "Query" completed := by
  have ran : (Schema.ofDefinitions keyed).toOption.any (fun schema => acceptsTitles none schema &&
      ["Query", "I", "A"].all fun type => (reservedNames (.ofSchema schema) type).all fun name =>
        name != "i" && name != "title") = true := by
    decide +kernel
  obtain ⟨schema, built, sound⟩ := (Option.any_eq_true _ _).1 ran
  simp only [acceptsTitles, Bool.and_eq_true, List.isEmpty_iff, List.all_eq_true, bne_iff_ne,
    beq_iff_eq] at sound
  obtain ⟨⟨⟨silent, rooted⟩, resolved⟩, unreserved⟩ := sound
  have law : ResponseLaw schema noFragments "Query" (titles none) := responseLaw_titles resolved rfl none
  have rootType : (titleDocument none).rootType? (Config.ofSchema schema).schema = some "Query" := rooted
  obtain ⟨completed, completes, _, kept⟩ :=
    responseLaw_step_iff (titleDocument_defines none) rootType silent law
  refine ⟨schema, toOption_eq_some_iff.1 built, silent, law, completed, completes, kept.2 ?_⟩
  intro above type opened opens name reserved unanswered otherAbove other occurs meetAbove meets
  have apart := unreserved type (by simpa using type_of_opens_titles resolved rfl opens) name reserved
  have answers : other.head.responseName = name := meets.name
  rcases (occurs_titles resolved rfl).1 occurs with ⟨_, rfl⟩ | ⟨_, rfl | rfl⟩
  · exact absurd answers.symm apart.1
  · exact absurd answers.symm apart.2
  · exact absurd answers.symm apart.2

/-- The key is added for values of one type, beside a title that goes by its name. -/
theorem key_clashes_with_enclosing_alias :
    ∃ schema, Schema.ofDefinitions keyed = .ok schema ∧
      (step (.ofSchema schema) (titleDocument (some "id"))).2 = [] ∧
      ResponseLaw schema noFragments "Query" (titles (some "id")) ∧
      ∃ completed, (step (.ofSchema schema) (titleDocument (some "id"))).1.Defines
          ((titleQuery (some "id")).withItems completed) ∧
        ¬ ResponseLaw schema noFragments "Query" completed := by
  have ran : (Schema.ofDefinitions keyed).toOption.any (fun schema =>
      acceptsTitles (some "id") schema && Merge.canCoincide schema "I" "A" &&
        (reservedNames (.ofSchema schema) "A").contains "id") = true := by
    decide +kernel
  obtain ⟨schema, built, sound⟩ := (Option.any_eq_true _ _).1 ran
  simp only [acceptsTitles, Bool.and_eq_true, List.isEmpty_iff, List.contains_iff_mem,
    beq_iff_eq] at sound
  obtain ⟨⟨⟨⟨silent, rooted⟩, resolved⟩, coincide⟩, reserved⟩ := sound
  have law : ResponseLaw schema noFragments "Query" (titles (some "id")) :=
    responseLaw_titles resolved rfl _
  have rootType : (titleDocument (some "id")).rootType? (Config.ofSchema schema).schema =
    some "Query" := rooted
  obtain ⟨completes, faults⟩ := step_defines (titleDocument_defines (some "id")) rootType
  refine ⟨schema, toOption_eq_some_iff.1 built, silent, law, _, completes, fun kept => ?_⟩
  let above : List Level := [⟨"Query", .plain "i" .start⟩]
  have opens : Opens schema "Query" ⟨.start, titles (some "id")⟩ above "A"
      ⟨.start, [.field (titleAs none) []]⟩ := by
    refine .inr ⟨_, List.mem_singleton.2 rfl, .inside resolved (List.mem_pair.2 (.inr rfl)) ?_⟩
    exact .inline (by decide)
  have unanswered : ¬ Answered "id" [.field (titleAs none) []] := by
    simp [Answered, titleAs, Field.answers]
  have agrees := (responseLaw_complete_iff (faults.1 silent) law).1 kept above
    ⟨"A", .plain "id" .start⟩ ⟨"A", _, opens, "id", reserved, unanswered, rfl⟩ above
    ⟨"I", titleAs (some "id")⟩ ((occurs_titles resolved rfl).2 (.inr ⟨rfl, .inl rfl⟩))
    (.cons ⟨rfl, Merge.canCoincide_self _ _⟩ .nil) ⟨rfl, coincide⟩
  exact absurd agrees.name (by decide)

end IdentityCompletion

end GraphqlStore
