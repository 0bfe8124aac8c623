import GraphqlStore.Document.Collection
import GraphqlStore.Document.Completion
import GraphqlStore.Document.Visit
import GraphqlStore.Fragment.Registry
import GraphqlStore.Proofs.Completion
import Mathlib.Data.List.Nodup

/-!
Documents with one definition. Documents that were collected are such, with
names that all differ, and they stay so when the selections of the definition
are replaced. The fragments registered for such documents are exactly those
that the documents define.
-/

set_option autoImplicit false

namespace GraphqlStore

/-! ## One definition -/

namespace Definition

theorem withItems_self (definition : Definition) :
    definition.withItems definition.selections.items = definition := by
  cases definition <;> rfl

theorem kindAndName_withItems (definition : Definition) (items : List Selection) :
    (definition.withItems items).kindAndName = definition.kindAndName := by
  cases definition <;> rfl

theorem withItems_withItems (definition : Definition) (items others : List Selection) :
    (definition.withItems items).withItems others = definition.withItems others := by
  cases definition <;> rfl

theorem selections_withItems (definition : Definition) (items : List Selection) :
    (definition.withItems items).selections = ⟨definition.selections.opening, items⟩ := by
  cases definition <;> rfl

theorem eq_fragment_of_withItems {definition : Definition} {items : List Selection}
    {fragment : Fragment} (same : definition.withItems items = .fragment fragment) :
    ∃ original, definition = .fragment original := by
  cases definition with
  | shorthand written => cases same
  | operation declared => cases same
  | fragment declared => exact ⟨declared, rfl⟩

end Definition

namespace Document

/-- The working copy of a document is one definition, of the document's kind and name. -/
structure Defines (document : Document) (definition : Definition) : Prop where
  working : document.working = [definition]
  named : definition.kindAndName = (document.kind, some document.name)

variable {document : Document} {definition : Definition}

theorem Defines.definition?_eq (defines : document.Defines definition) :
    document.definition? = some definition := by
  rw [definition?, defines.working]
  rfl

theorem Defines.unique {other : Definition} (first : document.Defines definition)
    (second : document.Defines other) : definition = other :=
  List.singleton_injective (first.working.symm.trans second.working)

theorem Defines.selections?_eq (defines : document.Defines definition) :
    document.selections? = some definition.selections := by
  rw [selections?, defines.definition?_eq]
  rfl

theorem Defines.rootType?_eq (defines : document.Defines definition) (schema : Schema) :
    document.rootType? schema =
      match definition with
      | .shorthand _ => schema.root? .query
      | .operation declared => schema.root? declared.kind
      | .fragment declared => some declared.condition := by
  have named := defines.named
  have found := defines.definition?_eq
  cases definition with
  | shorthand written =>
      rw [Definition.kindAndName, Prod.mk.injEq] at named
      rw [rootType?, ← named.1]
  | operation declared =>
      rw [Definition.kindAndName, Prod.mk.injEq] at named
      rw [rootType?, ← named.1]
  | fragment declared =>
      rw [Definition.kindAndName, Prod.mk.injEq] at named
      rw [rootType?, ← named.1, found]

theorem Defines.rootType?_withItems (defines : document.Defines definition) {other : Document}
    {items : List Selection} (definesOther : other.Defines (definition.withItems items))
    (schema : Schema) : other.rootType? schema = document.rootType? schema := by
  rw [defines.rootType?_eq, definesOther.rootType?_eq]
  cases definition <;> rfl

theorem Defines.visits?_eq (defines : document.Defines definition) {schema : Schema} {root : String}
    (rooted : document.rootType? schema = some root) :
    document.visits? schema = some (visits schema root [] definition.selections.items) := by
  rw [visits?, rooted, defines.selections?_eq]

theorem Defines.name_eq (defines : document.Defines definition) {fragment : Fragment}
    (same : definition = .fragment fragment) : fragment.name = document.name := by
  have named := defines.named
  rw [same, Definition.kindAndName, Prod.mk.injEq, Option.some.injEq] at named
  exact named.2

/-! ## Revision -/

theorem name_revise (working : ExecutableDocument) (changed : Bool) :
    (document.revise working changed).name = document.name := by
  cases changed <;> rfl

private theorem kind_revise (working : ExecutableDocument) (changed : Bool) :
    (document.revise working changed).kind = document.kind := by
  cases changed <;> rfl

/-- A revised document has the new selections, provided a revision that is dropped would have
changed nothing. -/
theorem Defines.revise (defines : document.Defines definition) {items : List Selection}
    {changed : Bool} (unchanged : changed = false → items = definition.selections.items) :
    (document.revise [definition.withItems items] changed).Defines (definition.withItems items) := by
  refine ⟨?_, ?_⟩
  · cases changed with
    | true => rfl
    | false =>
        rw [unchanged rfl, Definition.withItems_self]
        exact defines.working
  · rw [Definition.kindAndName_withItems, name_revise, kind_revise]
    exact defines.named

theorem Defines.complete (defines : document.Defines definition) (complete : SelectionSet → Completed)
    (truthful : (complete definition.selections).Truthful definition.selections.items) :
    let done := ExecutableDocument.complete complete document.working
    (document.revise done.definitions done.changed).Defines
        (definition.withItems (complete definition.selections).items) ∧
      done.faults = (complete definition.selections).faults := by
  rw [defines.working]
  refine ⟨defines.revise fun unchanged => truthful ?_, List.append_nil _⟩
  simpa [ExecutableDocument.complete] using unchanged

end Document

/-! ## Collected documents -/

/-- Documents of one definition each, with names that all differ. -/
structure Collected (documents : List Document) : Prop where
  defines : ∀ document ∈ documents, ∃ definition, document.Defines definition
  distinct : (documents.map Document.name).Nodup

namespace Collection

private theorem defines_of_classify {name : String} {kind : DocumentKind} {source : DocumentSource}
    {parsed : ExecutableDocument} (classified : ExecutableDocument.classify parsed = .ok (kind, name)) :
    ∃ definition, (Document.ofSource name kind source parsed).Defines definition := by
  unfold ExecutableDocument.classify at classified
  split at classified
  · cases classified
  · rename_i definition
    refine ⟨definition, rfl, ?_⟩
    split at classified
    · rename_i named
      rw [named]
      cases classified
      rfl
    · cases classified
  · cases classified

private theorem ofSource_of_read {source : DocumentSource} {index : Nat} {reading : Reading}
    (accepted : read source index = .ok reading) {document : Document}
    (given : reading.result = .ok document) :
    ∃ name kind parsed, ExecutableDocument.classify parsed = .ok (kind, name) ∧
      document = .ofSource name kind source parsed := by
  unfold read at accepted
  simp only at accepted
  split at accepted
  · cases accepted
  · cases accepted
    cases given
  · split at accepted
    · cases accepted
      cases given
    · rename_i classified
      cases accepted
      cases given
      exact ⟨_, _, _, classified, rfl⟩

private theorem ofSource_of_readFrom {sources : List DocumentSource} {index : Nat}
    {readings : List Reading}
    (accepted : readFrom index sources = .ok readings) {reading : Reading} (member : reading ∈ readings)
    {document : Document} (given : reading.result = .ok document) :
    ∃ source name kind parsed, ExecutableDocument.classify parsed = .ok (kind, name) ∧
      document = .ofSource name kind source parsed := by
  induction sources generalizing index readings with
  | nil =>
      cases accepted
      cases member
  | cons source rest ih =>
      cases first : read source index with
      | error cause =>
          rw [readFrom, first] at accepted
          cases accepted
      | ok head =>
          cases others : readFrom (index + 1) rest with
          | error cause =>
              rw [readFrom, first, others] at accepted
              cases accepted
          | ok tail =>
              rw [readFrom, first, others] at accepted
              cases accepted
              rcases List.mem_cons.1 member with rfl | later
              · exact ⟨source, ofSource_of_read first given⟩
              · exact ih others later

theorem gather_documents (seen : NameMap String) (readings : List Reading) :
    (∀ document ∈ (gather seen readings).documents, seen.find? document.name = none ∧
        ∃ reading ∈ readings, reading.result = .ok document) ∧
      ((gather seen readings).documents.map Document.name).Nodup := by
  fun_induction gather seen readings with
  | case1 => simp
  | case2 seen label found rest others ih =>
      refine ⟨fun document member => ?_, ih.2⟩
      obtain ⟨unseen, reading, inRest, result⟩ := ih.1 document member
      exact ⟨unseen, reading, List.mem_cons_of_mem _ inRest, result⟩
  | case3 seen label document rest first known others ih =>
      refine ⟨fun document member => ?_, ih.2⟩
      obtain ⟨unseen, reading, inRest, result⟩ := ih.1 document member
      exact ⟨unseen, reading, List.mem_cons_of_mem _ inRest, result⟩
  | case4 seen label document rest fresh others ih =>
      obtain ⟨given, distinct⟩ := ih
      refine ⟨fun other member => ?_, ?_⟩
      · rcases List.mem_cons.1 member with rfl | later
        · exact ⟨fresh, _, List.mem_cons_self, rfl⟩
        · obtain ⟨unseen, reading, inRest, result⟩ := given other later
          have different : document.name ≠ other.name := by
            intro same
            rw [← same, NameMap.find?_insert_self] at unseen
            cases unseen
          rw [NameMap.find?_insert_of_ne seen label different] at unseen
          exact ⟨unseen, reading, List.mem_cons_of_mem _ inRest, result⟩
      · refine List.nodup_cons.2 ⟨fun repeated => ?_, distinct⟩
        obtain ⟨other, later, same⟩ := List.mem_map.1 repeated
        have unseen := (given other later).1
        rw [same, NameMap.find?_insert_self] at unseen
        cases unseen

end Collection

theorem Collection.collect_documents {sources : List DocumentSource} {collection : Collection}
    (collects : Collection.collect sources = .ok collection) :
    (∀ document ∈ collection.documents, ∃ source name kind parsed,
        ExecutableDocument.classify parsed = .ok (kind, name) ∧
        document = .ofSource name kind source parsed) ∧
      (collection.documents.map Document.name).Nodup := by
  cases accepted : Collection.readFrom 0 sources with
  | error cause =>
      rw [Collection.collect, accepted] at collects
      cases collects
  | ok readings =>
      rw [Collection.collect, accepted] at collects
      cases collects
      obtain ⟨given, distinct⟩ := Collection.gather_documents NameMap.empty readings
      refine ⟨fun document member => ?_, distinct⟩
      obtain ⟨_, reading, inReadings, result⟩ := given document member
      exact Collection.ofSource_of_readFrom accepted inReadings result

theorem collected_documents {sources : List DocumentSource} {collection : Collection}
    (collects : Collection.collect sources = .ok collection) : Collected collection.documents := by
  obtain ⟨given, distinct⟩ := Collection.collect_documents collects
  refine ⟨fun document member => ?_, distinct⟩
  obtain ⟨source, name, kind, parsed, classified, rfl⟩ := given document member
  exact Collection.defines_of_classify classified

theorem collected_of_collect {sources : List DocumentSource} {collection : Collection}
    {documents : List Document} (collects : Collection.collect sources = .ok collection)
    (clean : collection.toExcept = .ok documents) : Collected documents := by
  unfold Collection.toExcept at clean
  split at clean
  · cases clean
    exact collected_documents collects
  · cases clean

theorem working_of_collect {sources : List DocumentSource} {collection : Collection}
    {documents : List Document} (collects : Collection.collect sources = .ok collection)
    (clean : collection.toExcept = .ok documents) :
    ∀ document ∈ documents, document.working = document.pristine := by
  unfold Collection.toExcept at clean
  split at clean
  · cases clean
    intro document member
    obtain ⟨_, _, _, _, _, rfl⟩ := (Collection.collect_documents collects).1 document member
    rfl
  · cases clean

theorem Collected.map {documents : List Document} (collected : Collected documents)
    {step : Document → Document} (named : ∀ document, (step document).name = document.name)
    (defines : ∀ document ∈ documents, ∀ definition, document.Defines definition →
      ∃ revised, (step document).Defines revised) : Collected (documents.map step) := by
  refine ⟨fun document member => ?_, ?_⟩
  · obtain ⟨source, inDocuments, rfl⟩ := List.mem_map.1 member
    obtain ⟨definition, defined⟩ := collected.defines source inDocuments
    exact defines source inDocuments definition defined
  · rw [List.map_map]
    have same : Document.name ∘ step = Document.name := funext named
    rw [same]
    exact collected.distinct

/-! ## Registered fragments -/

namespace FragmentRegistry

theorem find?_insertNew (registry : FragmentRegistry) (added : Fragment) (name : String) :
    (registry.insertNew added.name added).find? name =
      (registry.find? name).or (if added.name = name then some added else none) := by
  unfold NameMap.insertNew NameMap.contains
  by_cases same : added.name = name
  · subst same
    cases found : registry.find? added.name with
    | some present => simp [found]
    | none => simp [NameMap.find?_insert_self]
  · rw [if_neg same, Option.or_none]
    split
    · rfl
    · exact NameMap.find?_insert_of_ne registry added same

theorem find?_foldl_register {documents : List Document} {registry : FragmentRegistry}
    {name : String} {fragment : Fragment}
    (found : (documents.foldl register registry).find? name = some fragment) :
    registry.find? name = some fragment ∨
      ∃ document ∈ documents, document.definition? = some (.fragment fragment) ∧
        fragment.name = name := by
  induction documents generalizing registry with
  | nil => exact .inl found
  | cons document rest ih =>
      rcases ih found with present | ⟨other, later, defined⟩
      · unfold register at present
        split at present
        · rename_i declared defined
          rw [find?_insertNew, Option.or_eq_some_iff] at present
          rcases present with present | ⟨_, present⟩
          · exact .inl present
          · split at present
            · rename_i same
              cases present
              exact .inr ⟨document, List.mem_cons_self, defined, same⟩
            · cases present
        · exact .inl present
      · exact .inr ⟨other, List.mem_cons_of_mem _ later, defined⟩

theorem find?_foldl_register_isSome {documents : List Document} {registry : FragmentRegistry}
    {name : String}
    (present : (registry.find? name).isSome ∨ ∃ document ∈ documents, ∃ fragment,
      document.definition? = some (.fragment fragment) ∧ fragment.name = name) :
    ((documents.foldl register registry).find? name).isSome := by
  induction documents generalizing registry with
  | nil => simpa using present
  | cons document rest ih =>
      refine ih ?_
      rcases present with known | ⟨other, member, fragment, defined, same⟩
      · left
        unfold register
        split
        · rw [find?_insertNew, Option.isSome_or, known, Bool.true_or]
        · exact known
      · rcases List.mem_cons.1 member with rfl | later
        · left
          rw [register, defined]
          simp only [find?_insertNew, if_pos same, Option.isSome_or, Option.isSome_some, Bool.or_true]
        · exact .inr ⟨other, later, fragment, defined, same⟩

end FragmentRegistry

theorem Collected.find?_eq_some_iff {documents : List Document} (collected : Collected documents)
    {name : String} {fragment : Fragment} :
    (FragmentRegistry.ofDocuments documents).find? name = some fragment ↔
      ∃ document ∈ documents, document.Defines (.fragment fragment) ∧ document.name = name := by
  have source {other : Fragment}
      (found : (FragmentRegistry.ofDocuments documents).find? name = some other) :
      ∃ document ∈ documents, document.Defines (.fragment other) ∧ document.name = name := by
    rcases FragmentRegistry.find?_foldl_register found with absent | ⟨document, member, defined, same⟩
    · cases absent
    · obtain ⟨definition, defines⟩ := collected.defines document member
      obtain rfl : definition = .fragment other :=
        Option.some.inj (defines.definition?_eq.symm.trans defined)
      exact ⟨document, member, defines, (defines.name_eq rfl).symm.trans same⟩
  refine ⟨source, fun ⟨document, member, defines, same⟩ => ?_⟩
  have present : ((FragmentRegistry.ofDocuments documents).find? name).isSome :=
    FragmentRegistry.find?_foldl_register_isSome (.inr
      ⟨document, member, fragment, defines.definition?_eq, (defines.name_eq rfl).trans same⟩)
  obtain ⟨registered, found⟩ := Option.isSome_iff_exists.1 present
  obtain ⟨other, otherMember, definesOther, otherName⟩ := source found
  obtain rfl : other = document :=
    List.inj_on_of_nodup_map collected.distinct otherMember member (otherName.trans same.symm)
  cases definesOther.unique defines
  exact found

end GraphqlStore
