import GraphqlStore.Artifact.Generate
import GraphqlStore.Proofs.ShapeMerge

/-!
What is added to the draft of an artifact. A step reports nothing exactly if
what it adds is sound, paginates one field at most in all, and selects no other
field at a place of the shape that is taken. Steps add up, and a shape can be
drafted apart and merged in afterwards.
-/

set_option autoImplicit false

namespace GraphqlStore

/-! ## What shapes select -/

abbrev ShapeContent := ShapePath → String → Prop

def SelectionShape.content (shape : SelectionShape) : ShapeContent :=
  fun path name => ∃ info, shape.infoAt? path = some info ∧ info.field = name

def Unambiguous (content : ShapeContent) : Prop :=
  ∀ path first second, content path first → content path second → first = second

namespace Generation

/-- A field can be paged through, and the value that holds it can be fetched again if it is in a
fragment. -/
def Pageable (config : Config) (document : Document) (entry : Field × FieldRef) : Prop :=
  ∃ declared mode, entry.2 = .declared declared ∧
    Pagination.fieldMode declared entry.1 = .ok mode ∧
    ∀ type, refetchType? document = some type → (Pagination.refetch? config type).isSome

/-! ## What is added to a draft -/

def Draft.pageCount (draft : Draft) : Nat := if draft.pagination.isSome then 1 else 0

/-- What a step adds to a draft. It reports nothing exactly if nothing was reported before, the
step itself is sound, at most one field is paginated and can be, and nothing is ambiguous. -/
structure Extends (config : Config) (document : Document) (sound : Prop)
    (pages : List (Field × FieldRef)) (added : ShapeContent) (draft done : Draft) : Prop where
  silent : done.issues = [] ↔ draft.issues = [] ∧ sound ∧ draft.pageCount + pages.length ≤ 1 ∧
    (∀ entry ∈ pages, Pageable config document entry) ∧
    Unambiguous fun path name => draft.shape.content path name ∨ added path name
  pageCount : done.issues = [] → done.pageCount = draft.pageCount + pages.length
  content : done.issues = [] → ∀ path name,
    done.shape.content path name ↔ draft.shape.content path name ∨ added path name
  distinct : done.shape.Distinct

section Steps

variable {config : Config} {document : Document} {sound other : Prop}
  {pages morePages : List (Field × FieldRef)} {added moreAdded : ShapeContent}
  {draft middle done : Draft}

theorem unambiguous_shape (shape : SelectionShape) : Unambiguous shape.content := by
  rintro path first second ⟨info, found, rfl⟩ ⟨other, otherFound, rfl⟩
  cases found.symm.trans otherFound
  rfl

theorem Extends.same (issues : done.issues = draft.issues)
    (pagination : done.pagination = draft.pagination)
    (content : done.shape.content = draft.shape.content) (distinct : done.shape.Distinct) :
    Extends config document True [] (fun _ _ => False) draft done where
  silent := by
    have own := unambiguous_shape draft.shape
    have few : draft.pageCount ≤ 1 := by
      unfold Draft.pageCount
      split <;> omega
    simp [issues, few, own]
  pageCount _ := by simp [Draft.pageCount, pagination]
  content _ _ _ := by simp [content]
  distinct := distinct

theorem Extends.refl (distinct : draft.shape.Distinct) :
    Extends config document True [] (fun _ _ => False) draft draft :=
  .same rfl rfl rfl distinct

theorem Extends.trans (first : Extends config document sound pages added draft middle)
    (second : Extends config document other morePages moreAdded middle done) :
    Extends config document (sound ∧ other) (pages ++ morePages)
      (fun path name => added path name ∨ moreAdded path name) draft done := by
  have both (silent : middle.issues = []) :
      (fun path name => middle.shape.content path name ∨ moreAdded path name) =
        fun path name => draft.shape.content path name ∨ added path name ∨ moreAdded path name := by
    funext path name
    rw [first.content silent path name, or_assoc]
  refine ⟨⟨fun none => ?_, fun allowed => ?_⟩, fun none => ?_, fun none path name => ?_, second.distinct⟩
  · obtain ⟨silent, otherSound, few, pageable, clear⟩ := second.silent.1 none
    obtain ⟨start, isSound, _, firstPageable, _⟩ := first.silent.1 silent
    rw [first.pageCount silent] at few
    rw [both silent] at clear
    refine ⟨start, ⟨isSound, otherSound⟩, ?_, List.forall_mem_append.2 ⟨firstPageable, pageable⟩, clear⟩
    rw [List.length_append]
    omega
  · obtain ⟨start, ⟨isSound, otherSound⟩, few, pageable, clear⟩ := allowed
    rw [List.length_append] at few
    rw [List.forall_mem_append] at pageable
    have silent : middle.issues = [] := by
      refine first.silent.2 ⟨start, isSound, by omega, pageable.1, fun path one two here there => ?_⟩
      exact clear path one two (here.imp id .inl) (there.imp id .inl)
    refine second.silent.2 ⟨silent, otherSound, ?_, pageable.2, ?_⟩
    · rw [first.pageCount silent]
      omega
    · rw [both silent]
      exact clear
  · have silent := (second.silent.1 none).1
    rw [second.pageCount none, first.pageCount silent, List.length_append, Nat.add_assoc]
  · have silent := (second.silent.1 none).1
    rw [second.content none path name, first.content silent path name, or_assoc]

theorem Extends.congr (extends_ : Extends config document sound pages added draft done)
    (sameSound : sound ↔ other) (samePages : pages = morePages)
    (sameAdded : ∀ path name, added path name ↔ moreAdded path name) :
    Extends config document other morePages moreAdded draft done := by
  subst samePages
  have same : added = moreAdded := by
    funext path name
    exact propext (sameAdded path name)
  subst same
  rwa [propext sameSound] at extends_

theorem Extends.report (distinct : draft.shape.Distinct)
    (wrong : ¬ (sound ∧ draft.pageCount + pages.length ≤ 1 ∧
      ∀ entry ∈ pages, Pageable config document entry)) (position : Position) (issue : Issue) :
    Extends config document sound pages added draft (draft.report position issue) := by
  have reported : (draft.report position issue).issues ≠ [] := by simp [Draft.report]
  refine ⟨⟨fun none => absurd none reported, fun ⟨_, isSound, few, pageable, _⟩ => ?_⟩,
    fun none => absurd none reported, fun none => absurd none reported, distinct⟩
  exact absurd ⟨isSound, few, pageable⟩ wrong

/-! ## Shapes that are merged in -/

def Draft.merged (draft : Draft) (position : Position) (shape : SelectionShape) : Draft :=
  (draft.withShape (draft.shape.merge shape).1).reportAll position (draft.shape.merge shape).2

theorem addField_eq_merged (draft : Draft) (position : Position) (field : FieldShape) :
    draft.addField position field = draft.merged position (.mk [field] [] []) := by
  simp [Draft.addField, Draft.merged, SelectionShape.addField, SelectionShape.merge,
    SelectionShape.mergeFields, SelectionShape.mergeConditions]

theorem addCondition_eq_merged (draft : Draft) (position : Position) (type : String)
    (shape : SelectionShape) :
    draft.addCondition position type shape = draft.merged position (.mk [] [(type, shape)] []) := by
  simp [Draft.addCondition, Draft.merged, SelectionShape.addCondition, SelectionShape.merge,
    SelectionShape.mergeFields, SelectionShape.mergeConditions]

theorem merge_silent_iff {into shape : SelectionShape} (distinct : shape.Distinct) :
    (into.merge shape).2 = [] ↔
      Unambiguous fun path name => into.content path name ∨ shape.content path name := by
  rw [(SelectionShape.merge_joins distinct into).silent]
  constructor
  · rintro agree path first second (⟨one, here, rfl⟩ | ⟨one, here, rfl⟩)
      (⟨two, there, rfl⟩ | ⟨two, there, rfl⟩)
    · exact unambiguous_shape into path _ _ ⟨one, here, rfl⟩ ⟨two, there, rfl⟩
    · exact agree path one two here there
    · exact (agree path two one there here).symm
    · exact unambiguous_shape shape path _ _ ⟨one, here, rfl⟩ ⟨two, there, rfl⟩
  · intro clear path first second here there
    exact clear path _ _ (.inl ⟨first, here, rfl⟩) (.inr ⟨second, there, rfl⟩)

private theorem merge_content {into shape : SelectionShape} (distinct : shape.Distinct)
    (silent : (into.merge shape).2 = []) (path : ShapePath) (name : String) :
    (into.merge shape).1.content path name ↔ into.content path name ∨ shape.content path name := by
  have agree := (SelectionShape.merge_joins distinct into).silent.1 silent path
  have joined := (SelectionShape.merge_joins distinct into).joined silent path
  unfold SelectionShape.content
  rw [joined]
  cases here : into.infoAt? path with
  | none => simp
  | some first =>
      cases there : shape.infoAt? path with
      | none => simp
      | some second =>
          rw [here, there] at agree
          have same : second.field = first.field := (agree first second rfl rfl).symm
          simp [FieldInfo.merge, same]

theorem not_content_empty (path : ShapePath) (name : String) :
    ¬ SelectionShape.empty.content path name := by
  rintro ⟨info, found, _⟩
  rw [SelectionShape.infoAt?_empty] at found
  cases found

theorem Extends.content_apart {start inner : Draft} {below : ShapeContent}
    (inside : Extends config document sound pages below (start.withShape .empty) inner)
    (silent : inner.issues = []) (path : ShapePath) (name : String) :
    inner.shape.content path name ↔ below path name :=
  (inside.content silent path name).trans (or_iff_right (not_content_empty path name))

theorem Extends.nested {start inner : Draft} {below : ShapeContent} (position : Position)
    (inside : Extends config document sound pages below (start.withShape .empty) inner)
    (startDistinct : start.shape.Distinct) {shape : SelectionShape} (distinct : shape.Distinct)
    (content : inner.issues = [] → ∀ path name, shape.content path name ↔ added path name)
    (clear : Unambiguous added → Unambiguous below) :
    Extends config document sound pages added start
      ((inner.withShape start.shape).merged position shape) := by
  have issues : ((inner.withShape start.shape).merged position shape).issues = [] ↔
      inner.issues = [] ∧ (start.shape.merge shape).2 = [] := by
    simp [Draft.merged, Draft.reportAll, Draft.withShape]
  have same (silent : inner.issues = []) : shape.content = added := by
    funext path name
    exact propext (content silent path name)
  refine ⟨⟨fun none => ?_, fun allowed => ?_⟩, fun none => ?_, fun none path name => ?_,
    SelectionShape.merge_distinct startDistinct distinct⟩
  · obtain ⟨silent, merges⟩ := issues.1 none
    obtain ⟨start, isSound, few, pageable, _⟩ := inside.silent.1 silent
    refine ⟨start, isSound, few, pageable, ?_⟩
    rw [← same silent]
    exact (merge_silent_iff distinct).1 merges
  · obtain ⟨start, isSound, few, pageable, all⟩ := allowed
    have alone : Unambiguous added := fun path first second here there =>
      all path first second (.inr here) (.inr there)
    have silent : inner.issues = [] := by
      refine inside.silent.2 ⟨start, isSound, few, pageable, fun path first second here there => ?_⟩
      exact clear alone path first second (here.resolve_left (not_content_empty path first))
        (there.resolve_left (not_content_empty path second))
    refine issues.2 ⟨silent, (merge_silent_iff distinct).2 ?_⟩
    rwa [same silent]
  · exact inside.pageCount (issues.1 none).1
  · obtain ⟨silent, merges⟩ := issues.1 none
    rw [← content silent path name]
    exact merge_content distinct merges path name

/-! ## Pagination -/

theorem paginationInfo_ok_iff {head : Field} {found : FieldRef} {path : List String} :
    (∃ info, paginationInfo config document head found path = .ok info) ↔
      Pageable config document (head, found) := by
  unfold paginationInfo Pageable refetch
  cases found with
  | typename => simp
  | declared declared =>
      cases mode : Pagination.fieldMode declared head with
      | error reason => simp [mode]
      | ok value =>
          obtain ⟨way, size⟩ := value
          cases target : refetchType? document with
          | none => simp [mode]
          | some type =>
              cases found : Pagination.refetch? config type with
              | none => simp [mode, found]
              | some refetch => simp [mode, found]

private theorem recordPagination_extends (distinct : draft.shape.Distinct) (head : Field)
    (found : FieldRef) (path : List String) :
    Extends config document True [(head, found)] (fun _ _ => False) draft
      (recordPagination config document head found path draft) := by
  unfold recordPagination
  by_cases taken : draft.pagination.isSome = true
  · rw [if_pos taken]
    refine .report distinct (fun ⟨_, few, _⟩ => ?_) head.position .severalPaginated
    simp [Draft.pageCount, taken] at few
  · rw [if_neg taken]
    cases known : paginationInfo config document head found path with
    | error issue =>
        refine .report distinct (fun ⟨_, _, pageable⟩ => ?_) head.position issue
        obtain ⟨info, ok⟩ := paginationInfo_ok_iff.2 (pageable (head, found) List.mem_cons_self)
        rw [known] at ok
        cases ok
    | ok info =>
        have pageable := paginationInfo_ok_iff.1 ⟨info, known⟩
        have own := unambiguous_shape draft.shape
        refine ⟨?_, fun _ => by simp [Draft.pageCount, taken], fun _ path name => by simp, distinct⟩
        simp [Draft.pageCount, taken, pageable, own]

theorem withPagination_extends (distinct : draft.shape.Distinct) (scope : Scope) (head : Field)
    (found : FieldRef) :
    Extends config document True (if head.isPaginated && !scope.inlined then [(head, found)] else [])
      (fun _ _ => False) draft (withPagination config document scope head found draft) := by
  unfold withPagination
  split
  · exact recordPagination_extends distinct head found _
  · exact .refl distinct

theorem shape_withPagination (scope : Scope) (head : Field) (found : FieldRef) :
    (withPagination config document scope head found draft).shape = draft.shape := by
  unfold withPagination recordPagination
  split
  · split
    · rfl
    · split <;> rfl
  · rfl

theorem withMark_extends (distinct : draft.shape.Distinct) (head : InlineFragment) :
    Extends config document True [] (fun _ _ => False) draft (withMark head draft) := by
  unfold withMark
  split
  · rename_i name masked _
    refine .same rfl rfl ?_ (SelectionShape.withFragment_distinct distinct _)
    funext path other
    simp [SelectionShape.content, SelectionShape.infoAt?_withFragment, Draft.withShape]
  · exact .refl distinct

end Steps

/-! ## Shapes of one entry -/

theorem leaf_distinct (name : String) (info : FieldInfo) :
    (SelectionShape.mk [.leaf name info] [] []).Distinct :=
  .mk (by simp) .nil (by simp [FieldShape.selection?]) (by simp)

theorem composite_distinct (name : String) (info : FieldInfo) {inner : SelectionShape}
    (distinct : inner.Distinct) : (SelectionShape.mk [.composite name info inner] [] []).Distinct :=
  .mk (by simp) .nil (by simpa [FieldShape.selection?] using distinct) (by simp)

theorem condition_distinct (type : String) {inner : SelectionShape} (distinct : inner.Distinct) :
    (SelectionShape.mk [] [(type, inner)] []).Distinct :=
  .mk (by simp) (by simp) (by simp) (by simpa using distinct)

theorem content_leaf (name : String) (info : FieldInfo) (path : ShapePath) (other : String) :
    (SelectionShape.mk [.leaf name info] [] []).content path other ↔
      path = [.field name] ∧ info.field = other := by
  unfold SelectionShape.content
  cases path using ShapePath.byFirst with
  | nil => simp [SelectionShape.infoAt?_nil]
  | type _ _ => simp [SelectionShape.infoAt?_type, SelectionShape.conditions, NameMap.lookup]
  | field first rest =>
      by_cases same : name = first
      · subst same
        cases rest <;> simp [SelectionShape.infoAt?_field, SelectionShape.field?,
          SelectionShape.fields, Ordered.find?, FieldShape.name, FieldShape.infoAt?,
          FieldShape.info, FieldShape.selection?]
      · simp [SelectionShape.infoAt?_field, SelectionShape.field?, SelectionShape.fields,
          Ordered.find?, FieldShape.name, same, Ne.symm same]

theorem content_composite (name : String) (info : FieldInfo) (inner : SelectionShape)
    (path : ShapePath) (other : String) :
    (SelectionShape.mk [.composite name info inner] [] []).content path other ↔
      (path = [.field name] ∧ info.field = other) ∨
        ∃ rest, path = .field name :: rest ∧ inner.content rest other := by
  unfold SelectionShape.content
  cases path using ShapePath.byFirst with
  | nil => simp [SelectionShape.infoAt?_nil]
  | type _ _ => simp [SelectionShape.infoAt?_type, SelectionShape.conditions, NameMap.lookup]
  | field first rest =>
      by_cases same : name = first
      · subst same
        cases rest <;> simp [SelectionShape.infoAt?_field, SelectionShape.field?,
          SelectionShape.fields, Ordered.find?, FieldShape.name, FieldShape.infoAt?,
          FieldShape.info, FieldShape.selection?, SelectionShape.infoAt?_nil]
      · simp [SelectionShape.infoAt?_field, SelectionShape.field?, SelectionShape.fields,
          Ordered.find?, FieldShape.name, same, Ne.symm same]

theorem content_condition (type : String) (inner : SelectionShape) (path : ShapePath)
    (other : String) :
    (SelectionShape.mk [] [(type, inner)] []).content path other ↔
      ∃ rest, path = .type type :: rest ∧ inner.content rest other := by
  unfold SelectionShape.content
  cases path using ShapePath.byFirst with
  | nil => simp [SelectionShape.infoAt?_nil]
  | field _ _ => simp [SelectionShape.infoAt?_field, SelectionShape.field?, SelectionShape.fields,
      Ordered.find?]
  | type first rest =>
      by_cases same : type = first
      · subst same
        simp [SelectionShape.infoAt?_type, SelectionShape.conditions, NameMap.lookup]
      · simp [SelectionShape.infoAt?_type, SelectionShape.conditions, NameMap.lookup, same,
          Ne.symm same]

end Generation

end GraphqlStore
