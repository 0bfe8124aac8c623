import GraphqlStore.Proofs.ShapePlaces
import GraphqlStore.Proofs.ShapeTypes
import GraphqlStore.Proofs.SourceOrder

/-!
The laws of merging. Shapes that list each name and each fragment once, at
every depth, are merged as a join does it: the shape without fields adds
nothing, nor does a shape add to itself, and where nothing is in conflict it
makes no difference which two of three shapes are merged first. This holds of
the order of fields and fragments too.
-/

set_option autoImplicit false

namespace GraphqlStore

/-- A shape lists each response name, each further type and each fragment once, and so do all
shapes in it. -/
inductive SelectionShape.ListsOnce : SelectionShape → Prop where
  | mk {fields : List FieldShape} {conditions : List (String × SelectionShape)}
      {fragments : List FragmentRef} :
      (fields.map FieldShape.name).Nodup →
      (conditions.Pairwise fun first second => first.1 < second.1) → fragments.Nodup →
      (∀ field ∈ fields, ∀ inner, field.selection? = some inner → ListsOnce inner) →
      (∀ entry ∈ conditions, ListsOnce entry.2) →
      ListsOnce (.mk fields conditions fragments)

/-! ## Entries -/

theorem Ordered.ext_find? {α : Type} {key : α → String} {first second : List α}
    (distinct : (first.map key).Nodup) (names : first.map key = second.map key)
    (same : ∀ name, find? key name first = find? key name second) : first = second := by
  induction first generalizing second with
  | nil => exact (List.map_eq_nil_iff.1 names.symm).symm
  | cons entry rest ih =>
      cases second with
      | nil => cases names
      | cons other later =>
          obtain ⟨sameKey, sameKeys⟩ := List.cons.inj names
          obtain ⟨fresh, distinctRest⟩ := List.nodup_cons.1 distinct
          have head : entry = other := by
            have found := same (key entry)
            simpa only [find?, sameKey, if_true, Option.some.injEq] using found
          subst head
          refine congrArg (entry :: ·) (ih distinctRest sameKeys fun name => ?_)
          by_cases here : key entry = name
          · subst here
            rw [find?_eq_none_iff.2 fresh, find?_eq_none_iff.2 (sameKeys ▸ fresh)]
          · have found := same name
            simpa only [find?, here, if_false] using found

private theorem optionMerge_assoc {α : Type} {join : α → α → α} {first second third : Option α}
    (assoc : ∀ one two three, first = some one → second = some two → third = some three →
      join (join one two) three = join one (join two three)) :
    Option.merge join (Option.merge join first second) third =
      Option.merge join first (Option.merge join second third) := by
  cases first <;> cases second <;> cases third <;> simp_all

private theorem FieldInfo.merge_assoc (first second third : FieldInfo) :
    (first.merge second).merge third = first.merge (second.merge third) := by
  simp [FieldInfo.merge, Bool.and_assoc, Bool.or_assoc, Option.or_assoc]

private theorem FieldInfo.merge_self (info : FieldInfo) : info.merge info = info := by
  simp [FieldInfo.merge]

private theorem addAll_self {α : Type} [BEq α] [LawfulBEq α] (list : List α) :
    addAll list list = list := by
  have known (added : List α) (inside : ∀ value ∈ added, value ∈ list) : addAll list added = list := by
    induction added with
    | nil => rfl
    | cons value rest ih =>
        obtain ⟨here, later⟩ := List.forall_mem_cons.1 inside
        have next : addNew list value = list := if_pos (List.contains_iff_mem.2 here)
        rw [addAll, List.foldl_cons, next]
        exact ih later
  exact known list fun _ member => member

namespace FieldShape

theorem ext_parts {first second : FieldShape} (names : first.name = second.name)
    (infos : first.info = second.info) (selections : first.selection? = second.selection?) :
    first = second := by
  cases first <;> cases second <;> simp_all [name, info, selection?]

theorem info_join (present added : FieldShape) :
    (present.join added).1.info = present.info.merge added.info := by
  unfold join
  split <;> rfl

theorem selection?_join (present added : FieldShape) :
    (present.join added).1.selection? =
      Option.merge (fun inner other => (inner.merge other).1) present.selection?
        added.selection? := by
  unfold join
  cases present.selection? <;> cases added.selection? <;> rfl

theorem silent_of_join {present added : FieldShape} (silent : (present.join added).2 = [])
    {inner other : SelectionShape} (here : present.selection? = some inner)
    (there : added.selection? = some other) : (inner.merge other).2 = [] := by
  unfold join at silent
  rw [here, there] at silent
  exact silent

private theorem join_assoc {first second third : FieldShape}
    (below : ∀ one two three, first.selection? = some one → second.selection? = some two →
      third.selection? = some three →
      ((one.merge two).1.merge three).1 = (one.merge (two.merge three).1).1) :
    ((first.join second).1.join third).1 = (first.join (second.join third).1).1 := by
  apply ext_parts
  · simp only [name_join]
  · simp only [info_join, FieldInfo.merge_assoc]
  · simp only [selection?_join]
    exact optionMerge_assoc below

private theorem join_self {field : FieldShape}
    (below : ∀ inner, field.selection? = some inner → (inner.merge inner).1 = inner) :
    (field.join field).1 = field := by
  apply ext_parts
  · rw [name_join]
  · rw [info_join, FieldInfo.merge_self]
  · rw [selection?_join]
    cases found : field.selection? with
    | none => rfl
    | some inner => exact congrArg some (below inner found)

end FieldShape

/-! ## Shapes -/

namespace SelectionShape

variable {shape into added first second third : SelectionShape}

theorem ext_entries (distinct : into.Distinct) (alsoDistinct : added.Distinct)
    (names : into.fields.map FieldShape.name = added.fields.map FieldShape.name)
    (fields : ∀ name, into.field? name = added.field? name)
    (conditions : ∀ type,
      NameMap.lookup type into.conditions = NameMap.lookup type added.conditions)
    (fragments : into.fragments = added.fragments) : into = added := by
  have sameFields := Ordered.ext_find? distinct.nodup_names names fields
  have sameMaps : (⟨into.conditions, distinct.increasing⟩ : NameMap SelectionShape) =
      ⟨added.conditions, alsoDistinct.increasing⟩ := NameMap.ext_find? conditions
  have sameConditions := congrArg NameMap.entries sameMaps
  cases into
  cases added
  cases sameFields
  cases sameConditions
  cases fragments
  rfl

namespace ListsOnce

theorem distinct (once : shape.ListsOnce) : shape.Distinct := by
  induction once with
  | mk names increasing _ _ _ ihFields ihConditions =>
      exact .mk names increasing ihFields ihConditions

private theorem nodup_fragments (once : shape.ListsOnce) : shape.fragments.Nodup := by
  cases once
  assumption

theorem selection (once : shape.ListsOnce) {name : String} {field : FieldShape}
    (found : shape.field? name = some field) {inner : SelectionShape}
    (selected : field.selection? = some inner) : inner.ListsOnce := by
  cases once with
  | mk _ _ _ fields _ => exact fields field (Ordered.mem_of_find? found) inner selected

theorem condition (once : shape.ListsOnce) {type : String} {inner : SelectionShape}
    (found : NameMap.lookup type shape.conditions = some inner) : inner.ListsOnce := by
  cases once with
  | mk _ increasing _ _ conditions =>
      exact conditions _ ((NameMap.mem_iff_lookup increasing).2 found)

theorem empty : SelectionShape.empty.ListsOnce :=
  .mk .nil .nil .nil (by simp) (by simp)

theorem follow (once : shape.ListsOnce) (step : ShapeStep) : (shape.follow step).ListsOnce := by
  cases step with
  | field name =>
      simp only [SelectionShape.follow]
      cases found : shape.field? name with
      | none => exact empty
      | some field =>
          cases selected : field.selection? with
          | none => simpa [selected] using empty
          | some inner => simpa [selected] using once.selection found selected
  | type name =>
      simp only [SelectionShape.follow]
      cases found : NameMap.lookup name shape.conditions with
      | none => exact empty
      | some inner => exact once.condition found

theorem marksOnce (once : shape.ListsOnce) : shape.MarksOnce := by
  intro place
  induction place generalizing shape with
  | nil => exact once.nodup_fragments
  | cons step rest ih => exact ih (once.follow step)

end ListsOnce

theorem listsOnce_iff : shape.ListsOnce ↔ shape.Distinct ∧ shape.MarksOnce := by
  refine ⟨fun once => ⟨once.distinct, once.marksOnce⟩, fun both => ?_⟩
  obtain ⟨distinct, marks⟩ := both
  induction distinct with
  | @mk fields conditions fragments names increasing _ _ ihFields ihConditions =>
      refine .mk names increasing (marks []) (fun field member inner selected => ?_)
        fun entry member => ?_
      · refine ihFields field member inner selected fun place => ?_
        have found : (SelectionShape.mk fields conditions fragments).field? field.name =
            some field := Ordered.find?_of_mem names member
        simpa only [shapeAt_cons, follow, found, selected, Option.bind_some, Option.getD_some] using
          marks (.field field.name :: place)
      · refine ihConditions entry member fun place => ?_
        have found : NameMap.lookup entry.1 conditions = some entry.2 :=
          (NameMap.mem_iff_lookup increasing).1 member
        simpa only [shapeAt_cons, follow, SelectionShape.conditions, found, Option.getD_some] using
          marks (.type entry.1 :: place)

theorem merge_listsOnce (intoOnce : into.ListsOnce) (addedOnce : added.ListsOnce)
    (silent : (into.merge added).2 = []) : (into.merge added).1.ListsOnce := by
  refine listsOnce_iff.2 ⟨merge_distinct intoOnce.distinct addedOnce.distinct, fun place => ?_⟩
  rw [(shapeAt_merge addedOnce.distinct addedOnce.marksOnce silent place).1, fragments_merge]
  exact nodup_addAll (intoOnce.marksOnce place) _

theorem lookup_merge (addedOnce : added.ListsOnce) (type : String) :
    NameMap.lookup type (into.merge added).1.conditions =
      Option.merge (fun inner other => (inner.merge other).1)
        (NameMap.lookup type into.conditions) (NameMap.lookup type added.conditions) := by
  rw [conditions_merge, lookup_mergeConditions addedOnce.distinct.increasing]
  cases there : NameMap.lookup type added.conditions with
  | none => exact Option.merge_none_right.symm
  | some other =>
      cases NameMap.lookup type into.conditions with
      | some inner => rfl
      | none =>
          have once := addedOnce.condition there
          have alone := empty_merge once.distinct once.marksOnce
          exact congrArg (fun merged => some merged.1) alone

/-! ## Merging a shape with itself -/

private theorem merge_self (once : shape.ListsOnce) : shape.merge shape = (shape, []) := by
  induction once with
  | @mk fields conditions fragments names increasing nodup inFields inConditions ihFields
      ihConditions =>
      have once : (SelectionShape.mk fields conditions fragments).ListsOnce :=
        .mk names increasing nodup inFields inConditions
      generalize whole : SelectionShape.mk fields conditions fragments = shape at once ⊢
      have silent : (shape.merge shape).2 = [] := by
        refine (merge_joins once.distinct shape).silent.2 fun path one two here there => ?_
        cases here.symm.trans there
        rfl
      refine Prod.ext (ext_entries (merge_distinct once.distinct once.distinct) once.distinct
        ?_ (fun name => ?_) (fun type => ?_) ?_) silent
      · rw [names_merge, addAll_self]
      · rw [field?_merge once.distinct silent]
        cases found : shape.field? name with
        | none => rfl
        | some field =>
            refine congrArg some (FieldShape.join_self fun inner selected => ?_)
            subst whole
            rw [ihFields field (Ordered.mem_of_find? found) inner selected]
      · rw [lookup_merge once]
        cases found : NameMap.lookup type shape.conditions with
        | none => rfl
        | some inner =>
            subst whole
            have below := ihConditions (type, inner) ((NameMap.mem_iff_lookup increasing).2 found)
            exact congrArg (fun merged => some merged.1) below
      · rw [fragments_merge, addAll_self]

/-! ## Merging three shapes -/

/-- Whichever two of three shapes are merged first, no conflict is reported. -/
structure Compatible (first second third : SelectionShape) : Prop where
  firstTwo : (first.merge second).2 = []
  thenThird : ((first.merge second).1.merge third).2 = []
  lastTwo : (second.merge third).2 = []
  intoFirst : (first.merge (second.merge third).1).2 = []

namespace Compatible

theorem selection (compatible : Compatible first second third) (secondOnce : second.ListsOnce)
    (thirdOnce : third.ListsOnce) {name : String} {one two three : FieldShape}
    (inFirst : first.field? name = some one) (inSecond : second.field? name = some two)
    (inThird : third.field? name = some three) {oneInner twoInner threeInner : SelectionShape}
    (oneSelected : one.selection? = some oneInner) (twoSelected : two.selection? = some twoInner)
    (threeSelected : three.selection? = some threeInner) :
    Compatible oneInner twoInner threeInner := by
  obtain ⟨firstTwo, thenThird, lastTwo, intoFirst⟩ := compatible
  have joinedFirst : (first.merge second).1.field? name = some (one.join two).1 := by
    rw [field?_merge secondOnce.distinct firstTwo, inFirst, inSecond]
    rfl
  have joinedLast : (second.merge third).1.field? name = some (two.join three).1 := by
    rw [field?_merge thirdOnce.distinct lastTwo, inSecond, inThird]
    rfl
  have firstSelected : (one.join two).1.selection? = some (oneInner.merge twoInner).1 := by
    rw [FieldShape.selection?_join, oneSelected, twoSelected]
    rfl
  have lastSelected : (two.join three).1.selection? = some (twoInner.merge threeInner).1 := by
    rw [FieldShape.selection?_join, twoSelected, threeSelected]
    rfl
  have lastDistinct : (second.merge third).1.Distinct :=
    merge_distinct secondOnce.distinct thirdOnce.distinct
  constructor
  · exact FieldShape.silent_of_join (silent_of_merge secondOnce.distinct firstTwo inFirst inSecond).2
      oneSelected twoSelected
  · exact FieldShape.silent_of_join
      (silent_of_merge thirdOnce.distinct thenThird joinedFirst inThird).2 firstSelected threeSelected
  · exact FieldShape.silent_of_join (silent_of_merge thirdOnce.distinct lastTwo inSecond inThird).2
      twoSelected threeSelected
  · exact FieldShape.silent_of_join (silent_of_merge lastDistinct intoFirst inFirst joinedLast).2
      oneSelected lastSelected

theorem silent_condition (addedOnce : added.ListsOnce) (silent : (into.merge added).2 = [])
    {type : String} {inner other : SelectionShape}
    (here : NameMap.lookup type into.conditions = some inner)
    (there : NameMap.lookup type added.conditions = some other) : (inner.merge other).2 = [] := by
  have below := silent_of_mergeConditions addedOnce.distinct.increasing
    ((merge_silent_iff into added).1 silent).2 there
  rwa [here] at below

theorem condition (compatible : Compatible first second third) (secondOnce : second.ListsOnce)
    (thirdOnce : third.ListsOnce) {type : String} {one two three : SelectionShape}
    (inFirst : NameMap.lookup type first.conditions = some one)
    (inSecond : NameMap.lookup type second.conditions = some two)
    (inThird : NameMap.lookup type third.conditions = some three) : Compatible one two three := by
  obtain ⟨firstTwo, thenThird, lastTwo, intoFirst⟩ := compatible
  have mergedFirst :
      NameMap.lookup type (first.merge second).1.conditions = some (one.merge two).1 := by
    rw [lookup_merge secondOnce, inFirst, inSecond]
    rfl
  have mergedLast :
      NameMap.lookup type (second.merge third).1.conditions = some (two.merge three).1 := by
    rw [lookup_merge thirdOnce, inSecond, inThird]
    rfl
  have lastOnce := merge_listsOnce secondOnce thirdOnce lastTwo
  constructor
  · exact silent_condition secondOnce firstTwo inFirst inSecond
  · exact silent_condition thirdOnce thenThird mergedFirst inThird
  · exact silent_condition thirdOnce lastTwo inSecond inThird
  · exact silent_condition lastOnce intoFirst inFirst mergedLast

end Compatible

private theorem merge_assoc (firstOnce : first.ListsOnce) (secondOnce : second.ListsOnce)
    (thirdOnce : third.ListsOnce) (compatible : Compatible first second third) :
    ((first.merge second).1.merge third).1 = (first.merge (second.merge third).1).1 := by
  -- The induction is on the last shape: only where all three have one does a shape below matter.
  induction third using SelectionShape.induction generalizing first second with
  | mk fields conditions fragments ihFields ihConditions =>
      generalize whole : SelectionShape.mk fields conditions fragments = third at thirdOnce compatible ⊢
      have firstTwoOnce := merge_listsOnce firstOnce secondOnce compatible.firstTwo
      have lastTwoOnce := merge_listsOnce secondOnce thirdOnce compatible.lastTwo
      apply ext_entries (merge_distinct firstTwoOnce.distinct thirdOnce.distinct)
        (merge_distinct firstOnce.distinct lastTwoOnce.distinct)
      · simp only [names_merge, addAll_addAll]
      · intro name
        rw [field?_merge thirdOnce.distinct compatible.thenThird,
          field?_merge secondOnce.distinct compatible.firstTwo,
          field?_merge lastTwoOnce.distinct compatible.intoFirst,
          field?_merge thirdOnce.distinct compatible.lastTwo]
        refine optionMerge_assoc fun one two three inFirst inSecond inThird => ?_
        refine FieldShape.join_assoc fun oneInner twoInner threeInner oneHas twoHas threeHas => ?_
        have below := compatible.selection secondOnce thirdOnce inFirst inSecond inThird oneHas twoHas
          threeHas
        have threeOnce := thirdOnce.selection inThird threeHas
        subst whole
        exact ihFields three (Ordered.mem_of_find? inThird) threeInner threeHas
          (firstOnce.selection inFirst oneHas) (secondOnce.selection inSecond twoHas) threeOnce below
      · intro type
        simp only [lookup_merge thirdOnce, lookup_merge secondOnce, lookup_merge lastTwoOnce]
        refine optionMerge_assoc fun one two three inFirst inSecond inThird => ?_
        have below := compatible.condition secondOnce thirdOnce inFirst inSecond inThird
        have threeOnce := thirdOnce.condition inThird
        have member : (type, three) ∈ third.conditions :=
          (NameMap.mem_iff_lookup thirdOnce.distinct.increasing).2 inThird
        subst whole
        exact ihConditions (type, three) member (firstOnce.condition inFirst)
          (secondOnce.condition inSecond) threeOnce below
      · simp only [fragments_merge, addAll_addAll]

/-- Merging is a join. The shape without fields is its unit, a shape merged with itself stays as it
is, and without conflicts the order in which three shapes are merged makes no difference. -/
theorem merge_laws :
    (∀ shape : SelectionShape, shape.ListsOnce →
      empty.merge shape = (shape, []) ∧ shape.merge empty = (shape, []) ∧
        shape.merge shape = (shape, [])) ∧
    ∀ first second third : SelectionShape, first.ListsOnce → second.ListsOnce → third.ListsOnce →
      Compatible first second third →
      ((first.merge second).1.merge third).1 = (first.merge (second.merge third).1).1 := by
  constructor
  · intro shape once
    exact ⟨empty_merge once.distinct once.marksOnce, merge_empty shape, merge_self once⟩
  · intro first second third firstOnce secondOnce thirdOnce compatible
    exact merge_assoc firstOnce secondOnce thirdOnce compatible

def plainInfo (name : String) : FieldInfo :=
  ⟨name, "T", "T", name, true, false, none, false, none, false, false⟩

def leaves (names : List String) : SelectionShape :=
  .mk (names.map fun name => .leaf name (plainInfo name)) [] []

/-- A shape of one field, with a shape for values of a further type. -/
def branching (name : String) (below : List String) (type : String) (others : List String)
    (fragment : String) : SelectionShape :=
  .mk [.composite name (plainInfo name) (leaves below)] [(type, leaves others)] [⟨fragment, false⟩]

theorem leaves_listsOnce {names : List String} (distinct : names.Nodup) : (leaves names).ListsOnce := by
  have sameNames : ((leaves names).fields.map FieldShape.name) = names := by
    simp [leaves, SelectionShape.fields, FieldShape.name, Function.comp_def]
  refine .mk (by rwa [← sameNames] at distinct) .nil .nil (fun field member inner selected => ?_) (by simp)
  obtain ⟨name, _, rfl⟩ := List.mem_map.1 member
  cases selected

theorem branching_listsOnce {name type fragment : String} {below others : List String}
    (distinct : below.Nodup) (othersDistinct : others.Nodup) :
    (branching name below type others fragment).ListsOnce := by
  refine .mk (by simp) (by simp) (by simp) (fun field member inner selected => ?_)
    fun entry member => ?_
  · cases List.mem_singleton.1 member
    cases selected
    exact leaves_listsOnce distinct
  · cases List.mem_singleton.1 member
    exact leaves_listsOnce othersDistinct

theorem merge_laws_overlapping :
    let first := branching "pet" ["name", "age"] "Dog" ["barks"] "Owned"
    let second := branching "owner" ["name"] "Cat" ["lives"] "Seen"
    let third := branching "pet" ["tag", "name"] "Dog" ["runs", "barks"] "Owned"
    Compatible first second third ∧ third.merge third = (third, []) ∧
      ((first.merge second).1.merge third).1 = (first.merge (second.merge third).1).1 ∧
      (first.merge third).1 ≠ (third.merge first).1 := by
  intro first second third
  have compatible : Compatible first second third :=
    ⟨by decide +kernel, by decide +kernel, by decide +kernel, by decide +kernel⟩
  have firstOnce : first.ListsOnce := branching_listsOnce (by decide) (by decide)
  have secondOnce : second.ListsOnce := branching_listsOnce (by decide) (by decide)
  have thirdOnce : third.ListsOnce := branching_listsOnce (by decide) (by decide)
  refine ⟨compatible, (merge_laws.1 third thirdOnce).2.2,
    merge_laws.2 first second third firstOnce secondOnce thirdOnce compatible, fun same => ?_⟩
  have order := congrArg (fun shape => (shape.shapeAt [.field "pet"]).fields.map FieldShape.name) same
  exact absurd order (by decide +kernel)

end SelectionShape

end GraphqlStore
