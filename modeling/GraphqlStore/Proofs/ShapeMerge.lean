import GraphqlStore.Names.Reach
import GraphqlStore.Proofs.ShapePath

/-!
Merging shapes that list each name once joins them path by path: it reports
nothing exactly if the two shapes select the same field wherever both select
one, and then the merged shape selects at each path what one of them does,
joined where both do. The merged shape lists each name once again.
-/

set_option autoImplicit false

namespace GraphqlStore

/-! ## Shapes with one entry for each name -/

/-- A shape lists each response name and each further type once, and so do all shapes in it. -/
inductive SelectionShape.Distinct : SelectionShape → Prop where
  | mk {fields : List FieldShape} {conditions : List (String × SelectionShape)}
      {fragments : List FragmentRef} :
      (fields.map FieldShape.name).Nodup →
      (conditions.Pairwise fun first second => first.1 < second.1) →
      (∀ field ∈ fields, ∀ inner, field.selection? = some inner → Distinct inner) →
      (∀ entry ∈ conditions, Distinct entry.2) →
      Distinct (.mk fields conditions fragments)

def FieldShape.Distinct (field : FieldShape) : Prop :=
  ∀ inner, field.selection? = some inner → inner.Distinct

namespace SelectionShape

@[elab_as_elim]
theorem induction {motive : SelectionShape → Prop}
    (mk : ∀ fields conditions fragments,
      (∀ field ∈ fields, ∀ inner, field.selection? = some inner → motive inner) →
      (∀ entry ∈ conditions, motive entry.2) → motive (.mk fields conditions fragments))
    (shape : SelectionShape) : motive shape :=
  @SelectionShape.rec motive (fun field => ∀ inner, field.selection? = some inner → motive inner)
    (fun fields => ∀ field ∈ fields, ∀ inner, field.selection? = some inner → motive inner)
    (fun conditions => ∀ entry ∈ conditions, motive entry.2) (fun entry => motive entry.2)
    mk (fun _ _ _ absent => nomatch absent)
    (fun _ _ _ below _ same => Option.some.inj same ▸ below)
    (by simp) (fun _ _ first rest => List.forall_mem_cons.2 ⟨first, rest⟩)
    (by simp) (fun _ _ first rest => List.forall_mem_cons.2 ⟨first, rest⟩)
    (fun _ _ below => below) shape

end SelectionShape

/-! ## Fields -/

namespace FieldShape

/-- A field that is selected in two places, and the conflicts below it. -/
def join (present added : FieldShape) : FieldShape × List ShapeConflict :=
  let info := present.info.merge added.info
  match present.selection?, added.selection? with
  | none, none => (.leaf added.name info, [])
  | some inner, none => (.composite added.name info inner, [])
  | none, some inner => (.composite added.name info inner, [])
  | some inner, some other =>
      let (joined, conflicts) := inner.merge other
      (.composite added.name info joined, conflicts)

theorem name_join (present added : FieldShape) : (present.join added).1.name = added.name := by
  unfold join
  split <;> rfl

end FieldShape

namespace SelectionShape

theorem mergeField_eq (into : List FieldShape) (field : FieldShape) :
    mergeField into field =
      match Ordered.find? FieldShape.name field.name into with
      | none => (into ++ [field], [])
      | some present =>
          if present.info.field ≠ field.info.field then
            (into, [⟨field.name, present.info.field, field.info.field⟩])
          else
            (Ordered.upsert FieldShape.name (present.join field).1 into, (present.join field).2) := by
  cases field with
  | leaf name info =>
      rw [mergeField]
      simp only [FieldShape.name, FieldShape.info]
      cases Ordered.find? FieldShape.name name into with
      | none => rfl
      | some present => cases present <;> rfl
  | composite name info selection =>
      rw [mergeField]
      simp only [FieldShape.name, FieldShape.info]
      cases Ordered.find? FieldShape.name name into with
      | none => rfl
      | some present => cases present <;> rfl

def fieldsAt? (fields : List FieldShape) : ShapePath → Option FieldInfo
  | .field name :: rest =>
      (Ordered.find? FieldShape.name name fields).bind fun field => field.infoAt? rest
  | _ => none

def conditionsAt? (conditions : List (String × SelectionShape)) : ShapePath → Option FieldInfo
  | .type name :: rest => (NameMap.lookup name conditions).bind fun inner => inner.infoAt? rest
  | _ => none

private theorem infoAt?_mk (fields : List FieldShape) (conditions : List (String × SelectionShape))
    (fragments : List FragmentRef) (path : ShapePath) :
    (mk fields conditions fragments).infoAt? path =
      (fieldsAt? fields path).or (conditionsAt? conditions path) := by
  cases path using ShapePath.byFirst with
  | nil => rfl
  | field _ _ => exact (Option.or_none).symm
  | type _ _ => rfl

/-- The merge of two shapes is joining, path by path. -/
abbrev MergeJoins (into added : SelectionShape) : Prop :=
  Joins into.infoAt? added.infoAt? (into.merge added).1.infoAt? (into.merge added).2

private theorem join_joins {present added : FieldShape}
    (same : present.info.field = added.info.field)
    (inner : ∀ selection, added.selection? = some selection → ∀ into, MergeJoins into selection) :
    Joins present.infoAt? added.infoAt? (present.join added).1.infoAt? (present.join added).2 := by
  have below : Joins (fun path => present.selection?.bind fun inner => inner.infoAt? path)
      (fun path => added.selection?.bind fun inner => inner.infoAt? path)
      (fun path => (present.join added).1.selection?.bind fun inner => inner.infoAt? path)
      (present.join added).2 := by
    unfold FieldShape.join
    cases first : present.selection? with
    | none =>
        cases second : added.selection? with
        | none => exact Joins.none_left _
        | some selection => exact Joins.none_left _
    | some into =>
        cases second : added.selection? with
        | none => exact Joins.none_right _
        | some selection => exact inner selection second into
  have info : (present.join added).1.info = present.info.merge added.info := by
    unfold FieldShape.join
    split <;> rfl
  have both := below.atRoot same (by cases present.selection? <;> rfl)
  rw [← info] at both
  exact both

end SelectionShape

namespace Ordered

theorem find?_append {α : Type} (key : α → String) (name : String) (first second : List α) :
    find? key name (first ++ second) = (find? key name first).or (find? key name second) := by
  induction first with
  | nil => rfl
  | cons head rest ih =>
      by_cases same : key head = name
      · simp [find?, same]
      · simp [find?, same, ih]

theorem mem_of_find? {α : Type} {key : α → String} {name : String} {entries : List α} {entry : α}
    (found : find? key name entries = some entry) : entry ∈ entries := by
  induction entries with
  | nil => cases found
  | cons head rest ih =>
      by_cases same : key head = name
      · rw [find?, if_pos same, Option.some.injEq] at found
        exact found ▸ List.mem_cons_self
      · rw [find?, if_neg same] at found
        exact List.mem_cons_of_mem _ (ih found)

theorem find?_eq_none_iff {α : Type} {key : α → String} {name : String} {entries : List α} :
    find? key name entries = none ↔ name ∉ entries.map key := by
  induction entries with
  | nil => simp [find?]
  | cons head rest ih =>
      by_cases same : key head = name
      · simp [find?, same]
      · simp [find?, same, ih, Ne.symm same]

end Ordered

namespace SelectionShape

private theorem fieldsAt?_elsewhere {field : FieldShape} {path : ShapePath}
    (elsewhere : path.head? ≠ some (.field field.name)) : fieldsAt? [field] path = none := by
  cases path using ShapePath.byFirst with
  | nil => rfl
  | type _ _ => rfl
  | field other rest =>
      have different : field.name ≠ other := fun same => elsewhere (by rw [same]; rfl)
      simp [fieldsAt?, Ordered.find?, different]

theorem fieldsAt?_congr {first second : List FieldShape} {name : String}
    (same : ∀ other, name ≠ other →
      Ordered.find? FieldShape.name other first = Ordered.find? FieldShape.name other second)
    {path : ShapePath} (elsewhere : path.head? ≠ some (.field name)) :
    fieldsAt? first path = fieldsAt? second path := by
  cases path using ShapePath.byFirst with
  | nil => rfl
  | type _ _ => rfl
  | field other rest =>
      have different : name ≠ other := fun same => elsewhere (by rw [same]; rfl)
      rw [fieldsAt?, fieldsAt?, same other different]

private theorem mergeField_joins (into : List FieldShape) {field : FieldShape}
    (inner : ∀ selection, field.selection? = some selection → ∀ into, MergeJoins into selection) :
    Joins (fieldsAt? into) (fieldsAt? [field]) (fieldsAt? (mergeField into field).1)
      (mergeField into field).2 := by
  have alone (path : ShapePath) : fieldsAt? [field] (.field field.name :: path) = field.infoAt? path := by
    simp [fieldsAt?, Ordered.find?]
  rw [mergeField_eq]
  cases found : Ordered.find? FieldShape.name field.name into with
  | none =>
      refine (Joins.none_left field.infoAt?).behind (.field field.name) (fun path => ?_) alone
        (fun path => ?_) (fun path => fieldsAt?_elsewhere)
        fun path => fieldsAt?_congr fun other different => ?_
      · rw [fieldsAt?, found]
        rfl
      · simp [fieldsAt?, Ordered.find?_append, found, Ordered.find?]
      · simp [Ordered.find?_append, Ordered.find?, different]
  | some present =>
      have here (path : ShapePath) :
          fieldsAt? into (.field field.name :: path) = present.infoAt? path := by
        rw [fieldsAt?, found]
        rfl
      by_cases same : present.info.field = field.info.field
      · simp only [ne_eq, same, not_true_eq_false, if_false]
        refine (join_joins same inner).behind (.field field.name) here alone (fun path => ?_)
          (fun path => fieldsAt?_elsewhere) fun path => fieldsAt?_congr fun other different => ?_
        · have written := Ordered.find?_upsert_self FieldShape.name (present.join field).1 into
          rw [FieldShape.name_join] at written
          rw [fieldsAt?, written]
          rfl
        · exact Ordered.find?_upsert_of_ne _ _ _ _ (by rwa [FieldShape.name_join])
      · simp only [ne_eq, same, not_false_eq_true, if_true]
        refine ⟨⟨fun none => absurd none (by simp), fun agree => ?_⟩, fun none => absurd none (by simp)⟩
        exact absurd (agree [.field field.name] _ _ (here []) (alone [])) same

private theorem mergeFields_joins (into : List FieldShape) {added : List FieldShape}
    (distinct : (added.map FieldShape.name).Nodup)
    (inner : ∀ field ∈ added, ∀ selection, field.selection? = some selection →
      ∀ into, MergeJoins into selection) :
    Joins (fieldsAt? into) (fieldsAt? added) (fieldsAt? (mergeFields into added).1)
      (mergeFields into added).2 := by
  induction added generalizing into with
  | nil =>
      have nothing : fieldsAt? [] = fun _ => none := by
        funext path
        cases path using ShapePath.byFirst <;> rfl
      rw [nothing, mergeFields]
      exact Joins.none_right _
  | cons field rest ih =>
      rw [List.map_cons, List.nodup_cons] at distinct
      rw [List.forall_mem_cons] at inner
      have absent := Ordered.find?_eq_none_iff.2 distinct.1
      have parts (path : ShapePath) :
          (fieldsAt? [field] path = none ∨ fieldsAt? rest path = none) ∧
            (fieldsAt? [field] path).or (fieldsAt? rest path) = fieldsAt? (field :: rest) path := by
        cases path using ShapePath.byFirst with
        | nil => exact ⟨.inl rfl, rfl⟩
        | type _ _ => exact ⟨.inl rfl, rfl⟩
        | field name more =>
            by_cases same : field.name = name
            · subst same
              simp [fieldsAt?, Ordered.find?, absent]
            · simp [fieldsAt?, Ordered.find?, same]
      have both := (mergeField_joins into inner.1).append (ih _ distinct.2 inner.2) fun path =>
        (parts path).1
      rw [mergeFields]
      rwa [funext fun path => (parts path).2] at both

private theorem conditionsAt?_elsewhere {type : String} {shape : SelectionShape} {path : ShapePath}
    (elsewhere : path.head? ≠ some (.type type)) : conditionsAt? [(type, shape)] path = none := by
  cases path using ShapePath.byFirst with
  | nil => rfl
  | field _ _ => rfl
  | type other rest =>
      have different : type ≠ other := fun same => elsewhere (by rw [same]; rfl)
      simp [conditionsAt?, NameMap.lookup, different]

private theorem mergeCondition_joins (into : List (String × SelectionShape)) (type : String)
    {shape : SelectionShape} (inner : ∀ into, MergeJoins into shape) :
    let joined := ((NameMap.lookup type into).getD empty).merge shape
    Joins (conditionsAt? into) (conditionsAt? [(type, shape)])
      (conditionsAt? (NameMap.place type joined.1 into)) joined.2 := by
  refine (inner _).behind (.type type) (fun path => ?_) (fun path => ?_) (fun path => ?_)
    (fun path => conditionsAt?_elsewhere) fun path elsewhere => ?_
  · cases found : NameMap.lookup type into with
    | none => simp [conditionsAt?, found, infoAt?_empty]
    | some present => simp [conditionsAt?, found]
  · simp [conditionsAt?, NameMap.lookup]
  · rw [conditionsAt?, NameMap.lookup_place_self]
    rfl
  · cases path using ShapePath.byFirst with
    | nil => rfl
    | field _ _ => rfl
    | type other rest =>
        have different : type ≠ other := fun same => elsewhere (by rw [same]; rfl)
        rw [conditionsAt?, conditionsAt?, NameMap.lookup_place_of_ne _ _ different]

private theorem mergeConditions_joins (into : List (String × SelectionShape))
    {added : List (String × SelectionShape)}
    (increasing : added.Pairwise fun first second => first.1 < second.1)
    (inner : ∀ entry ∈ added, ∀ into, MergeJoins into entry.2) :
    Joins (conditionsAt? into) (conditionsAt? added) (conditionsAt? (mergeConditions into added).1)
      (mergeConditions into added).2 := by
  induction added generalizing into with
  | nil =>
      have nothing : conditionsAt? [] = fun _ => none := by
        funext path
        cases path using ShapePath.byFirst <;> rfl
      rw [nothing, mergeConditions]
      exact Joins.none_right _
  | cons entry rest ih =>
      obtain ⟨type, shape⟩ := entry
      rw [List.pairwise_cons] at increasing
      rw [List.forall_mem_cons] at inner
      have absent : NameMap.lookup type rest = none := by
        refine NameMap.lookup_eq_none fun other member same => ?_
        have below := increasing.1 other member
        rw [same] at below
        exact String.lt_irrefl _ below
      have parts (path : ShapePath) :
          (conditionsAt? [(type, shape)] path = none ∨ conditionsAt? rest path = none) ∧
            (conditionsAt? [(type, shape)] path).or (conditionsAt? rest path) =
              conditionsAt? ((type, shape) :: rest) path := by
        cases path using ShapePath.byFirst with
        | nil => exact ⟨.inl rfl, rfl⟩
        | field _ _ => exact ⟨.inl rfl, rfl⟩
        | type name more =>
            by_cases same : type = name
            · subst same
              simp [conditionsAt?, NameMap.lookup, absent]
            · simp [conditionsAt?, NameMap.lookup, same]
      have both := (mergeCondition_joins into type inner.1).append (ih _ increasing.2 inner.2)
        fun path => (parts path).1
      rw [mergeConditions]
      rwa [funext fun path => (parts path).2] at both

theorem merge_joins {added : SelectionShape} (distinct : added.Distinct) (into : SelectionShape) :
    MergeJoins into added := by
  induction added using SelectionShape.induction generalizing into with
  | mk fields conditions fragments ihFields ihConditions =>
      cases distinct with
      | mk names increasing distinctFields distinctConditions =>
          obtain ⟨present, presentConditions, presentFragments⟩ := into
          have fieldsJoined := mergeFields_joins present names
            fun field member selection found into =>
              ihFields field member selection found (distinctFields field member selection found) into
          have conditionsJoined := mergeConditions_joins presentConditions increasing
            fun entry member into => ihConditions entry member (distinctConditions entry member) into
          have first : Joins (mk present presentConditions presentFragments).infoAt? (fieldsAt? fields)
              (mk (mergeFields present fields).1 presentConditions presentFragments).infoAt?
              (mergeFields present fields).2 := by
            refine fieldsJoined.extend fun path => ?_
            cases path using ShapePath.byFirst with
            | nil => exact .inr ⟨rfl, rfl, rfl⟩
            | field _ _ => exact .inl ⟨rfl, rfl, rfl⟩
            | type _ _ => exact .inr ⟨rfl, rfl, rfl⟩
          have second : Joins
              (mk (mergeFields present fields).1 presentConditions presentFragments).infoAt?
              (conditionsAt? conditions)
              (merge (mk present presentConditions presentFragments)
                (mk fields conditions fragments)).1.infoAt?
              (mergeConditions presentConditions conditions).2 := by
            rw [merge]
            refine conditionsJoined.extend fun path => ?_
            cases path using ShapePath.byFirst with
            | nil => exact .inr ⟨rfl, rfl, rfl⟩
            | field _ _ => exact .inr ⟨rfl, rfl, rfl⟩
            | type _ _ => exact .inl ⟨rfl, rfl, rfl⟩
          have both := first.append second fun path => by
            cases path using ShapePath.byFirst with
            | nil => exact .inl rfl
            | field _ _ => exact .inr rfl
            | type _ _ => exact .inl rfl
          unfold MergeJoins
          rw [merge] at both ⊢
          rwa [← funext (infoAt?_mk fields conditions fragments)] at both

/-! ## Merged shapes list each name once -/

theorem empty_distinct : empty.Distinct :=
  .mk .nil .nil (by simp) (by simp)

theorem withFragment_distinct {shape : SelectionShape} (distinct : shape.Distinct)
    (fragment : FragmentRef) : (shape.withFragment fragment).Distinct := by
  cases distinct with
  | mk names increasing fields conditions => exact .mk names increasing fields conditions

private theorem join_distinct {present added : FieldShape} (presentDistinct : present.Distinct)
    (addedDistinct : added.Distinct)
    (inner : ∀ selection, added.selection? = some selection → ∀ into : SelectionShape,
      into.Distinct → (into.merge selection).1.Distinct) : (present.join added).1.Distinct := by
  intro selection found
  unfold FieldShape.join at found
  split at found
  · cases found
  · rename_i present _
    cases found
    exact presentDistinct _ present
  · rename_i _ added
    cases found
    exact addedDistinct _ added
  · rename_i present added
    cases found
    exact inner _ added _ (presentDistinct _ present)

private theorem mem_upsert {entry other : FieldShape} {entries : List FieldShape}
    (member : other ∈ Ordered.upsert FieldShape.name entry entries) :
    other = entry ∨ other ∈ entries := by
  induction entries with
  | nil => exact .inl (List.mem_singleton.1 member)
  | cons head rest ih =>
      rw [Ordered.upsert] at member
      split at member
      · rcases List.mem_cons.1 member with same | later
        · exact .inl same
        · exact .inr (List.mem_cons_of_mem _ later)
      · rcases List.mem_cons.1 member with same | later
        · exact .inr (same ▸ List.mem_cons_self)
        · exact (ih later).imp id (List.mem_cons_of_mem _)

/-- Fields of different names, whose values have shapes that list each name once. -/
structure DistinctFields (fields : List FieldShape) : Prop where
  names : (fields.map FieldShape.name).Nodup
  inner : ∀ field ∈ fields, field.Distinct

private theorem mergeField_distinct {into : List FieldShape} {field : FieldShape}
    (distinct : DistinctFields into) (fieldDistinct : field.Distinct)
    (inner : ∀ selection, field.selection? = some selection → ∀ into : SelectionShape,
      into.Distinct → (into.merge selection).1.Distinct) :
    DistinctFields (mergeField into field).1 := by
  rw [mergeField_eq]
  cases found : Ordered.find? FieldShape.name field.name into with
  | none =>
      refine ⟨?_, List.forall_mem_append.2 ⟨distinct.inner, by simpa using fieldDistinct⟩⟩
      rw [List.map_append, List.nodup_append]
      refine ⟨distinct.names, by simp, fun name member other single same => ?_⟩
      rw [List.map_singleton, List.mem_singleton] at single
      rw [same, single] at member
      exact Ordered.find?_eq_none_iff.1 found member
  | some present =>
      by_cases same : present.info.field = field.info.field
      · simp only [ne_eq, same, not_true_eq_false, if_false]
        refine ⟨Ordered.nodup_keys_upsert _ _ _ distinct.names, fun other member => ?_⟩
        rcases mem_upsert member with rfl | before
        · exact join_distinct (distinct.inner present (Ordered.mem_of_find? found)) fieldDistinct inner
        · exact distinct.inner other before
      · simp only [ne_eq, same, not_false_eq_true, if_true]
        exact distinct

private theorem mergeFields_distinct {into added : List FieldShape} (distinct : DistinctFields into)
    (addedDistinct : ∀ field ∈ added, field.Distinct)
    (inner : ∀ field ∈ added, ∀ selection, field.selection? = some selection →
      ∀ into : SelectionShape, into.Distinct → (into.merge selection).1.Distinct) :
    DistinctFields (mergeFields into added).1 := by
  induction added generalizing into with
  | nil => rwa [mergeFields]
  | cons field rest ih =>
      rw [List.forall_mem_cons] at addedDistinct inner
      rw [mergeFields]
      exact ih (mergeField_distinct distinct addedDistinct.1 inner.1) addedDistinct.2 inner.2

private theorem mergeConditions_distinct {into added : List (String × SelectionShape)}
    (increasing : into.Pairwise fun first second => first.1 < second.1)
    (distinct : ∀ entry ∈ into, entry.2.Distinct)
    (inner : ∀ entry ∈ added, ∀ into : SelectionShape, into.Distinct →
      (into.merge entry.2).1.Distinct) :
    ((mergeConditions into added).1.Pairwise fun first second => first.1 < second.1) ∧
      ∀ entry ∈ (mergeConditions into added).1, entry.2.Distinct := by
  induction added generalizing into with
  | nil =>
      rw [mergeConditions]
      exact ⟨increasing, distinct⟩
  | cons entry rest ih =>
      obtain ⟨type, shape⟩ := entry
      rw [List.forall_mem_cons] at inner
      rw [mergeConditions]
      refine ih (NameMap.place_increasing increasing) (fun entry member => ?_) inner.2
      rcases NameMap.mem_of_mem_place member with rfl | before
      · refine inner.1 _ ?_
        cases found : NameMap.lookup type into with
        | none => exact empty_distinct
        | some present =>
            obtain ⟨other, before, rfl⟩ := List.mem_map.1 (NameMap.mem_values_of_lookup found)
            exact distinct other before
      · exact distinct entry before

theorem merge_distinct {into added : SelectionShape} (distinct : into.Distinct)
    (addedDistinct : added.Distinct) : (into.merge added).1.Distinct := by
  induction added using SelectionShape.induction generalizing into with
  | mk fields conditions fragments ihFields ihConditions =>
      cases addedDistinct with
      | mk names increasing distinctFields distinctConditions =>
          cases distinct with
          | mk presentNames presentIncreasing presentFields presentConditions =>
              rw [merge]
              obtain ⟨joinedNames, joinedFields⟩ := mergeFields_distinct ⟨presentNames, presentFields⟩
                distinctFields fun field member selection found into intoDistinct =>
                  ihFields field member selection found intoDistinct
                    (distinctFields field member selection found)
              obtain ⟨joinedIncreasing, joinedConditions⟩ :=
                mergeConditions_distinct presentIncreasing presentConditions
                  fun entry member into intoDistinct =>
                    ihConditions entry member intoDistinct (distinctConditions entry member)
              exact .mk joinedNames joinedIncreasing joinedFields joinedConditions

end SelectionShape

end GraphqlStore
