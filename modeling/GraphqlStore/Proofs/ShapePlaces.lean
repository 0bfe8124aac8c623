import GraphqlStore.Proofs.ShapeMerge

/-!
The shapes inside a shape, by the steps that lead to them. A merge that
reports nothing merges the shapes of every place, and what it makes of the two
shapes of one place can be read off: new names and fragments come after those
that are there, and fields of one name are joined.
-/

set_option autoImplicit false

namespace GraphqlStore

/-! ## Lists without repetitions -/

section AddNew

variable {α : Type} [BEq α] [LawfulBEq α]

def addNew (list : List α) (value : α) : List α :=
  if list.contains value then list else list ++ [value]

/-- Adds the values of a list in order, each unless it is there already. -/
def addAll (list added : List α) : List α := added.foldl addNew list

omit [LawfulBEq α] in
theorem addAll_append (list added others : List α) :
    addAll list (added ++ others) = addAll (addAll list added) others :=
  List.foldl_append

theorem mem_addAll {value : α} {list added : List α} :
    value ∈ addAll list added ↔ value ∈ list ∨ value ∈ added := by
  induction added generalizing list with
  | nil => simp [addAll]
  | cons first rest ih =>
      rw [addAll, List.foldl_cons, ← addAll, ih, addNew]
      split
      · rename_i known
        rw [List.contains_iff_mem] at known
        grind
      · simp [or_assoc]

private theorem addAll_addNew (list added : List α) (value : α) :
    addAll list (addNew added value) = addNew (addAll list added) value := by
  unfold addNew
  split
  · rename_i known
    rw [List.contains_iff_mem] at known
    rw [if_pos (List.contains_iff_mem.2 (mem_addAll.2 (.inr known)))]
  · exact addAll_append list added [value]

theorem addAll_addAll (list added others : List α) :
    addAll list (addAll added others) = addAll (addAll list added) others := by
  induction others generalizing added with
  | nil => rfl
  | cons first rest ih =>
      have next : addAll added (first :: rest) = addAll (addNew added first) rest := rfl
      rw [next, ih, addAll_addNew]
      rfl

private theorem addAll_of_nodup {list added : List α} (distinct : (list ++ added).Nodup) :
    addAll list added = list ++ added := by
  induction added generalizing list with
  | nil => exact (List.append_nil list).symm
  | cons first rest ih =>
      have fresh : ¬ list.contains first = true := by
        rw [List.contains_iff_mem]
        exact fun known => (List.nodup_append.1 distinct).2.2 first known first List.mem_cons_self rfl
      have next : addAll list (first :: rest) = addAll (list ++ [first]) rest := by
        rw [addAll, List.foldl_cons, addNew, if_neg fresh]
        rfl
      rw [List.append_cons] at distinct ⊢
      rw [next, ih distinct]

theorem nodup_addAll {list : List α} (distinct : list.Nodup) (added : List α) :
    (addAll list added).Nodup := by
  induction added generalizing list with
  | nil => exact distinct
  | cons first rest ih =>
      refine ih ?_
      unfold addNew
      split
      · exact distinct
      · rename_i fresh
        rw [List.contains_iff_mem] at fresh
        refine List.nodup_append.2 ⟨distinct, by simp, fun value known other single same => ?_⟩
        rw [List.mem_singleton] at single
        exact fresh (single ▸ same ▸ known)

end AddNew

namespace SelectionShape

/-! ## Places -/

/-- The shape that one step leads to; the one without fields if it leads nowhere. -/
def follow (shape : SelectionShape) : ShapeStep → SelectionShape
  | .field name => ((shape.field? name).bind FieldShape.selection?).getD empty
  | .type name => (NameMap.lookup name shape.conditions).getD empty

def shapeAt (shape : SelectionShape) (place : ShapePath) : SelectionShape := place.foldl follow shape

theorem shapeAt_cons (shape : SelectionShape) (step : ShapeStep) (rest : ShapePath) :
    shape.shapeAt (step :: rest) = (shape.follow step).shapeAt rest := rfl

theorem shapeAt_append (shape : SelectionShape) (place rest : ShapePath) :
    shape.shapeAt (place ++ rest) = (shape.shapeAt place).shapeAt rest :=
  List.foldl_append

private theorem follow_empty (step : ShapeStep) : empty.follow step = empty := by
  cases step <;> rfl

theorem shapeAt_empty (place : ShapePath) : empty.shapeAt place = empty := by
  induction place with
  | nil => rfl
  | cons step rest ih => rw [shapeAt_cons, follow_empty, ih]

theorem infoAt?_append (shape : SelectionShape) (place : ShapePath) (step : ShapeStep) :
    shape.infoAt? (place ++ [step]) = (shape.shapeAt place).infoAt? [step] := by
  induction place generalizing shape with
  | nil => rfl
  | cons first rest ih =>
      rw [List.cons_append, shapeAt_cons, ← ih]
      cases first with
      | field name =>
          rw [infoAt?_field, follow]
          cases shape.field? name with
          | none => exact (infoAt?_empty _).symm
          | some field =>
              have more : (rest ++ [step]).isEmpty = false := by simp
              rw [Option.bind_some, FieldShape.infoAt?, more, Option.bind_some]
              cases field.selection? with
              | none => exact (infoAt?_empty _).symm
              | some inner => rfl
      | type name =>
          rw [infoAt?_type, follow]
          cases NameMap.lookup name shape.conditions with
          | none => exact (infoAt?_empty _).symm
          | some inner => rfl

theorem infoAt?_here (shape : SelectionShape) (name : String) :
    shape.infoAt? [.field name] = (shape.field? name).map FieldShape.info := by
  rw [infoAt?_field]
  cases shape.field? name <;> rfl

theorem infoAt?_condition (shape : SelectionShape) (name : String) :
    shape.infoAt? [.type name] = none := by
  rw [infoAt?_type]
  cases NameMap.lookup name shape.conditions <;> rfl

theorem Distinct.follow {shape : SelectionShape} (distinct : shape.Distinct) (step : ShapeStep) :
    (shape.follow step).Distinct := by
  cases distinct with
  | @mk fields conditions fragments names increasing inner others =>
      cases step with
      | field name =>
          rw [SelectionShape.follow]
          cases found : (SelectionShape.mk fields conditions fragments).field? name with
          | none => exact empty_distinct
          | some field =>
              rw [Option.bind_some]
              cases selection : field.selection? with
              | none => exact empty_distinct
              | some shape => exact inner field (Ordered.mem_of_find? found) shape selection
      | type name =>
          rw [SelectionShape.follow]
          cases found : NameMap.lookup name conditions with
          | none =>
              simp only [SelectionShape.conditions, found]
              exact empty_distinct
          | some shape =>
              simp only [SelectionShape.conditions, found]
              exact others _ ((NameMap.mem_iff_lookup increasing).2 found)

theorem Distinct.shapeAt {shape : SelectionShape} (distinct : shape.Distinct) (place : ShapePath) :
    (shape.shapeAt place).Distinct := by
  induction place generalizing shape with
  | nil => exact distinct
  | cons step rest ih => exact ih (distinct.follow step)

/-- Every shape in a shape lists each fragment once. -/
def MarksOnce (shape : SelectionShape) : Prop := ∀ place, (shape.shapeAt place).fragments.Nodup

/-! ## Merging with nothing -/

theorem merge_empty (shape : SelectionShape) : shape.merge empty = (shape, []) := by
  obtain ⟨fields, conditions, fragments⟩ := shape
  simp [merge, empty, mergeFields, mergeConditions, SelectionShape.fields,
    SelectionShape.conditions, SelectionShape.fragments]

private theorem mergeFields_apart {into added : List FieldShape}
    (distinct : ((into ++ added).map FieldShape.name).Nodup) :
    mergeFields into added = (into ++ added, []) := by
  induction added generalizing into with
  | nil => rw [mergeFields, List.append_nil]
  | cons field rest ih =>
      have absent : Ordered.find? FieldShape.name field.name into = none := by
        rw [Ordered.find?_eq_none_iff]
        rw [List.map_append, List.map_cons, List.nodup_append] at distinct
        exact fun known => distinct.2.2 _ known _ List.mem_cons_self rfl
      rw [List.append_cons] at distinct ⊢
      rw [mergeFields, mergeField_eq, absent]
      simp only [ih distinct, List.append_nil]

private theorem mergeConditions_apart {into added : List (String × SelectionShape)}
    (increasing : (into ++ added).Pairwise fun first second => first.1 < second.1)
    (each : ∀ entry ∈ added, empty.merge entry.2 = (entry.2, [])) :
    mergeConditions into added = (into ++ added, []) := by
  induction added generalizing into with
  | nil => rw [mergeConditions, List.append_nil]
  | cons entry rest ih =>
      obtain ⟨type, shape⟩ := entry
      rw [List.forall_mem_cons] at each
      have after : ∀ entry ∈ into, entry.1 < type := fun entry member =>
        (List.pairwise_append.1 increasing).2.2 entry member _ List.mem_cons_self
      have absent : NameMap.lookup type into = none := NameMap.lookup_eq_none fun other member same =>
        String.lt_irrefl type (same ▸ after other member)
      rw [List.append_cons] at increasing ⊢
      rw [mergeConditions, absent, Option.getD_none, each.1]
      simp only [NameMap.place_of_lt after, ih increasing each.2, List.append_nil]

theorem empty_merge {shape : SelectionShape} (distinct : shape.Distinct) (once : shape.MarksOnce) :
    empty.merge shape = (shape, []) := by
  induction shape using SelectionShape.induction with
  | mk fields conditions fragments ihFields ihConditions =>
      cases distinct with
      | mk names increasing distinctFields distinctConditions =>
          have inner (entry : String × SelectionShape) (member : entry ∈ conditions) :
              empty.merge entry.2 = (entry.2, []) := by
            refine ihConditions entry member (distinctConditions entry member) fun place => ?_
            have here := once (.type entry.1 :: place)
            rwa [shapeAt_cons, follow, SelectionShape.conditions, (NameMap.mem_iff_lookup increasing).1 member]
              at here
          have marks : fragments.foldl addFragment [] = fragments :=
            addAll_of_nodup (once [])
          rw [merge]
          simp only [empty, SelectionShape.fields, SelectionShape.conditions,
            SelectionShape.fragments]
          rw [mergeFields_apart (by simpa using names),
            mergeConditions_apart (by simpa using increasing) inner, marks]
          rfl

/-! ## Merging place by place -/

private theorem find?_mergeField {into : List FieldShape} {field : FieldShape}
    (silent : (mergeField into field).2 = []) (name : String) :
    Ordered.find? FieldShape.name name (mergeField into field).1 =
      Option.merge (fun present added => (present.join added).1)
        (Ordered.find? FieldShape.name name into) (Ordered.find? FieldShape.name name [field]) := by
  rw [mergeField_eq] at silent ⊢
  cases found : Ordered.find? FieldShape.name field.name into with
  | none =>
      by_cases same : field.name = name
      · subst same
        simp [Ordered.find?_append, found, Ordered.find?]
      · simp [Ordered.find?_append, Ordered.find?, same]
  | some present =>
      simp only [found] at silent
      split at silent
      · cases silent
      · rename_i agree
        simp only [if_neg agree]
        by_cases same : field.name = name
        · subst same
          have written := Ordered.find?_upsert_self FieldShape.name (present.join field).1 into
          rw [FieldShape.name_join] at written
          simp [written, found, Ordered.find?]
        · rw [Ordered.find?_upsert_of_ne _ _ _ _ (by rwa [FieldShape.name_join])]
          simp [Ordered.find?, same]

private theorem find?_mergeFields {into added : List FieldShape}
    (distinct : (added.map FieldShape.name).Nodup) (silent : (mergeFields into added).2 = [])
    (name : String) :
    Ordered.find? FieldShape.name name (mergeFields into added).1 =
      Option.merge (fun present added => (present.join added).1)
        (Ordered.find? FieldShape.name name into) (Ordered.find? FieldShape.name name added) := by
  induction added generalizing into with
  | nil => simp [mergeFields, Ordered.find?]
  | cons field rest ih =>
      rw [List.map_cons, List.nodup_cons] at distinct
      rw [mergeFields] at silent ⊢
      simp only [List.append_eq_nil_iff] at silent
      simp only
      rw [ih distinct.2 silent.2, find?_mergeField silent.1]
      by_cases same : field.name = name
      · subst same
        simp [Ordered.find?, Ordered.find?_eq_none_iff.2 distinct.1]
      · simp [Ordered.find?, same]

private theorem silent_of_mergeFields {into added : List FieldShape}
    (distinct : (added.map FieldShape.name).Nodup) (silent : (mergeFields into added).2 = [])
    {name : String} {present field : FieldShape}
    (here : Ordered.find? FieldShape.name name into = some present)
    (there : Ordered.find? FieldShape.name name added = some field) :
    present.info.field = field.info.field ∧ (present.join field).2 = [] := by
  induction added generalizing into with
  | nil => cases there
  | cons first rest ih =>
      rw [List.map_cons, List.nodup_cons] at distinct
      rw [mergeFields] at silent
      simp only [List.append_eq_nil_iff] at silent
      by_cases same : first.name = name
      · subst same
        rw [Ordered.find?, if_pos rfl, Option.some.injEq] at there
        subst there
        have own := silent.1
        simp only [mergeField_eq, here] at own
        split at own
        · cases own
        · rename_i agree
          exact ⟨Decidable.of_not_not agree, own⟩
      · rw [Ordered.find?, if_neg same] at there
        refine ih distinct.2 silent.2 ?_ there
        rw [find?_mergeField silent.1, here]
        simp [Ordered.find?, same]

theorem lookup_mergeConditions {into added : List (String × SelectionShape)}
    (increasing : added.Pairwise fun first second => first.1 < second.1) (type : String) :
    NameMap.lookup type (mergeConditions into added).1 =
      match NameMap.lookup type added with
      | none => NameMap.lookup type into
      | some shape => some (((NameMap.lookup type into).getD empty).merge shape).1 := by
  induction added generalizing into with
  | nil => rw [mergeConditions, NameMap.lookup]
  | cons entry rest ih =>
      obtain ⟨first, shape⟩ := entry
      rw [List.pairwise_cons] at increasing
      rw [mergeConditions]
      simp only
      rw [ih increasing.2, NameMap.lookup]
      by_cases same : first = type
      · subst same
        have absent : NameMap.lookup first rest = none :=
          NameMap.lookup_eq_none fun other member same =>
            String.lt_irrefl first (same ▸ increasing.1 other member)
        rw [absent, if_pos rfl, NameMap.lookup_place_self]
      · rw [if_neg same, NameMap.lookup_place_of_ne _ _ same]

theorem silent_of_mergeConditions {into added : List (String × SelectionShape)}
    (increasing : added.Pairwise fun first second => first.1 < second.1)
    (silent : (mergeConditions into added).2 = []) {type : String} {shape : SelectionShape}
    (found : NameMap.lookup type added = some shape) :
    (((NameMap.lookup type into).getD empty).merge shape).2 = [] := by
  induction added generalizing into with
  | nil => cases found
  | cons entry rest ih =>
      obtain ⟨first, here⟩ := entry
      rw [List.pairwise_cons] at increasing
      rw [mergeConditions] at silent
      simp only [List.append_eq_nil_iff] at silent
      by_cases same : first = type
      · rw [NameMap.lookup, if_pos same, Option.some.injEq] at found
        rw [← same, ← found]
        exact silent.1
      · rw [NameMap.lookup, if_neg same] at found
        have later := ih increasing.2 silent.2 found
        rwa [NameMap.lookup_place_of_ne _ _ same] at later

theorem Distinct.nodup_names {shape : SelectionShape} (distinct : shape.Distinct) :
    (shape.fields.map FieldShape.name).Nodup := by
  cases distinct with
  | mk names _ _ _ => exact names

theorem Distinct.increasing {shape : SelectionShape} (distinct : shape.Distinct) :
    shape.conditions.Pairwise fun first second => first.1 < second.1 := by
  cases distinct with
  | mk _ increasing _ _ => exact increasing

theorem merge_silent_iff (into added : SelectionShape) :
    (into.merge added).2 = [] ↔ (mergeFields into.fields added.fields).2 = [] ∧
      (mergeConditions into.conditions added.conditions).2 = [] := by
  cases added
  rw [merge]
  exact List.append_eq_nil_iff

private theorem fields_merge (into added : SelectionShape) :
    (into.merge added).1.fields = (mergeFields into.fields added.fields).1 := by
  cases added
  rw [merge]
  rfl

theorem conditions_merge (into added : SelectionShape) :
    (into.merge added).1.conditions = (mergeConditions into.conditions added.conditions).1 := by
  cases added
  rw [merge]
  rfl

theorem fragments_merge (into added : SelectionShape) :
    (into.merge added).1.fragments = addAll into.fragments added.fragments := by
  cases added
  rw [merge]
  rfl

theorem field?_merge {into added : SelectionShape} (distinct : added.Distinct)
    (silent : (into.merge added).2 = []) (name : String) :
    (into.merge added).1.field? name =
      Option.merge (fun present added => (present.join added).1) (into.field? name)
        (added.field? name) := by
  rw [field?, fields_merge]
  exact find?_mergeFields distinct.nodup_names ((merge_silent_iff into added).1 silent).1 name

theorem silent_of_merge {into added : SelectionShape} (distinct : added.Distinct)
    (silent : (into.merge added).2 = []) {name : String} {present field : FieldShape}
    (here : into.field? name = some present) (there : added.field? name = some field) :
    present.info.field = field.info.field ∧ (present.join field).2 = [] :=
  silent_of_mergeFields distinct.nodup_names ((merge_silent_iff into added).1 silent).1 here there

theorem selection?_join {present field : FieldShape} (silent : (present.join field).2 = [])
    (alone : empty.merge (field.selection?.getD empty) = (field.selection?.getD empty, [])) :
    (present.join field).1.selection?.getD empty =
        ((present.selection?.getD empty).merge (field.selection?.getD empty)).1 ∧
      ((present.selection?.getD empty).merge (field.selection?.getD empty)).2 = [] := by
  unfold FieldShape.join at silent ⊢
  cases one : present.selection? with
  | none =>
      rw [Option.getD_none, alone]
      cases two : field.selection? <;> exact ⟨rfl, rfl⟩
  | some inner =>
      cases two : field.selection? with
      | none =>
          rw [Option.getD_none, merge_empty]
          exact ⟨rfl, rfl⟩
      | some other =>
          rw [one, two] at silent
          exact ⟨rfl, silent⟩

private theorem follow_merge {into added : SelectionShape} (distinct : added.Distinct)
    (once : added.MarksOnce) (silent : (into.merge added).2 = []) (step : ShapeStep) :
    (into.merge added).1.follow step = ((into.follow step).merge (added.follow step)).1 ∧
      ((into.follow step).merge (added.follow step)).2 = [] := by
  have alone : empty.merge (added.follow step) = (added.follow step, []) :=
    empty_merge (distinct.follow step) fun place => once (step :: place)
  cases step with
  | field name =>
      simp only [follow] at alone ⊢
      rw [field?_merge distinct silent]
      cases here : into.field? name with
      | none =>
          rw [Option.merge_none_left, Option.bind_none, Option.getD_none, alone]
          exact ⟨rfl, rfl⟩
      | some present =>
          cases there : added.field? name with
          | none =>
              rw [Option.merge_none_right, Option.bind_none, Option.getD_none, merge_empty]
              exact ⟨rfl, rfl⟩
          | some field =>
              rw [there, Option.bind_some] at alone
              exact selection?_join (silent_of_merge distinct silent here there).2 alone
  | type name =>
      have quiet := ((merge_silent_iff into added).1 silent).2
      simp only [follow, conditions_merge]
      rw [lookup_mergeConditions distinct.increasing]
      cases there : NameMap.lookup name added.conditions with
      | none =>
          rw [Option.getD_none, merge_empty]
          exact ⟨rfl, rfl⟩
      | some shape => exact ⟨rfl, silent_of_mergeConditions distinct.increasing quiet there⟩

theorem shapeAt_merge {into added : SelectionShape} (distinct : added.Distinct)
    (once : added.MarksOnce) (silent : (into.merge added).2 = []) (place : ShapePath) :
    (into.merge added).1.shapeAt place = ((into.shapeAt place).merge (added.shapeAt place)).1 ∧
      ((into.shapeAt place).merge (added.shapeAt place)).2 = [] := by
  induction place generalizing into added with
  | nil => exact ⟨rfl, silent⟩
  | cons step rest ih =>
      obtain ⟨same, silentBelow⟩ := follow_merge distinct once silent step
      rw [shapeAt_cons, shapeAt_cons, shapeAt_cons, same]
      exact ih (distinct.follow step) (fun place => once (step :: place)) silentBelow

/-! ## What merging makes of one place -/

private theorem names_upsert {entry : FieldShape} {entries : List FieldShape}
    (present : entry.name ∈ entries.map FieldShape.name) :
    (Ordered.upsert FieldShape.name entry entries).map FieldShape.name =
      entries.map FieldShape.name := by
  induction entries with
  | nil => cases present
  | cons head rest ih =>
      rw [Ordered.upsert]
      split
      · rename_i same
        rw [List.map_cons, List.map_cons, same]
      · rename_i other
        rw [List.map_cons, List.map_cons]
        rw [List.map_cons, List.mem_cons] at present
        rw [ih (present.resolve_left (Ne.symm other))]

private theorem names_mergeFields (into added : List FieldShape) :
    (mergeFields into added).1.map FieldShape.name =
      addAll (into.map FieldShape.name) (added.map FieldShape.name) := by
  induction added generalizing into with
  | nil => rw [mergeFields]; rfl
  | cons field rest ih =>
      have first : (mergeField into field).1.map FieldShape.name =
          addNew (into.map FieldShape.name) field.name := by
        rw [mergeField_eq, addNew]
        cases found : Ordered.find? FieldShape.name field.name into with
        | none =>
            have fresh : ¬ (into.map FieldShape.name).contains field.name = true := by
              rw [List.contains_iff_mem]
              exact Ordered.find?_eq_none_iff.1 found
            rw [if_neg fresh, List.map_append]
            rfl
        | some present =>
            have known : field.name ∈ into.map FieldShape.name := by
              refine Decidable.of_not_not fun absent => ?_
              rw [Ordered.find?_eq_none_iff.2 absent] at found
              cases found
            rw [if_pos (List.contains_iff_mem.2 known)]
            simp only
            split
            · rfl
            · exact names_upsert (by rwa [FieldShape.name_join])
      rw [mergeFields]
      simp only
      rw [ih, first]
      rfl

theorem names_merge (into added : SelectionShape) :
    (into.merge added).1.fields.map FieldShape.name =
      addAll (into.fields.map FieldShape.name) (added.fields.map FieldShape.name) := by
  rw [fields_merge, names_mergeFields]

theorem mem_conditions_merge {into added : SelectionShape} (distinct : added.Distinct)
    (type : String) :
    type ∈ (into.merge added).1.conditions.map Prod.fst ↔
      type ∈ into.conditions.map Prod.fst ∨ type ∈ added.conditions.map Prod.fst := by
  simp only [← NameMap.lookup_isSome_iff]
  rw [conditions_merge, lookup_mergeConditions distinct.increasing]
  cases there : NameMap.lookup type added.conditions with
  | none => simp
  | some shape => simp

end SelectionShape

end GraphqlStore
