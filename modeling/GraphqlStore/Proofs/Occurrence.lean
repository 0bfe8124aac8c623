import GraphqlStore.Pass.Merge
import Mathlib.Data.List.Forall2

/-!
Where fields occur in selections, and the law of response names: two fields
that answer under the same names for values that can be the same, at every
level from the root on, are the same field with the same arguments.
-/

set_option autoImplicit false

namespace GraphqlStore

/-! ## Values and arguments -/

theorem Binary64.same_refl (number : Binary64) : number.same number = true := by
  simp [same]

theorem Binary64.same_euclidean {first second third : Binary64} (left : first.same second = true)
    (right : first.same third = true) : second.same third = true := by
  simp only [same, Bool.or_eq_true, Bool.and_eq_true, beq_iff_eq] at left right ⊢
  grind

namespace Value

mutual
theorem same_refl : ∀ value : Value, value.same value = true
  | .variable _ | .int _ | .string _ | .boolean _ | .null | .enum _ => by simp [same]
  | .float number => number.same_refl
  | .list items => sameItems_refl items
  | .object fields => sameFields_refl fields

theorem sameItems_refl : ∀ items : List Value, sameItems items items = true
  | [] => rfl
  | item :: rest => by simp [sameItems, same_refl item, sameItems_refl rest]

theorem sameFields_refl : ∀ fields : List (String × Value), sameFields fields fields = true
  | [] => rfl
  | (_, value) :: rest => by simp [sameFields, same_refl value, sameFields_refl rest]
end

mutual
theorem same_euclidean (first : Value) {second third : Value} (left : first.same second = true)
    (right : first.same third = true) : second.same third = true := by
  cases first with
  | float number =>
      cases second <;> cases third <;> simp only [same, Bool.false_eq_true] at left right ⊢
      exact Binary64.same_euclidean left right
  | list items =>
      cases second <;> cases third <;> simp only [same, Bool.false_eq_true] at left right ⊢
      exact sameItems_euclidean items left right
  | object fields =>
      cases second <;> cases third <;> simp only [same, Bool.false_eq_true] at left right ⊢
      exact sameFields_euclidean fields left right
  | _ => cases second <;> cases third <;> simp_all [same]

theorem sameItems_euclidean (first : List Value) {second third : List Value}
    (left : sameItems first second = true) (right : sameItems first third = true) :
    sameItems second third = true := by
  match first, second, third with
  | [], [], [] => rfl
  | [], _ :: _, _ | [], _, _ :: _ | _ :: _, [], _ | _ :: _, _, [] => simp [sameItems] at left right
  | item :: rest, _ :: _, _ :: _ =>
      simp only [sameItems, Bool.and_eq_true] at left right ⊢
      exact ⟨same_euclidean item left.1 right.1, sameItems_euclidean rest left.2 right.2⟩

theorem sameFields_euclidean (first : List (String × Value)) {second third : List (String × Value)}
    (left : sameFields first second = true) (right : sameFields first third = true) :
    sameFields second third = true := by
  match first, second, third with
  | [], [], [] => rfl
  | [], _ :: _, _ | [], _, _ :: _ | _ :: _, [], _ | _ :: _, _, [] => simp [sameFields] at left right
  | (name, value) :: rest, _ :: _, _ :: _ =>
      simp only [sameFields, Bool.and_eq_true, beq_iff_eq] at left right ⊢
      exact ⟨⟨left.1.1.symm.trans right.1.1, same_euclidean value left.1.2 right.1.2⟩,
        sameFields_euclidean rest left.2 right.2⟩
end

theorem same_symm {first second : Value} (same : first.same second = true) :
    second.same first = true :=
  same_euclidean first same (same_refl first)

theorem same_trans {first second third : Value} (left : first.same second = true)
    (right : second.same third = true) : first.same third = true :=
  same_euclidean second (same_symm left) right

end Value

/-- Every argument of the first list is passed the same value in the second one. -/
def ArgumentsWithin (first second : List Argument) : Prop :=
  ∀ argument ∈ first, ∃ other ∈ second, other.1 = argument.1 ∧ argument.2.same other.2 = true

theorem ArgumentsWithin.trans {first second third : List Argument}
    (left : ArgumentsWithin first second) (right : ArgumentsWithin second third) :
    ArgumentsWithin first third := by
  intro argument member
  obtain ⟨middle, inSecond, sameName, sameValue⟩ := left argument member
  obtain ⟨last, inThird, lastName, lastValue⟩ := right middle inSecond
  exact ⟨last, inThird, lastName.trans sameName, Value.same_trans sameValue lastValue⟩

/-- Two selections of one field with the same set of arguments. -/
structure Field.Agrees (first second : Field) : Prop where
  name : first.name = second.name
  forth : ArgumentsWithin first.arguments second.arguments
  back : ArgumentsWithin second.arguments first.arguments

namespace Field.Agrees

theorem refl (field : Field) : field.Agrees field :=
  have within : ArgumentsWithin field.arguments field.arguments :=
    fun argument member => ⟨argument, member, rfl, Value.same_refl _⟩
  ⟨rfl, within, within⟩

theorem symm {first second : Field} (agrees : first.Agrees second) : second.Agrees first :=
  ⟨agrees.name.symm, agrees.back, agrees.forth⟩

theorem trans {first second third : Field} (left : first.Agrees second)
    (right : second.Agrees third) : first.Agrees third :=
  ⟨left.name.trans right.name, left.forth.trans right.forth, right.back.trans left.back⟩

end Field.Agrees

/-! ## Occurrences -/

/-- A field and the type on which it is selected. -/
structure Level where
  parent : String
  head : Field

/-- The fields that a selection brings into the response object in which it stands, each with the
selections below it: inline fragments and the bodies of spread fragments stand in that object too. -/
inductive Selection.Brings (fragments : String → Option Fragment) :
    String → Selection → Level → List Selection → Prop where
  | field {parent : String} {head : Field} {below : List Selection} :
      Selection.Brings fragments parent (.field head below) ⟨parent, head⟩ below
  | inline {parent : String} {head : InlineFragment} {items below : List Selection}
      {inner : Selection} {level : Level} :
      inner ∈ items → Selection.Brings fragments (head.typeWithin parent) inner level below →
      Selection.Brings fragments parent (.inline head items) level below
  | spread {parent : String} {head : Spread} {fragment : Fragment} {below : List Selection}
      {inner : Selection} {level : Level} :
      fragments head.name = some fragment → inner ∈ fragment.selections.items →
      Selection.Brings fragments fragment.condition inner level below →
      Selection.Brings fragments parent (.spread head) level below

/-- A field with the fields above it, outermost first. -/
inductive Selection.Occurs (schema : Schema) (fragments : String → Option Fragment) :
    String → Selection → List Level → Level → Prop where
  | here {parent : String} {selection : Selection} {level : Level} {below : List Selection} :
      selection.Brings fragments parent level below →
      Selection.Occurs schema fragments parent selection [] level
  | inside {parent : String} {selection inner : Selection} {level last : Level}
      {below : List Selection} {found : FieldRef} {above : List Level} :
      selection.Brings fragments parent level below →
      schema.field? level.parent level.head.name = some found → inner ∈ below →
      Selection.Occurs schema fragments found.typeName inner above last →
      Selection.Occurs schema fragments parent selection (level :: above) last

theorem brings_field_iff {fragments : String → Option Fragment} {parent : String}
    {head : Field} {items below : List Selection} {level : Level} :
    (Selection.field head items).Brings fragments parent level below ↔
      level = ⟨parent, head⟩ ∧ below = items := by
  constructor
  · intro brings
    cases brings
    exact ⟨rfl, rfl⟩
  · rintro ⟨rfl, rfl⟩
    exact .field

theorem brings_inline_iff {fragments : String → Option Fragment} {parent : String}
    {head : InlineFragment} {items below : List Selection} {level : Level} :
    (Selection.inline head items).Brings fragments parent level below ↔
      ∃ inner ∈ items, inner.Brings fragments (head.typeWithin parent) level below := by
  constructor
  · intro brings
    cases brings with
    | inline member inside => exact ⟨_, member, inside⟩
  · rintro ⟨inner, member, inside⟩
    exact .inline member inside

theorem occurs_nil_iff {schema : Schema} {fragments : String → Option Fragment}
    {parent : String} {selection : Selection} {last : Level} :
    selection.Occurs schema fragments parent [] last ↔
      ∃ below, selection.Brings fragments parent last below := by
  constructor
  · intro occurs
    cases occurs with
    | here brings => exact ⟨_, brings⟩
  · rintro ⟨below, brings⟩
    exact .here brings

theorem occurs_cons_iff {schema : Schema} {fragments : String → Option Fragment}
    {parent : String} {selection : Selection} {level last : Level} {above : List Level} :
    selection.Occurs schema fragments parent (level :: above) last ↔
      ∃ below found, selection.Brings fragments parent level below ∧
        schema.field? level.parent level.head.name = some found ∧
        ∃ inner ∈ below, inner.Occurs schema fragments found.typeName above last := by
  constructor
  · intro occurs
    cases occurs with
    | inside brings resolved member inside => exact ⟨_, _, brings, resolved, _, member, inside⟩
  · rintro ⟨below, found, brings, resolved, inner, member, inside⟩
    exact .inside brings resolved member inside

/-- A field that occurs in selections made on a type. -/
def Occurs (schema : Schema) (fragments : String → Option Fragment) (root : String)
    (items : List Selection) (above : List Level) (last : Level) : Prop :=
  ∃ item ∈ items, item.Occurs schema fragments root above last

theorem occurs_field_iff {schema : Schema} {fragments : String → Option Fragment}
    {parent : String} {head : Field} {items : List Selection} {above : List Level} {last : Level} :
    (Selection.field head items).Occurs schema fragments parent above last ↔
      (above = [] ∧ last = ⟨parent, head⟩) ∨
      ∃ found rest, schema.field? parent head.name = some found ∧ above = ⟨parent, head⟩ :: rest ∧
        Occurs schema fragments found.typeName items rest last := by
  cases above with
  | nil => simp [occurs_nil_iff, brings_field_iff]
  | cons level above =>
      simp only [occurs_cons_iff, brings_field_iff, reduceCtorEq, false_and, false_or]
      constructor
      · rintro ⟨_, found, ⟨rfl, rfl⟩, resolved, inside⟩
        exact ⟨found, above, resolved, rfl, inside⟩
      · rintro ⟨found, _, resolved, same, inside⟩
        cases same
        exact ⟨items, found, ⟨rfl, rfl⟩, resolved, inside⟩

theorem occurs_inline_iff {schema : Schema} {fragments : String → Option Fragment}
    {parent : String} {head : InlineFragment} {items : List Selection} {above : List Level}
    {last : Level} :
    (Selection.inline head items).Occurs schema fragments parent above last ↔
      Occurs schema fragments (head.typeWithin parent) items above last := by
  cases above with
  | nil =>
      simp only [Occurs, occurs_nil_iff, brings_inline_iff]
      grind
  | cons level above =>
      simp only [Occurs, occurs_cons_iff, brings_inline_iff]
      grind

/-- The fields answer under one name, for values that can be the same. -/
structure Level.Meets (schema : Schema) (first second : Level) : Prop where
  name : first.head.responseName = second.head.responseName
  coincide : Merge.canCoincide schema first.parent second.parent = true

/-- Fields that meet at every level from the root on agree. -/
def ResponseLaw (schema : Schema) (fragments : String → Option Fragment) (root : String)
    (items : List Selection) : Prop :=
  ∀ firstAbove first secondAbove second, Occurs schema fragments root items firstAbove first →
    Occurs schema fragments root items secondAbove second →
    List.Forall₂ (Level.Meets schema) firstAbove secondAbove → first.Meets schema second →
    first.head.Agrees second.head

end GraphqlStore
