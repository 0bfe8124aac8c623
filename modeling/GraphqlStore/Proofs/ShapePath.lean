import GraphqlStore.Artifact.Shape

/-!
Paths into shapes, and what it is to join what two shapes select path by path.
A path leads through response names and through further types. Joining reports
nothing exactly if the same field is selected wherever both select one.
-/

set_option autoImplicit false

namespace GraphqlStore

/-! ## Paths -/

/-- A step into a shape: to the field of a response name, or to the shape of a further type. -/
inductive ShapeStep where
  | field (name : String)
  | type (name : String)
deriving DecidableEq, Repr

abbrev ShapePath := List ShapeStep

@[elab_as_elim]
theorem ShapePath.byFirst {motive : ShapePath → Prop} (nil : motive [])
    (field : ∀ name rest, motive (.field name :: rest))
    (type : ∀ name rest, motive (.type name :: rest)) (path : ShapePath) : motive path := by
  cases path with
  | nil => exact nil
  | cons step rest =>
      cases step with
      | field name => exact field name rest
      | type name => exact type name rest

namespace SelectionShape

def infoAt? (shape : SelectionShape) : ShapePath → Option FieldInfo
  | [] => none
  | .field name :: rest =>
      (shape.field? name).bind fun field =>
        if rest.isEmpty then some field.info
        else field.selection?.bind fun inner => inner.infoAt? rest
  | .type name :: rest => (NameMap.lookup name shape.conditions).bind fun inner => inner.infoAt? rest

end SelectionShape

/-- The field that a path leads to from a field on. -/
def FieldShape.infoAt? (field : FieldShape) (path : ShapePath) : Option FieldInfo :=
  if path.isEmpty then some field.info else field.selection?.bind fun inner => inner.infoAt? path

namespace SelectionShape

theorem infoAt?_nil (shape : SelectionShape) : shape.infoAt? [] = none := rfl

theorem infoAt?_field (shape : SelectionShape) (name : String) (rest : ShapePath) :
    shape.infoAt? (.field name :: rest) = (shape.field? name).bind fun field => field.infoAt? rest :=
  rfl

theorem infoAt?_type (shape : SelectionShape) (name : String) (rest : ShapePath) :
    shape.infoAt? (.type name :: rest) =
      (NameMap.lookup name shape.conditions).bind fun inner => inner.infoAt? rest :=
  rfl

theorem infoAt?_empty (path : ShapePath) : empty.infoAt? path = none := by
  cases path using ShapePath.byFirst with
  | nil => rfl
  | field _ _ => rfl
  | type _ _ => rfl

theorem infoAt?_withFragment (shape : SelectionShape) (fragment : FragmentRef) (path : ShapePath) :
    (shape.withFragment fragment).infoAt? path = shape.infoAt? path := by
  cases path using ShapePath.byFirst with
  | nil => rfl
  | field _ _ => rfl
  | type _ _ => rfl

end SelectionShape

/-! ## Joining -/

/-- What two places select is the same field, if both select one. -/
def Agrees (present added : Option FieldInfo) : Prop :=
  ∀ first second, present = some first → added = some second → first.field = second.field

theorem agrees_none_left (added : Option FieldInfo) : Agrees none added :=
  fun _ _ absent => nomatch absent

theorem agrees_none_right (present : Option FieldInfo) : Agrees present none :=
  fun _ _ _ absent => nomatch absent

/-- Nothing is reported exactly if both select the same wherever both select something, and then
everything is joined. -/
structure Joins (present added joined : ShapePath → Option FieldInfo) (conflicts : List ShapeConflict) :
    Prop where
  silent : conflicts = [] ↔ ∀ path, Agrees (present path) (added path)
  joined : conflicts = [] → ∀ path,
    joined path = Option.merge FieldInfo.merge (present path) (added path)

namespace Joins

variable {present added joined : ShapePath → Option FieldInfo}

theorem none_left (added : ShapePath → Option FieldInfo) : Joins (fun _ => none) added added [] :=
  ⟨⟨fun _ _ => agrees_none_left _, fun _ => rfl⟩, fun _ path => by simp⟩

theorem none_right (present : ShapePath → Option FieldInfo) :
    Joins present (fun _ => none) present [] :=
  ⟨⟨fun _ _ => agrees_none_right _, fun _ => rfl⟩, fun _ path => by simp⟩

theorem append {first second middle : ShapePath → Option FieldInfo}
    {conflicts others : List ShapeConflict} (one : Joins present first middle conflicts)
    (two : Joins middle second joined others)
    (apart : ∀ path, first path = none ∨ second path = none) :
    Joins present (fun path => (first path).or (second path)) joined (conflicts ++ others) := by
  have split (silent : conflicts = []) (path : ShapePath) :
      (second path = none ∧ (first path).or (second path) = first path) ∨
        (middle path = present path ∧ (first path).or (second path) = second path) := by
    rcases apart path with none | none
    · exact .inr ⟨by rw [one.joined silent path, none, Option.merge_none_right], by rw [none]; rfl⟩
    · exact .inl ⟨none, by rw [none, Option.or_none]⟩
  refine ⟨⟨fun none path => ?_, fun agree => ?_⟩, fun none path => ?_⟩
  · obtain ⟨noneFirst, noneSecond⟩ := List.append_eq_nil_iff.1 none
    rcases split noneFirst path with ⟨_, same⟩ | ⟨before, same⟩
    · rw [same]
      exact one.silent.1 noneFirst path
    · rw [same, ← before]
      exact two.silent.1 noneSecond path
  · have noneFirst : conflicts = [] := by
      refine one.silent.2 fun path => ?_
      rcases apart path with absent | absent
      · rw [absent]
        exact agrees_none_right _
      · have whole := agree path
        rwa [absent, Option.or_none] at whole
    refine List.append_eq_nil_iff.2 ⟨noneFirst, two.silent.2 fun path => ?_⟩
    rcases split noneFirst path with ⟨absent, _⟩ | ⟨before, same⟩
    · rw [absent]
      exact agrees_none_right _
    · rw [before, ← same]
      exact agree path
  · obtain ⟨noneFirst, noneSecond⟩ := List.append_eq_nil_iff.1 none
    rw [two.joined noneSecond path]
    rcases split noneFirst path with ⟨absent, same⟩ | ⟨before, same⟩
    · rw [same, absent, Option.merge_none_right, one.joined noneFirst path]
    · rw [before, same]

theorem behind (step : ShapeStep) {presentRest addedRest joinedRest : ShapePath → Option FieldInfo}
    {conflicts : List ShapeConflict} (rest : Joins presentRest addedRest joinedRest conflicts)
    (presentHere : ∀ path, present (step :: path) = presentRest path)
    (addedHere : ∀ path, added (step :: path) = addedRest path)
    (joinedHere : ∀ path, joined (step :: path) = joinedRest path)
    (addedElsewhere : ∀ path, path.head? ≠ some step → added path = none)
    (joinedElsewhere : ∀ path, path.head? ≠ some step → joined path = present path) :
    Joins present added joined conflicts := by
  have cases (path : ShapePath) : (∃ rest, path = step :: rest) ∨ path.head? ≠ some step := by
    cases path with
    | nil => exact .inr (by simp)
    | cons other rest =>
        by_cases same : other = step
        · exact .inl ⟨rest, by rw [same]⟩
        · exact .inr (by simpa using same)
  refine ⟨⟨fun none path => ?_, fun agree => rest.silent.2 fun path => ?_⟩, fun none path => ?_⟩
  · rcases cases path with ⟨path, rfl⟩ | elsewhere
    · rw [presentHere, addedHere]
      exact rest.silent.1 none path
    · rw [addedElsewhere path elsewhere]
      exact agrees_none_right _
  · rw [← presentHere, ← addedHere]
    exact agree (step :: path)
  · rcases cases path with ⟨path, rfl⟩ | elsewhere
    · rw [joinedHere, presentHere, addedHere]
      exact rest.joined none path
    · rw [addedElsewhere path elsewhere, joinedElsewhere path elsewhere, Option.merge_none_right]

theorem extend {whole addedWhole joinedWhole : ShapePath → Option FieldInfo}
    {conflicts : List ShapeConflict} (part : Joins present added joined conflicts)
    (cover : ∀ path,
      (whole path = present path ∧ addedWhole path = added path ∧ joinedWhole path = joined path) ∨
        (added path = none ∧ addedWhole path = none ∧ joinedWhole path = whole path)) :
    Joins whole addedWhole joinedWhole conflicts := by
  refine ⟨⟨fun none path => ?_, fun agree => part.silent.2 fun path => ?_⟩, fun none path => ?_⟩
  · rcases cover path with ⟨before, added, _⟩ | ⟨_, absent, _⟩
    · rw [before, added]
      exact part.silent.1 none path
    · rw [absent]
      exact agrees_none_right _
  · rcases cover path with ⟨before, added, _⟩ | ⟨absent, _, _⟩
    · rw [← before, ← added]
      exact agree path
    · rw [absent]
      exact agrees_none_right _
  · rcases cover path with ⟨before, added, after⟩ | ⟨_, absent, after⟩
    · rw [before, added, after]
      exact part.joined none path
    · rw [absent, after, Option.merge_none_right]

theorem atRoot {first second : FieldInfo} {conflicts : List ShapeConflict}
    (same : first.field = second.field) (rest : Joins present added joined conflicts)
    (nothing : present [] = none) :
    Joins (fun path => if path.isEmpty then some first else present path)
      (fun path => if path.isEmpty then some second else added path)
      (fun path => if path.isEmpty then some (first.merge second) else joined path) conflicts := by
  refine ⟨⟨fun none path => ?_, fun agree => rest.silent.2 fun path => ?_⟩, fun none path => ?_⟩
  · cases path with
    | nil =>
        rintro one two ⟨⟩ ⟨⟩
        exact same
    | cons step more => exact rest.silent.1 none (step :: more)
  · cases path with
    | nil =>
        rw [nothing]
        exact agrees_none_left _
    | cons step more => exact agree (step :: more)
  · cases path with
    | nil => rfl
    | cons step more => exact rest.joined none (step :: more)

end Joins

end GraphqlStore
