import GraphqlStore.Proofs.Occurrence

/-!
The fields of a scope are exactly those that its selections bring in, though
each fragment is entered once only: whatever a second spread of a fragment
brings in, the first one has brought in with the same types.
-/

set_option autoImplicit false

namespace GraphqlStore

def FragmentRegistry.without (registry : FragmentRegistry) (names : List String) (name : String) :
    Option Fragment :=
  if name ∈ names then none else registry.find? name

theorem FragmentRegistry.without_nil (registry : FragmentRegistry) :
    registry.without [] = registry.find? := by
  funext name
  simp [without]

theorem FragmentRegistry.without_eq_some_iff {registry : FragmentRegistry} {names : List String}
    {name : String} {fragment : Fragment} :
    registry.without names name = some fragment ↔
      name ∉ names ∧ registry.find? name = some fragment := by
  unfold without
  split <;> simp_all

theorem FragmentRegistry.without_cons {registry : FragmentRegistry} {names : List String}
    {name : String} (missing : registry.find? name = none) :
    registry.without (name :: names) = registry.without names := by
  funext other
  by_cases same : other = name
  · subst same
    simp [without, missing]
  · simp [without, same]

namespace Selection.Brings

variable {registry : FragmentRegistry} {visited : List String} {parent : String}
  {selection : Selection} {level : Level} {below : List Selection}

theorem mono {fragments others : String → Option Fragment}
    (included : ∀ name fragment, fragments name = some fragment → others name = some fragment)
    (brings : selection.Brings fragments parent level below) :
    selection.Brings others parent level below := by
  induction brings with
  | field => exact .field
  | inline member _ ih => exact .inline member ih
  | spread found member _ ih => exact .spread (included _ _ found) member ih

theorem of_cons {name : String}
    (brings : selection.Brings (registry.without (name :: visited)) parent level below) :
    selection.Brings (registry.without visited) parent level below := by
  refine brings.mono fun other fragment found => ?_
  rw [FragmentRegistry.without_eq_some_iff] at found ⊢
  exact ⟨fun known => found.1 (List.mem_cons_of_mem _ known), found.2⟩

/-- What is brought in comes without entering a fragment, or from its body without entering it
again. -/
theorem cons_or_body (name : String)
    (brings : selection.Brings (registry.without visited) parent level below) :
    selection.Brings (registry.without (name :: visited)) parent level below ∨
      ∃ fragment, registry.find? name = some fragment ∧ ∃ inner ∈ fragment.selections.items,
        inner.Brings (registry.without (name :: visited)) fragment.condition level below := by
  induction brings with
  | field => exact .inl .field
  | inline member _ ih => exact ih.imp_left (.inline member)
  | @spread _ head fragment _ inner _ found member _ ih =>
      refine ih.elim (fun outside => ?_) .inr
      rw [FragmentRegistry.without_eq_some_iff] at found
      by_cases same : head.name = name
      · subst same
        exact .inr ⟨fragment, found.2, inner, member, outside⟩
      · refine .inl (.spread (FragmentRegistry.without_eq_some_iff.2 ⟨?_, found.2⟩) member outside)
        rw [List.mem_cons]
        exact not_or.2 ⟨same, found.1⟩

end Selection.Brings

namespace Merge

def ScopedField.level (field : ScopedField) : Level := ⟨field.parent, field.head⟩

def Brings (fragments : String → Option Fragment) (pending : List Part) (level : Level)
    (below : List Selection) : Prop :=
  ∃ part ∈ pending, part.selection.Brings fragments part.parent level below

variable {registry : FragmentRegistry} {visited : List String} {level : Level}
  {below : List Selection}

theorem brings_cons {fragments : String → Option Fragment} {part : Part} {pending : List Part} :
    Brings fragments (part :: pending) level below ↔
      part.selection.Brings fragments part.parent level below ∨ Brings fragments pending level below := by
  simp [Brings]

theorem brings_append {fragments : String → Option Fragment} {first second : List Part} :
    Brings fragments (first ++ second) level below ↔
      Brings fragments first level below ∨ Brings fragments second level below := by
  simp only [Brings, List.mem_append, or_and_right, exists_or]

theorem brings_parts {fragments : String → Option Fragment} {parent : String} {via : Option Position}
    {items : List Selection} :
    Brings fragments (parts parent via items) level below ↔
      ∃ item ∈ items, item.Brings fragments parent level below := by
  simp [Brings, parts]

theorem Brings.of_cons {name : String} {pending : List Part}
    (brings : Brings (registry.without (name :: visited)) pending level below) :
    Brings (registry.without visited) pending level below := by
  obtain ⟨part, member, brought⟩ := brings
  exact ⟨part, member, brought.of_cons⟩

private theorem brings_skip {head : Spread} {parent : String} {via : Option Position}
    {pending : List Part} (skipped : registry.without visited head.name = none) :
    Brings (registry.without visited) (⟨parent, via, .spread head⟩ :: pending) level below ↔
      Brings (registry.without visited) pending level below := by
  rw [brings_cons]
  refine or_iff_right fun brought => ?_
  cases brought with
  | spread found _ _ =>
      rw [skipped] at found
      cases found

private theorem brings_enter {head : Spread} {parent : String} {via : Option Position}
    {pending : List Part} {fragment : Fragment} (fresh : head.name ∉ visited)
    (found : registry.find? head.name = some fragment) (entered : Option Position) :
    Brings (registry.without visited) (⟨parent, via, .spread head⟩ :: pending) level below ↔
      Brings (registry.without (head.name :: visited))
        (parts fragment.condition entered fragment.selections.items ++ pending) level below := by
  have allowed := FragmentRegistry.without_eq_some_iff.2 ⟨fresh, found⟩
  rw [brings_cons, brings_append, brings_parts]
  have body {selection : Selection} {type : String}
      (brought : selection.Brings (registry.without visited) type level below) :
      selection.Brings (registry.without (head.name :: visited)) type level below ∨
        ∃ inner ∈ fragment.selections.items,
          inner.Brings (registry.without (head.name :: visited)) fragment.condition level below := by
    refine (brought.cons_or_body head.name).imp_right ?_
    rintro ⟨other, otherFound, inside⟩
    cases found.symm.trans otherFound
    exact inside
  constructor
  · rintro (brought | ⟨part, member, brought⟩)
    · cases brought with
      | spread otherFound member inside =>
          cases allowed.symm.trans otherFound
          exact .inl ((body inside).elim (fun outside => ⟨_, member, outside⟩) id)
    · exact (body brought).symm.imp_right fun outside => ⟨part, member, outside⟩
  · rintro (⟨inner, member, brought⟩ | later)
    · exact .inl (.spread allowed member brought.of_cons)
    · exact .inr later.of_cons

theorem mem_fields {pending : List Part} :
    (∃ field ∈ fields registry visited pending, field.level = level ∧ field.items = below) ↔
      Brings (registry.without visited) pending level below := by
  fun_induction fields registry visited pending with
  | case1 => simp [Brings]
  | case2 visited parent via head items pending ih =>
      rw [brings_cons, ← ih]
      simp only [List.mem_cons, exists_eq_or_imp]
      refine or_congr_left ⟨?_, fun brought => ?_⟩
      · rintro ⟨rfl, rfl⟩
        exact .field
      · cases brought
        exact ⟨rfl, rfl⟩
  | case3 visited parent via head items pending ih =>
      rw [ih, brings_append, brings_parts, brings_cons]
      refine or_congr_left ⟨fun ⟨inner, member, brought⟩ => .inline member brought, fun brought => ?_⟩
      cases brought with
      | inline member inside => exact ⟨_, member, inside⟩
  | case4 visited _ via head pending fresh missing ih =>
      rw [ih, FragmentRegistry.without_cons missing, brings_skip]
      rw [FragmentRegistry.without, if_neg fresh, missing]
  | case5 visited _ via head pending fresh fragment found ih =>
      rw [ih, ← brings_enter fresh found]
  | case6 visited _ via head pending known ih =>
      rw [ih, brings_skip]
      rw [FragmentRegistry.without, if_pos (not_not.1 known)]

end Merge

end GraphqlStore
