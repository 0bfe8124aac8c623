import GraphqlStore.Proofs.FragmentAgreement
import GraphqlStore.Proofs.InliningTyping
import GraphqlStore.Proofs.SpreadChains

/-!
What inlining leaves, path by path. A result is followed in step with the
selections that it stands for, which go on in the body of a fragment wherever
a spread was replaced. On no path is a fragment opened twice or one that was
open at the start, so every run ends; and a spread stays exactly where its
fragment is not registered or is open already.
-/

set_option autoImplicit false

namespace GraphqlStore

def Selection.children : Selection → List Selection
  | .field _ items => items
  | .spread _ => []
  | .inline _ items => items

/-- The selection at a place, which is told by its number among its neighbours at each level. -/
def selectionAt? : List Nat → List Selection → Option Selection
  | [], _ => none
  | [index], items => items[index]?
  | index :: next :: path, items =>
      items[index]?.bind fun item => selectionAt? (next :: path) item.children

namespace Inlining

variable {registry : FragmentRegistry} {masking : FragmentMasking} {stack : List String}

/-! ## Runs -/

/-- A finished run over selections, one after the other. The stack holds the fragments whose bodies
are being gone through. -/
inductive Inlines (registry : FragmentRegistry) (masking : FragmentMasking) :
    List String → List Selection → List Selection → Prop where
  | nil {stack : List String} : Inlines registry masking stack [] []
  | field {stack : List String} {head : Field} {items copies rest others : List Selection} :
      Inlines registry masking stack items copies → Inlines registry masking stack rest others →
      Inlines registry masking stack (.field head items :: rest) (.field head copies :: others)
  | inline {stack : List String} {head : InlineFragment} {items copies rest others : List Selection} :
      Inlines registry masking stack items copies → Inlines registry masking stack rest others →
      Inlines registry masking stack (.inline head items :: rest) (.inline head copies :: others)
  | unregistered {stack : List String} {spread : Spread} {rest others : List Selection} :
      registry.find? spread.name = none → Inlines registry masking stack rest others →
      Inlines registry masking stack (.spread spread :: rest) (.spread spread :: others)
  | opened {stack : List String} {spread : Spread} {rest others : List Selection} :
      spread.name ∈ stack → Inlines registry masking stack rest others →
      Inlines registry masking stack (.spread spread :: rest) (.spread spread :: others)
  | expanded {stack : List String} {spread : Spread} {fragment : Fragment}
      {copies rest others : List Selection} :
      registry.find? spread.name = some fragment → spread.name ∉ stack →
      Inlines registry masking (spread.name :: stack) fragment.selections.items copies →
      Inlines registry masking stack rest others →
      Inlines registry masking stack (.spread spread :: rest)
        (.inline (spread.inlinedHead masking fragment) copies :: others)

theorem expand_cons (selection : Selection) (rest : List Selection) :
    expand registry masking stack (selection :: rest) =
      selection.mapSpreads (expandSpread registry masking stack) ::
        expand registry masking stack rest := rfl

theorem expandSpread_of_find?_eq_none {spread : Spread} (absent : registry.find? spread.name = none) :
    expandSpread registry masking stack spread = .spread spread := by
  refine expandSpread_of_replaces ?_
  rw [replaces, NameMap.contains, absent]
  rfl

theorem expandSpread_of_mem {spread : Spread} (opened : spread.name ∈ stack) :
    expandSpread registry masking stack spread = .spread spread := by
  refine expandSpread_of_replaces ?_
  simp [replaces, opened]

private theorem inlines_of_forall {items : List Selection}
    (each : ∀ item ∈ items, ∀ rest others, Inlines registry masking stack rest others →
      Inlines registry masking stack (item :: rest)
        (item.mapSpreads (expandSpread registry masking stack) :: others)) :
    Inlines registry masking stack items (expand registry masking stack items) := by
  induction items with
  | nil => exact .nil
  | cons item rest ih =>
      rw [List.forall_mem_cons] at each
      exact each.1 rest _ (ih each.2)

private theorem inlines_expand (registry : FragmentRegistry) (masking : FragmentMasking)
    (stack : List String) (items : List Selection) :
    Inlines registry masking stack items (expand registry masking stack items) := by
  -- The body of a fragment may be larger than what spreads it, but it is gone through with one more
  -- fragment on the stack, which leaves fewer of the registry outside.
  induction size : registry.outside stack using Nat.strongRecOn generalizing stack items with
  | ind size ih =>
      refine inlines_of_forall fun item member => ?_
      clear member
      induction item with
      | field head items each =>
          exact fun rest others further => .field (inlines_of_forall each) further
      | inline head items each =>
          exact fun rest others further => .inline (inlines_of_forall each) further
      | spread spread =>
          intro rest others further
          rw [Selection.mapSpreads]
          by_cases opened : spread.name ∈ stack
          · rw [expandSpread_of_mem opened]
            exact .opened opened further
          · cases found : registry.find? spread.name with
            | none =>
                rw [expandSpread_of_find?_eq_none found]
                exact .unregistered found further
            | some fragment =>
                have smaller := NameMap.outside_cons_lt registry found opened
                rw [expandSpread_of_find? found opened]
                exact .expanded found opened (ih _ (size ▸ smaller) _ _ rfl) further

private theorem Inlines.eq_expand {items copies : List Selection}
    (run : Inlines registry masking stack items copies) : copies = expand registry masking stack items := by
  induction run with
  | nil => rfl
  | field _ _ within further =>
      rw [expand_cons, ← further, Selection.mapSpreads, within]
      rfl
  | inline _ _ within further =>
      rw [expand_cons, ← further, Selection.mapSpreads, within]
      rfl
  | unregistered absent _ further =>
      rw [expand_cons, ← further, Selection.mapSpreads, expandSpread_of_find?_eq_none absent]
  | opened opened _ further =>
      rw [expand_cons, ← further, Selection.mapSpreads, expandSpread_of_mem opened]
  | expanded found fresh _ _ within further =>
      rw [expand_cons, ← further, Selection.mapSpreads, expandSpread_of_find? found fresh, within]
      rfl

/-! ## Results followed in step with what they stand for -/

/-- A selection of a result stands for a selection: the fragments that are opened at it, and what
the selections right below it stand for. -/
inductive StandsFor (registry : FragmentRegistry) :
    Selection → Selection → List String → List Selection → Prop where
  | field {head copied : Field} {items copies : List Selection} :
      StandsFor registry (.field copied copies) (.field head items) [] items
  | inline {head copied : InlineFragment} {items copies : List Selection} :
      StandsFor registry (.inline copied copies) (.inline head items) [] items
  | spread {head copied : Spread} : StandsFor registry (.spread copied) (.spread head) [] []
  | introduced {spread : Spread} {fragment : Fragment} {head : InlineFragment}
      {copies : List Selection} : registry.find? spread.name = some fragment →
      StandsFor registry (.inline head copies) (.spread spread) [spread.name]
        fragment.selections.items

/-- A way down a result to one of its selections: the fragments that are opened above it and at it,
and the selection for which it stands. -/
inductive Trail (registry : FragmentRegistry) :
    List Selection → List Selection → List Nat → List String → List String → Selection → Selection →
      Prop where
  | here {copies originals below : List Selection} {index : Nat} {opened : List String}
      {copy original : Selection} : copies[index]? = some copy → originals[index]? = some original →
      StandsFor registry copy original opened below →
      Trail registry copies originals [index] [] opened copy original
  | within {copies originals below : List Selection} {index : Nat} {path : List Nat}
      {opened above here : List String} {first start copy original : Selection} :
      copies[index]? = some first → originals[index]? = some start →
      StandsFor registry first start opened below →
      Trail registry first.children below path above here copy original →
      Trail registry copies originals (index :: path) (opened ++ above) here copy original

private theorem getElem?_expand (registry : FragmentRegistry) (masking : FragmentMasking)
    (stack : List String) (items : List Selection) (index : Nat) :
    (expand registry masking stack items)[index]? =
      items[index]?.map (Selection.mapSpreads (expandSpread registry masking stack)) := by
  rw [expand, mapSpreads_eq, List.getElem?_map]

/-- Fragments that can be opened one inside the other, in this order, at a stack. -/
structure OpensNew (registry : FragmentRegistry) (stack opened : List String) : Prop where
  distinct : opened.Nodup
  fresh : ∀ name ∈ opened, name ∉ stack
  registered : ∀ name ∈ opened, (registry.find? name).isSome

theorem opensNew_nil : OpensNew registry stack [] where
  distinct := .nil
  fresh := by simp
  registered := by simp

theorem OpensNew.append {opened further : List String} (first : OpensNew registry stack opened)
    (second : OpensNew registry (opened ++ stack) further) :
    OpensNew registry stack (opened ++ further) where
  distinct := List.nodup_append.2 ⟨first.distinct, second.distinct, fun name before other after same =>
    second.fresh other after (List.mem_append_left _ (same ▸ before))⟩
  fresh name member := by
    rcases List.mem_append.1 member with before | after
    · exact first.fresh name before
    · exact fun inStack => second.fresh name after (List.mem_append_right _ inStack)
  registered name member := by
    rcases List.mem_append.1 member with before | after
    · exact first.registered name before
    · exact second.registered name after

theorem OpensNew.length_le {opened : List String} (opens : OpensNew registry stack opened) :
    opened.length ≤ registry.outside stack := by
  refine (List.subperm_of_subset opens.distinct fun name member => ?_).length_le
  refine List.mem_filter.2 ⟨NameMap.find?_isSome_iff.1 (opens.registered name member), ?_⟩
  simpa using opens.fresh name member

theorem exists_standsFor (registry : FragmentRegistry) (masking : FragmentMasking)
    (stack : List String) (selection : Selection) :
    ∃ opened below, StandsFor registry
      (selection.mapSpreads (expandSpread registry masking stack)) selection opened below := by
  cases selection with
  | field head items => exact ⟨[], items, .field⟩
  | inline head items => exact ⟨[], items, .inline⟩
  | spread spread =>
      rw [Selection.mapSpreads]
      by_cases opened : spread.name ∈ stack
      · rw [expandSpread_of_mem opened]
        exact ⟨[], [], .spread⟩
      · cases found : registry.find? spread.name with
        | none =>
            rw [expandSpread_of_find?_eq_none found]
            exact ⟨[], [], .spread⟩
        | some fragment =>
            rw [expandSpread_of_find? found opened]
            exact ⟨[spread.name], fragment.selections.items, .introduced found⟩

private theorem mem_of_expandSpread_eq_spread {spread other : Spread}
    (same : expandSpread registry masking stack spread = .spread other) :
    spread = other ∧ (registry.find? spread.name = none ∨ spread.name ∈ stack) := by
  by_cases opened : spread.name ∈ stack
  · rw [expandSpread_of_mem opened] at same
    cases same
    exact ⟨rfl, .inr opened⟩
  · cases found : registry.find? spread.name with
    | none =>
        rw [expandSpread_of_find?_eq_none found] at same
        cases same
        exact ⟨rfl, .inl rfl⟩
    | some fragment =>
        rw [expandSpread_of_find? found opened] at same
        cases same

theorem StandsFor.children_eq {selection : Selection} {opened : List String} {below : List Selection}
    (stands : StandsFor registry (selection.mapSpreads (expandSpread registry masking stack)) selection
      opened below) :
    (selection.mapSpreads (expandSpread registry masking stack)).children =
        expand registry masking (opened ++ stack) below ∧
      OpensNew registry stack opened := by
  generalize same : selection.mapSpreads (expandSpread registry masking stack) = copy at stands
  cases stands with
  | field =>
      cases same
      exact ⟨rfl, opensNew_nil⟩
  | inline =>
      cases same
      exact ⟨rfl, opensNew_nil⟩
  | spread => exact ⟨rfl, opensNew_nil⟩
  | @introduced spread fragment head copies found =>
      rw [Selection.mapSpreads] at same
      have fresh : spread.name ∉ stack := by
        intro opened
        rw [expandSpread_of_mem opened] at same
        cases same
      rw [expandSpread_of_find? found fresh] at same
      cases same
      exact ⟨rfl, by simp, by simpa using fresh, by simp [found]⟩

theorem mapSpreads_eq_spread_iff {selection : Selection} {spread : Spread} :
    selection.mapSpreads (expandSpread registry masking stack) = .spread spread ↔
      selection = .spread spread ∧ (registry.find? spread.name = none ∨ spread.name ∈ stack) := by
  constructor
  · intro same
    cases selection with
    | field => cases same
    | inline => cases same
    | spread head =>
        obtain ⟨rfl, stays⟩ := mem_of_expandSpread_eq_spread same
        exact ⟨rfl, stays⟩
  · rintro ⟨rfl, absent | opened⟩
    · exact expandSpread_of_find?_eq_none absent
    · exact expandSpread_of_mem opened

private theorem Trail.opensNew {originals : List Selection} {path : List Nat}
    {above here : List String} {copy original : Selection}
    (trail : Trail registry (expand registry masking stack originals) originals path above here copy
      original) :
    OpensNew registry stack (above ++ here) ∧
      ∀ spread, copy = .spread spread ↔ original = .spread spread ∧
        (registry.find? spread.name = none ∨ spread.name ∈ stack ∨ spread.name ∈ above) := by
  generalize same : expand registry masking stack originals = copies at trail
  induction trail generalizing stack with
  | @here copies originals below index opened copy original copied listed stands =>
      subst same
      rw [getElem?_expand, listed] at copied
      cases copied
      refine ⟨stands.children_eq.2, fun spread => ?_⟩
      simp [mapSpreads_eq_spread_iff]
  | @within copies originals below index path opened above here first start copy original copied
      listed stands _ ih =>
      subst same
      rw [getElem?_expand, listed] at copied
      cases copied
      obtain ⟨children, opens⟩ := stands.children_eq
      obtain ⟨opensBelow, stays⟩ := ih children.symm
      refine ⟨?_, fun spread => ?_⟩
      · rw [List.append_assoc]
        exact opens.append opensBelow
      · rw [stays spread]
        simp only [List.mem_append]
        grind

theorem exists_trail_iff {path : List Nat} {items : List Selection} {copy : Selection} :
    selectionAt? path (expand registry masking stack items) = some copy ↔
      ∃ above here original,
        Trail registry (expand registry masking stack items) items path above here copy original := by
  induction path generalizing stack items with
  | nil =>
      constructor
      · intro found
        cases found
      · rintro ⟨_, _, _, trail⟩
        cases trail
  | cons index path ih =>
      constructor
      · intro found
        cases path with
        | nil =>
            have copied := found
            rw [selectionAt?, getElem?_expand, Option.map_eq_some_iff] at found
            obtain ⟨original, listed, rfl⟩ := found
            obtain ⟨opened, below, stands⟩ := exists_standsFor registry masking stack original
            exact ⟨[], opened, original, .here copied listed stands⟩
        | cons next path =>
            obtain ⟨first, copied, found⟩ := Option.bind_eq_some_iff.1 found
            have same := copied
            rw [getElem?_expand, Option.map_eq_some_iff] at same
            obtain ⟨start, listed, rfl⟩ := same
            obtain ⟨opened, below, stands⟩ := exists_standsFor registry masking stack start
            rw [stands.children_eq.1] at found
            obtain ⟨above, here, original, trail⟩ := ih.1 found
            rw [← stands.children_eq.1] at trail
            exact ⟨_, here, original, .within copied listed stands trail⟩
      · rintro ⟨above, here, original, trail⟩
        cases trail with
        | here copied => exact copied
        | @within _ _ below _ _ opened above _ first start _ _ copied listed stands trail =>
            have same := copied
            rw [getElem?_expand, listed] at same
            cases same
            rw [stands.children_eq.1] at trail
            cases path with
            | nil => cases trail
            | cons next path =>
                rw [selectionAt?, copied, Option.bind_some, stands.children_eq.1]
                exact ih.2 ⟨above, here, original, trail⟩

/-- Every run of inlining ends, whatever the registry, and with one result. On no way down the
result is a fragment opened twice, or one that is on the stack at the start, and the spreads that
stay are exactly those of fragments that are not registered, on that stack, or opened above. -/
theorem expand_exhaustive (registry : FragmentRegistry) (masking : FragmentMasking)
    (stack : List String) (items : List Selection) :
    let result := expand registry masking stack items
    (∀ copies, Inlines registry masking stack items copies ↔ copies = result) ∧
      (∀ path copy, selectionAt? path result = some copy ↔
        ∃ above here original, Trail registry result items path above here copy original) ∧
      ∀ path above here copy original, Trail registry result items path above here copy original →
        (above ++ here).Nodup ∧ (∀ name ∈ above ++ here, name ∉ stack) ∧
          (above ++ here).length ≤ registry.outside stack ∧
          ∀ spread, copy = .spread spread ↔ original = .spread spread ∧
            (registry.find? spread.name = none ∨ spread.name ∈ stack ∨ spread.name ∈ above) := by
  intro result
  refine ⟨fun copies => ⟨Inlines.eq_expand, ?_⟩, fun path copy => exists_trail_iff,
    fun path above here copy original trail => ?_⟩
  · rintro rfl
    exact inlines_expand registry masking stack items
  · obtain ⟨opens, stays⟩ := trail.opensNew
    exact ⟨opens.distinct, opens.fresh, opens.length_le, stays⟩

/-- Below both fragments the spread of the first stays. -/
theorem expand_exhaustive_crossed :
    let first : Spread := ⟨.start, "A", []⟩
    let result := expand crossedFragments .enable [] [.spread first]
    Inlines crossedFragments .enable [] [.spread first] result ∧
      selectionAt? [0, 0, 0, 0, 0] result = some (.spread first) ∧
      Trail crossedFragments result [.spread first] [0, 0, 0, 0, 0] ["A", "B"] [] (.spread first)
        (.spread first) := by
  intro first result
  obtain ⟨ends, ways, -⟩ := expand_exhaustive crossedFragments .enable [] [.spread first]
  have foundFirst : crossedFragments.find? "A" = some (spreading "A" ["B"]).2 := rfl
  have foundSecond : crossedFragments.find? "B" = some (spreading "B" ["A", "C"]).2 := rfl
  have run : Inlines crossedFragments .enable [] [.spread first] _ :=
    .expanded foundFirst (by decide) (.field (.expanded foundSecond (by decide)
      (.field (.opened (by decide) (.unregistered rfl .nil)) .nil) .nil) .nil) .nil
  have trail : Trail crossedFragments result [.spread first] [0, 0, 0, 0, 0] ["A", "B"] [] (.spread first)
      (.spread first) := by
    rw [show result = _ from ((ends _).1 run).symm]
    change Trail _ _ _ _ (["A"] ++ ([] ++ (["B"] ++ ([] ++ [])))) _ _ _
    refine .within rfl rfl (.introduced foundFirst) (.within rfl rfl .field ?_)
    exact .within rfl rfl (.introduced foundSecond) (.within rfl rfl .field (.here rfl rfl .spread))
  exact ⟨(ends _).2 rfl, (ways _ _).2 ⟨_, _, _, trail⟩, trail⟩

end Inlining

end GraphqlStore
