/-!
Finite sets of names, held as strictly increasing lists. The order is part of
the type, so a set has one representation and listing its names always gives
them in increasing order. Main statements: membership in a set after
insertion, and that two sets with the same members are equal.
-/

set_option autoImplicit false

namespace GraphqlStore

/-- A finite set of names. -/
structure NameSet where
  names : List String
  increasing : names.Pairwise (· < ·)
deriving DecidableEq

namespace NameSet

def place (name : String) : List String → List String
  | [] => [name]
  | head :: rest =>
      if name < head then name :: head :: rest
      else if name = head then head :: rest
      else head :: place name rest

theorem mem_place {name other : String} {names : List String} :
    other ∈ place name names ↔ other = name ∨ other ∈ names := by
  induction names with
  | nil => simp [place]
  | cons head rest ih =>
      unfold place
      split
      · simp
      · split
        · next equal => simp [equal]
        · simp only [List.mem_cons, ih]
          grind

theorem lt_of_not_lt_of_ne {first second : String} (notBelow : ¬ first < second)
    (different : first ≠ second) : second < first := by
  rcases Decidable.em (second < first) with below | notAbove
  · exact below
  · exact absurd (String.le_antisymm (String.not_lt.1 notAbove) (String.not_lt.1 notBelow)) different

theorem place_increasing {name : String} {names : List String}
    (increasing : names.Pairwise (· < ·)) : (place name names).Pairwise (· < ·) := by
  induction names with
  | nil => simp [place]
  | cons head rest ih =>
      rw [List.pairwise_cons] at increasing
      unfold place
      split
      · next below =>
          refine List.pairwise_cons.2 ⟨?_, List.pairwise_cons.2 increasing⟩
          intro other member
          rcases List.mem_cons.1 member with rfl | member
          · exact below
          · exact String.lt_trans below (increasing.1 other member)
      · next notBelow =>
          split
          · exact List.pairwise_cons.2 increasing
          · next different =>
              refine List.pairwise_cons.2 ⟨?_, ih increasing.2⟩
              intro other member
              rcases mem_place.1 member with rfl | member
              · exact lt_of_not_lt_of_ne notBelow different
              · exact increasing.1 other member

def empty : NameSet := ⟨[], .nil⟩

instance : EmptyCollection NameSet := ⟨empty⟩
instance : Inhabited NameSet := ⟨empty⟩

/-- Membership in a set of names. -/
instance : Membership String NameSet := ⟨fun set name => name ∈ set.names⟩

instance (name : String) (set : NameSet) : Decidable (name ∈ set) :=
  inferInstanceAs (Decidable (name ∈ set.names))

def insert (name : String) (set : NameSet) : NameSet :=
  ⟨place name set.names, place_increasing set.increasing⟩

def ofList (names : List String) : NameSet :=
  names.foldl (fun set name => set.insert name) empty

def union (first second : NameSet) : NameSet :=
  second.names.foldl (fun set name => set.insert name) first

def intersects (first second : NameSet) : Bool :=
  first.names.any fun name => decide (name ∈ second)

def contains (set : NameSet) (name : String) : Bool := decide (name ∈ set)

theorem mem_iff {name : String} {set : NameSet} : name ∈ set ↔ name ∈ set.names := Iff.rfl

theorem mem_insert {name other : String} {set : NameSet} :
    other ∈ set.insert name ↔ other = name ∨ other ∈ set := mem_place

theorem not_mem_empty (name : String) : ¬ name ∈ (empty : NameSet) := by
  simp [mem_iff, empty]

private theorem mem_foldl_insert {name : String} (names : List String) (set : NameSet) :
    name ∈ names.foldl (fun set name => set.insert name) set ↔ name ∈ names ∨ name ∈ set := by
  induction names generalizing set with
  | nil => simp
  | cons head rest ih =>
      simp only [List.foldl_cons, ih, mem_insert, List.mem_cons]
      grind

theorem mem_ofList {name : String} {names : List String} : name ∈ ofList names ↔ name ∈ names := by
  simp [ofList, mem_foldl_insert, not_mem_empty]

theorem mem_union {name : String} {first second : NameSet} :
    name ∈ union first second ↔ name ∈ first ∨ name ∈ second := by
  rw [union, mem_foldl_insert]
  exact or_comm

theorem increasing_ext {first second : List String} (firstIncreasing : first.Pairwise (· < ·))
    (secondIncreasing : second.Pairwise (· < ·))
    (same : ∀ name, name ∈ first ↔ name ∈ second) : first = second := by
  induction first generalizing second with
  | nil =>
      cases second with
      | nil => rfl
      | cons head rest => exact absurd ((same head).2 (List.mem_cons_self ..)) (by simp)
  | cons head rest ih =>
      cases second with
      | nil => exact absurd ((same head).1 (List.mem_cons_self ..)) (by simp)
      | cons otherHead otherRest =>
          rw [List.pairwise_cons] at firstIncreasing secondIncreasing
          have heads : head = otherHead := by
            rcases List.mem_cons.1 ((same head).1 (List.mem_cons_self ..)) with equal | member
            · exact equal
            · rcases List.mem_cons.1 ((same otherHead).2 (List.mem_cons_self ..)) with equal | otherMember
              · exact equal.symm
              · exact absurd (firstIncreasing.1 _ otherMember)
                  (String.lt_asymm (secondIncreasing.1 _ member))
          subst heads
          have rests : ∀ name, name ∈ rest ↔ name ∈ otherRest := by
            intro name
            have both := same name
            simp only [List.mem_cons] at both
            constructor
            · intro member
              rcases both.1 (Or.inr member) with equal | found
              · exact absurd (firstIncreasing.1 _ (equal ▸ member)) (String.lt_irrefl _)
              · exact found
            · intro member
              rcases both.2 (Or.inr member) with equal | found
              · exact absurd (secondIncreasing.1 _ (equal ▸ member)) (String.lt_irrefl _)
              · exact found
          rw [ih firstIncreasing.2 secondIncreasing.2 rests]

/-- Sets with the same members are equal. -/
theorem ext {first second : NameSet} (same : ∀ name, name ∈ first ↔ name ∈ second) :
    first = second := by
  cases first with
  | mk firstNames firstIncreasing =>
      cases second with
      | mk secondNames secondIncreasing =>
          have equal : firstNames = secondNames :=
            increasing_ext firstIncreasing secondIncreasing same
          subst equal
          rfl

end NameSet

end GraphqlStore
