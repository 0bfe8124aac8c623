import GraphqlStore.Names.NameSet

/-!
Finite maps from names, held as lists of entries with strictly increasing
names, so that listing a map always gives its entries in increasing order of
name. Main statements: what is found after an insertion.
-/

set_option autoImplicit false

namespace GraphqlStore

/-- A finite map from names to values. -/
structure NameMap (α : Type) where
  entries : List (String × α)
  increasing : entries.Pairwise fun first second => first.1 < second.1
deriving DecidableEq

namespace NameMap

variable {α : Type}

def lookup (name : String) : List (String × α) → Option α
  | [] => none
  | (key, value) :: rest => if key = name then some value else lookup name rest

/-- Puts an entry into its place among entries of increasing name, replacing the one of that name. -/
def place (name : String) (value : α) : List (String × α) → List (String × α)
  | [] => [(name, value)]
  | (key, present) :: rest =>
      if name < key then (name, value) :: (key, present) :: rest
      else if name = key then (name, value) :: rest
      else (key, present) :: place name value rest

theorem mem_keys_place {name other : String} {value : α} {entries : List (String × α)} :
    other ∈ (place name value entries).map Prod.fst ↔ other = name ∨ other ∈ entries.map Prod.fst := by
  induction entries with
  | nil => simp [place]
  | cons head rest ih =>
      obtain ⟨key, present⟩ := head
      unfold place
      split
      · simp
      · split
        · next equal => simp [equal]
        · simp only [List.map_cons, List.mem_cons, ih]
          grind

theorem place_increasing {name : String} {value : α} {entries : List (String × α)}
    (increasing : entries.Pairwise fun first second => first.1 < second.1) :
    (place name value entries).Pairwise fun first second => first.1 < second.1 := by
  induction entries with
  | nil => simp [place]
  | cons head rest ih =>
      obtain ⟨key, present⟩ := head
      rw [List.pairwise_cons] at increasing
      unfold place
      split
      · next below =>
          refine List.pairwise_cons.2 ⟨?_, List.pairwise_cons.2 increasing⟩
          intro other member
          rcases List.mem_cons.1 member with rfl | member
          · exact below
          · exact String.lt_trans below (increasing.1 other member)
      · next notBelow =>
          split
          · next equal =>
              subst equal
              exact List.pairwise_cons.2 increasing
          · next different =>
              refine List.pairwise_cons.2 ⟨?_, ih increasing.2⟩
              intro other member
              have key := mem_keys_place.1 (List.mem_map_of_mem (f := Prod.fst) member)
              rcases key with equal | member
              · rw [equal]
                exact NameSet.lt_of_not_lt_of_ne notBelow different
              · obtain ⟨found, foundMember, equal⟩ := List.mem_map.1 member
                rw [← equal]
                exact increasing.1 found foundMember

def empty : NameMap α := ⟨[], .nil⟩

instance : EmptyCollection (NameMap α) := ⟨empty⟩
instance : Inhabited (NameMap α) := ⟨empty⟩

def find? (map : NameMap α) (name : String) : Option α := lookup name map.entries

def contains (map : NameMap α) (name : String) : Bool := (map.find? name).isSome

def insert (map : NameMap α) (name : String) (value : α) : NameMap α :=
  ⟨place name value map.entries, place_increasing map.increasing⟩

/-- The map with the value of one name set, unless it has that name already. -/
def insertNew (map : NameMap α) (name : String) (value : α) : NameMap α :=
  if map.contains name then map else map.insert name value

/-- The map with the value of one name changed, if it has that name. -/
def modify (map : NameMap α) (name : String) (change : α → α) : NameMap α :=
  match map.find? name with
  | some value => map.insert name (change value)
  | none => map

/-- The map of a list of entries: the later of two of one name stands. -/
def ofList (entries : List (String × α)) : NameMap α :=
  entries.foldl (fun map entry => map.insert entry.1 entry.2) empty

/-- The names of the map, in increasing order. -/
def keys (map : NameMap α) : List String := map.entries.map Prod.fst

/-- The values of the map, in increasing order of name. -/
def values (map : NameMap α) : List α := map.entries.map Prod.snd

def size (map : NameMap α) : Nat := map.entries.length

theorem mem_of_mem_place {name : String} {value : α} {entry : String × α}
    {entries : List (String × α)} (member : entry ∈ place name value entries) :
    entry = (name, value) ∨ entry ∈ entries := by
  induction entries with
  | nil => exact .inl (List.mem_singleton.1 member)
  | cons head rest ih =>
      obtain ⟨key, present⟩ := head
      rw [place] at member
      split at member
      · exact List.mem_cons.1 member
      · split at member
        · exact (List.mem_cons.1 member).imp id (List.mem_cons_of_mem _)
        · rcases List.mem_cons.1 member with same | later
          · exact .inr (same ▸ List.mem_cons_self)
          · exact (ih later).imp id (List.mem_cons_of_mem _)

theorem mem_of_mem_ofList {entries : List (String × α)} {entry : String × α}
    (member : entry ∈ (ofList entries).entries) : entry ∈ entries := by
  have fold (entries : List (String × α)) (map : NameMap α)
      (member : entry ∈ (entries.foldl (fun map entry => map.insert entry.1 entry.2) map).entries) :
      entry ∈ map.entries ∨ entry ∈ entries := by
    induction entries generalizing map with
    | nil => exact .inl member
    | cons first rest ih =>
        rcases ih _ member with placed | later
        · rcases mem_of_mem_place placed with same | before
          · exact .inr (same ▸ List.mem_cons_self)
          · exact .inl before
        · exact .inr (List.mem_cons_of_mem _ later)
  exact (fold entries empty member).resolve_left List.not_mem_nil

theorem lookup_place_self (name : String) (value : α) (entries : List (String × α)) :
    lookup name (place name value entries) = some value := by
  induction entries with
  | nil => simp [place, lookup]
  | cons head rest ih =>
      obtain ⟨key, present⟩ := head
      unfold place
      split
      · simp [lookup]
      · split
        · simp [lookup]
        · next different => simp [lookup, Ne.symm different, ih]

theorem lookup_place_of_ne {name other : String} (value : α) (entries : List (String × α))
    (different : name ≠ other) : lookup other (place name value entries) = lookup other entries := by
  induction entries with
  | nil => simp [place, lookup, different]
  | cons head rest ih =>
      obtain ⟨key, present⟩ := head
      unfold place
      split
      · simp [lookup, different]
      · split
        · next equal =>
            subst equal
            simp [lookup, different]
        · simp [lookup, ih]

theorem find?_insert_self (map : NameMap α) (name : String) (value : α) :
    (map.insert name value).find? name = some value := lookup_place_self name value map.entries

theorem find?_insert_of_ne (map : NameMap α) {name other : String} (value : α)
    (different : name ≠ other) : (map.insert name value).find? other = map.find? other :=
  lookup_place_of_ne value map.entries different

theorem find?_empty (name : String) : (empty : NameMap α).find? name = none := rfl

theorem lookup_isSome_iff {name : String} {entries : List (String × α)} :
    (lookup name entries).isSome ↔ name ∈ entries.map Prod.fst := by
  induction entries with
  | nil => simp [lookup]
  | cons head rest ih =>
      obtain ⟨key, present⟩ := head
      by_cases equal : key = name
      · simp [lookup, equal]
      · simp [lookup, equal, ih, Ne.symm equal]

theorem lookup_eq_none {name : String} {entries : List (String × α)}
    (others : ∀ entry ∈ entries, entry.1 ≠ name) : lookup name entries = none := by
  refine Option.not_isSome_iff_eq_none.1 fun present => ?_
  obtain ⟨entry, member, same⟩ := List.mem_map.1 (lookup_isSome_iff.1 present)
  exact others entry member same

theorem place_of_lt {name : String} {value : α} {entries : List (String × α)}
    (before : ∀ entry ∈ entries, entry.1 < name) :
    place name value entries = entries ++ [(name, value)] := by
  induction entries with
  | nil => rfl
  | cons head rest ih =>
      rw [List.forall_mem_cons] at before
      have notAfter : ¬ name < head.1 := String.lt_asymm before.1
      have different : name ≠ head.1 := by
        intro same
        exact String.lt_irrefl name (same ▸ before.1)
      rw [place, if_neg notAfter, if_neg different, ih before.2, List.cons_append]

/-- A name is found exactly if it is one of the map's names. -/
theorem find?_isSome_iff {map : NameMap α} {name : String} :
    (map.find? name).isSome ↔ name ∈ map.keys := lookup_isSome_iff

theorem mem_iff_lookup {entries : List (String × α)}
    (increasing : entries.Pairwise fun first second => first.1 < second.1) {name : String} {value : α} :
    (name, value) ∈ entries ↔ lookup name entries = some value := by
  induction entries with
  | nil => simp [lookup]
  | cons head rest ih =>
      obtain ⟨key, present⟩ := head
      rw [List.pairwise_cons] at increasing
      rw [List.mem_cons, lookup, ih increasing.2]
      by_cases same : key = name
      · subst same
        have absent : lookup key rest ≠ some value := fun found =>
          String.lt_irrefl key (increasing.1 _ ((ih increasing.2).2 found))
        simp [absent, eq_comm]
      · simp [same, Ne.symm same]

end NameMap

end GraphqlStore
