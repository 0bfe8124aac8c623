import GraphqlStore.Names.NameMap

/-!
Names that lead to names: what a map holds under a name leads to further
names. The worklist that follows them ends because each step either meets a
name of the map for the first time or shortens the list; as a number, the
names not met yet count for more than all that the map can put on the list.
-/

set_option autoImplicit false

namespace GraphqlStore

variable {α : Type}

namespace NameMap

/-- How many names of a map are not among the given ones. -/
def outside (map : NameMap α) (names : List String) : Nat :=
  (map.keys.filter fun name => !names.contains name).length

/-- One more name never leaves more of a list outside. -/
theorem length_filter_cons_le (keys : List String) (name : String) (names : List String) :
    (keys.filter fun key => !(name :: names).contains key).length ≤
      (keys.filter fun key => !names.contains key).length := by
  induction keys with
  | nil => simp
  | cons key rest ih =>
      by_cases same : key = name <;> by_cases known : key ∈ names <;> simp_all
      omega

/-- A new name of a list leaves less of it outside. -/
theorem length_filter_cons_lt {keys : List String} {name : String} {names : List String}
    (present : name ∈ keys) (fresh : name ∉ names) :
    (keys.filter fun key => !(name :: names).contains key).length <
      (keys.filter fun key => !names.contains key).length := by
  induction keys with
  | nil => simp at present
  | cons key rest ih =>
      by_cases same : key = name
      · have atMost := length_filter_cons_le rest name names
        subst same
        rw [List.filter_cons_of_neg (by simp), List.filter_cons_of_pos (by simpa using fresh),
          List.length_cons]
        exact Nat.lt_succ_of_le atMost
      · have later : name ∈ rest := by simpa [Ne.symm same] using present
        have smaller := ih later
        by_cases known : key ∈ names <;> simp_all

theorem outside_cons_le (map : NameMap α) (name : String) (names : List String) :
    map.outside (name :: names) ≤ map.outside names :=
  length_filter_cons_le map.keys name names

theorem outside_cons_lt_of_mem (map : NameMap α) {name : String} {names : List String}
    (present : name ∈ map.keys) (fresh : name ∉ names) :
    map.outside (name :: names) < map.outside names :=
  length_filter_cons_lt present fresh

theorem outside_cons_lt (map : NameMap α) {name : String} {names : List String} {value : α}
    (found : map.find? name = some value) (fresh : name ∉ names) :
    map.outside (name :: names) < map.outside names := by
  refine outside_cons_lt_of_mem map ?_ fresh
  rw [← find?_isSome_iff, found]
  rfl

def total (size : α → Nat) (map : NameMap α) : Nat :=
  map.values.foldr (fun value sum => size value + sum) 0

theorem mem_values_of_lookup {name : String} {value : α} {entries : List (String × α)}
    (found : lookup name entries = some value) : value ∈ entries.map Prod.snd := by
  induction entries with
  | nil => simp [lookup] at found
  | cons head rest ih =>
      obtain ⟨key, present⟩ := head
      by_cases equal : key = name
      · simp only [lookup, equal, if_true, Option.some.injEq] at found
        simp [found]
      · simp only [lookup, equal, if_false] at found
        exact List.mem_cons_of_mem _ (ih found)

/-- One value is not larger than all together. -/
theorem size_le_total (size : α → Nat) (map : NameMap α) {name : String} {value : α}
    (found : map.find? name = some value) : size value ≤ map.total size := by
  have bound : ∀ values : List α, value ∈ values →
      size value ≤ values.foldr (fun value sum => size value + sum) 0 := by
    intro values member
    induction values with
    | nil => simp at member
    | cons head rest ih =>
        rcases List.mem_cons.1 member with rfl | later
        · exact Nat.le_add_right _ _
        · exact Nat.le_trans (ih later) (Nat.le_add_left _ _)
  exact bound map.values (mem_values_of_lookup found)

/-- A smaller count of units outweighs whatever a unit is larger than. -/
theorem mul_add_lt {count other unit added rest : Nat} (fewer : count < other)
    (within : added < unit + rest) : count * unit + added < other * unit + rest := by
  have units : count * unit + unit ≤ other * unit := by
    have product := Nat.mul_le_mul_right unit (Nat.succ_le_of_lt fewer)
    rwa [Nat.succ_mul] at product
  omega

def successors (map : NameMap α) (next : α → List String) (name : String) : List String :=
  match map.find? name with
  | some value => next value
  | none => []

/-- The names to which the pending ones lead, themselves included, in the order in which they are
met. Names that have been seen are not followed again. -/
def reach (map : NameMap α) (next : α → List String) (seen : List String) :
    List String → List String
  | [] => []
  | name :: pending =>
      if name ∈ seen then reach map next seen pending
      else name :: reach map next (name :: seen) (map.successors next name ++ pending)
termination_by pending =>
  map.outside seen * (map.total (fun value => (next value).length) + 1) + pending.length
decreasing_by
  · simp only [List.length_cons]
    omega
  · rename_i fresh
    cases found : map.find? name with
    | some value =>
        have small := size_le_total (fun value => (next value).length) map found
        refine mul_add_lt (outside_cons_lt map found fresh) ?_
        simp only [successors, found, List.length_append, List.length_cons]
        omega
    | none =>
        have atMost := Nat.mul_le_mul_right
          (map.total (fun value => (next value).length) + 1) (outside_cons_le map name seen)
        simp only [successors, found, List.nil_append, List.length_cons]
        omega

end NameMap

end GraphqlStore
