/-!
Keyed lists in insertion order. An entry carries its own key, read off by a
function, and the order of the list is the order in which keys were first
written. Main statements: writing an entry makes its key found, leaves every
other key alone, and keeps keys pairwise distinct.
-/

set_option autoImplicit false

namespace GraphqlStore.Ordered

variable {α : Type}

def find? (key : α → String) (name : String) : List α → Option α
  | [] => none
  | head :: rest => if key head = name then some head else find? key name rest

def contains (key : α → String) (name : String) (entries : List α) : Bool :=
  (find? key name entries).isSome

/-- Writes an entry: in the place of the entry of the same key, else at the end. -/
def upsert (key : α → String) (entry : α) : List α → List α
  | [] => [entry]
  | head :: rest =>
      if key head = key entry then entry :: rest else head :: upsert key entry rest

/-- Writes the entries one after the other: of two with one key the later one
stands, at the place of the earlier one. -/
def ofList (key : α → String) (entries : List α) : List α :=
  entries.foldl (fun written entry => upsert key entry written) []

theorem find?_upsert_self (key : α → String) (entry : α) (entries : List α) :
    find? key (key entry) (upsert key entry entries) = some entry := by
  induction entries with
  | nil => simp [upsert, find?]
  | cons head rest ih =>
      by_cases same : key head = key entry
      · simp [upsert, find?, same]
      · simp [upsert, find?, same, ih]

theorem find?_upsert_of_ne (key : α → String) (entry : α) (entries : List α) (name : String)
    (other : key entry ≠ name) :
    find? key name (upsert key entry entries) = find? key name entries := by
  induction entries with
  | nil => simp [upsert, find?, other]
  | cons head rest ih =>
      by_cases same : key head = key entry
      · simp [upsert, find?, same, other]
      · simp [upsert, find?, same, ih]

theorem mem_keys_upsert (key : α → String) (entry : α) (entries : List α) (name : String) :
    name ∈ (upsert key entry entries).map key ↔ name = key entry ∨ name ∈ entries.map key := by
  induction entries with
  | nil => simp [upsert]
  | cons head rest ih =>
      by_cases same : key head = key entry
      · simp [upsert, same]
      · simp only [upsert, same, if_false, List.map_cons, List.mem_cons, ih]
        grind

theorem nodup_keys_upsert (key : α → String) (entry : α) (entries : List α)
    (distinct : (entries.map key).Nodup) : ((upsert key entry entries).map key).Nodup := by
  induction entries with
  | nil => simp [upsert]
  | cons head rest ih =>
      simp only [List.map_cons, List.nodup_cons] at distinct
      by_cases same : key head = key entry
      · simp only [upsert, same, if_true, List.map_cons, List.nodup_cons]
        exact ⟨same ▸ distinct.1, distinct.2⟩
      · rw [upsert, if_neg same, List.map_cons, List.nodup_cons, mem_keys_upsert]
        exact ⟨fun present => present.elim same distinct.1, ih distinct.2⟩

end GraphqlStore.Ordered
