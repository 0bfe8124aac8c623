import Mathlib.Data.Option.Basic

/-!
Steps that may fail, one after the other. A sequence that goes through says
what each of its steps gave.
-/

set_option autoImplicit false

namespace GraphqlStore

section Except

variable {ε α β σ : Type}

theorem bind_eq_ok_iff {first : Except ε α} {next : α → Except ε β} {value : β} :
    (first >>= next) = .ok value ↔ ∃ between, first = .ok between ∧ next between = .ok value := by
  cases first with
  | error reason => simp [bind, Except.bind]
  | ok between => simp [bind, Except.bind]

theorem toOption_eq_some_iff {result : Except ε α} {value : α} :
    result.toOption = some value ↔ result = .ok value := by
  cases result <;> simp [Except.toOption]

theorem forM_ok {check : α → Except ε Unit} {entries : List α}
    (passes : entries.forM check = .ok ()) : ∀ entry ∈ entries, check entry = .ok () := by
  induction entries with
  | nil => simp
  | cons first rest ih =>
      obtain ⟨_, own, others⟩ := bind_eq_ok_iff.1 passes
      exact List.forall_mem_cons.2 ⟨own, ih others⟩

theorem foldlM_keeps {step : σ → α → Except ε σ} (kept : σ → Prop) {entries : List α}
    (each : ∀ entry ∈ entries, ∀ before after, kept before → step before entry = .ok after → kept after)
    {first last : σ} (start : kept first) (run : entries.foldlM step first = .ok last) : kept last := by
  induction entries generalizing first with
  | nil =>
      cases run
      exact start
  | cons entry rest ih =>
      rw [List.forall_mem_cons] at each
      obtain ⟨between, here, run⟩ := bind_eq_ok_iff.1 run
      exact ih each.2 (each.1 first between start here) run

end Except

section Option

variable {α β : Type} {step next : α → Option β} {items : List α} {found : List β}

theorem mapM_cons_eq_some_iff {item : α} :
    (item :: items).mapM step = some found ↔
      ∃ first others, step item = some first ∧ items.mapM step = some others ∧ found = first :: others := by
  simp only [List.mapM_cons, Option.bind_eq_bind, Option.bind_eq_some_iff, Option.pure_def,
    Option.some.injEq]
  constructor
  · intro read
    obtain ⟨first, here, others, later, whole⟩ := read
    exact ⟨first, others, here, later, whole.symm⟩
  · intro read
    obtain ⟨first, others, here, later, whole⟩ := read
    exact ⟨first, here, others, later, whole.symm⟩

theorem mapM_eq_some_mono
    (each : ∀ item ∈ items, ∀ value, step item = some value → next item = some value)
    (all : items.mapM step = some found) : items.mapM next = some found := by
  induction items generalizing found with
  | nil => exact all
  | cons item rest ih =>
      rw [List.forall_mem_cons] at each
      obtain ⟨first, others, here, later, whole⟩ := mapM_cons_eq_some_iff.1 all
      exact mapM_cons_eq_some_iff.2 ⟨first, others, each.1 first here, ih each.2 later, whole⟩

theorem isSome_mapM (each : ∀ item ∈ items, (step item).isSome) : (items.mapM step).isSome := by
  induction items with
  | nil => rfl
  | cons item rest ih =>
      rw [List.forall_mem_cons] at each
      obtain ⟨first, here⟩ := Option.isSome_iff_exists.1 each.1
      obtain ⟨others, later⟩ := Option.isSome_iff_exists.1 (ih each.2)
      exact Option.isSome_iff_exists.2 ⟨_, mapM_cons_eq_some_iff.2 ⟨first, others, here, later, rfl⟩⟩

theorem forall_of_mapM_flatten {step : α → Option (List β)} {found : List (List β)}
    (all : items.mapM step = some found) (none : found.flatten = []) :
    ∀ item ∈ items, step item = some [] := by
  induction items generalizing found with
  | nil => simp
  | cons item rest ih =>
      obtain ⟨first, others, here, later, rfl⟩ := mapM_cons_eq_some_iff.1 all
      rw [List.flatten_cons, List.append_eq_nil_iff] at none
      rw [List.forall_mem_cons, here, none.1]
      exact ⟨rfl, ih later none.2⟩

theorem mapM_map_eq {write : α → β} {read : β → Option α}
    (each : ∀ item ∈ items, read (write item) = some item) :
    (items.map write).mapM read = some items := by
  induction items with
  | nil => rfl
  | cons item rest ih =>
      rw [List.forall_mem_cons] at each
      exact mapM_cons_eq_some_iff.2 ⟨item, rest, each.1, ih each.2, rfl⟩

end Option

end GraphqlStore
