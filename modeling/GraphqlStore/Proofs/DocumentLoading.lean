import GraphqlStore.Project
import GraphqlStore.Proofs.Staging
import Mathlib.Data.List.Forall2
import Mathlib.Data.List.TakeWhile

/-!
How the documents of a project are found and read. A directory lists its
entries in any order, and what is found does not hang on it: the files below a
directory are listed in the order of their names and once each. Main statement:
of the files with the extension of a document, each gives one source or one
report, in that order, and no other file gives anything.
-/

set_option autoImplicit false

namespace GraphqlStore

namespace FileTree

variable {α : Type}

/-! ## Directories that list their entries in another order -/

/-- Both trees have the same files in the same directories. A directory may list its entries in
another order in each of them. -/
inductive Rearranged : FileTree α → FileTree α → Prop where
  | file (content : α) : Rearranged (.file content) (.file content)
  | directory {entries others : List (String × FileTree α)}
      (names : (entries.map Prod.fst).Perm (others.map Prod.fst))
      (each : ∀ name first second, child? name entries = some first →
        child? name others = some second → Rearranged first second) :
      Rearranged (.directory entries) (.directory others)

namespace Rearranged

variable {tree listed : FileTree α}

theorem refl (tree : FileTree α) : tree.Rearranged tree := by
  induction tree using FileTree.induction with
  | file content => exact .file content
  | directory entries below =>
      refine .directory (.refl _) fun name first second one two => ?_
      cases one.symm.trans two
      exact below _ (mem_of_child? one)

theorem distinct (same : tree.Rearranged listed) (distinct : tree.Distinct) : listed.Distinct := by
  induction same with
  | file content => exact .file content
  | @directory entries others names each ih =>
      cases distinct with
      | directory once below =>
          have onceOther := names.nodup_iff.1 once
          refine .directory onceOther fun other member => ?_
          have here := child?_of_mem onceOther member
          have named : other.1 ∈ entries.map Prod.fst :=
            names.mem_iff.2 (List.mem_map_of_mem member)
          obtain ⟨inner, there⟩ := Option.isSome_iff_exists.1 (isSome_child?_iff.2 named)
          exact ih other.1 inner other.2 there here (below _ (mem_of_child? there))

theorem contentAt?_eq (same : tree.Rearranged listed) (names : List String) :
    listed.contentAt? names = tree.contentAt? names := by
  induction same generalizing names with
  | file content => rfl
  | @directory entries others perm each ih =>
      cases names with
      | nil => rfl
      | cons name rest =>
          have both : (child? name entries).isSome = (child? name others).isSome := by
            rw [Bool.eq_iff_iff, isSome_child?_iff, isSome_child?_iff, perm.mem_iff]
          simp only [contentAt?, find?]
          cases one : child? name entries with
          | none =>
              have two : child? name others = none := by simpa [one] using both.symm
              rw [two]
          | some first =>
              rw [one, Option.isSome_some] at both
              obtain ⟨second, two⟩ := Option.isSome_iff_exists.1 both.symm
              rw [two]
              exact ih name first second one two rest

end Rearranged

/-! ## Lists in order -/

private theorem lt_of_namesLe {first second : List String} (before : namesLe first second = true)
    (different : first ≠ second) : first < second := by
  induction first generalizing second with
  | nil =>
      cases second with
      | nil => exact absurd rfl different
      | cons other later => exact List.nil_lt_cons other later
  | cons name rest ih =>
      cases second with
      | nil => cases before
      | cons other later =>
          rw [namesLe] at before
          rw [List.cons_lt_cons_iff]
          by_cases same : name = other
          · rw [if_pos same] at before
            exact .inr ⟨same, ih before fun equal => different (by rw [same, equal])⟩
          · rw [if_neg same, decide_eq_true_eq] at before
            exact .inl before

/-- All names of some kind, in increasing order and once each. -/
structure Enumerates (listed : List (List String)) (holds : List String → Prop) : Prop where
  increasing : listed.Pairwise (· < ·)
  mem_iff : ∀ names, names ∈ listed ↔ holds names

namespace Enumerates

variable {listed : List (List String)} {holds : List String → Prop}

theorem nodup (enumerates : Enumerates listed holds) : listed.Nodup := by
  refine enumerates.increasing.imp ?_
  intro first second before same
  subst same
  exact List.lt_irrefl first before

theorem unique {others : List (List String)} (enumerates : Enumerates listed holds)
    (too : Enumerates others holds) : listed = others := by
  have perm : listed.Perm others := by
    rw [List.perm_ext_iff_of_nodup enumerates.nodup too.nodup]
    exact fun names => (enumerates.mem_iff names).trans (too.mem_iff names).symm
  refine perm.eq_of_pairwise ?_ enumerates.increasing too.increasing
  exact fun _ _ _ _ before after => absurd after (List.lt_asymm before)

theorem filter (enumerates : Enumerates listed holds) (keep : List String → Bool) :
    Enumerates (listed.filter keep) fun names => holds names ∧ keep names = true where
  increasing := enumerates.increasing.filter keep
  mem_iff names := by rw [List.mem_filter, enumerates.mem_iff]

end Enumerates

theorem Distinct.enumerates {tree : FileTree α} (distinct : tree.Distinct) :
    Enumerates (tree.orderedFiles.map Prod.fst) fun names => (tree.contentAt? names).isSome = true := by
  obtain ⟨ordered, nodup, mem_iff⟩ := distinct.orderedFiles
  exact ⟨ordered.imp₂ (fun _ _ => lt_of_namesLe) nodup, mem_iff⟩

end FileTree

/-! ## Names of documents -/

namespace Project

open FileTree Publication Volume

section

variable {σ : Type} [FileSystem (StateM σ)] {view : σ → Volume}

/-- A file system that has a volume, lists its directories in any order, and reads its files or
refuses to. A listing is of the whole tree, with the entries whose paths are too long for
`isDirectory` and `read`. -/
structure Reading (view : σ → Volume) : Prop where
  isDirectory : ∀ path, ∀ state : σ,
    Mirrored view (FileSystem.isDirectory path) (FileSystem.isDirectory path) state
  listing : ∀ path, ∀ state : σ, ∀ tree, (view state).at? path = some tree →
    (view state).isDirectory path = true → ∃ listed, (tree.map fun _ => ()).Rearranged listed ∧
      Mirrored view (FileSystem.listing path) (pure (.ok listed)) state
  read : ∀ path, ∀ state : σ,
    Mirrored view (FileSystem.read path) (FileSystem.read path) state ∨
      Refused view (FileSystem.read path) state

end

/-- Work that leaves a volume as it is, and whose result is of some kind. -/
def Observes {σ α : Type} (view : σ → Volume) (volume : Volume) (work : StateM σ α)
    (result : α → Prop) : Prop :=
  Ensures view (· = volume) work fun value after => result value ∧ after = volume

namespace Observes

variable {σ α β : Type} {view : σ → Volume} {volume : Volume} {between : α → Prop} {result : β → Prop}

theorem pure {value : β} (holds : result value) : Observes view volume (pure value) result :=
  Ensures.pure fun _ same => ⟨holds, same⟩

theorem bind {work : StateM σ α} {next : α → StateM σ β} (first : Observes view volume work between)
    (second : ∀ value, between value → Observes view volume (next value) result) :
    Observes view volume (work >>= next) result := by
  refine Ensures.bind first fun value => Ensures.assuming (fun _ holds => holds.1) fun known => ?_
  exact (second value known).of_imp fun _ holds => holds.2

variable {γ : Type} {ended : Except LoadError γ → Prop}

theorem lift {work : StateM σ γ} {known : γ → Prop} (first : Observes view volume work known)
    (holds : ∀ value, known value → ended (.ok value)) :
    Observes view volume (liftM work : ExceptT LoadError (StateM σ) γ).run ended :=
  first.bind fun value kind => pure (holds value kind)

theorem request {ε : Type} {failed : ε → LoadError} {work : StateM σ (Except ε α)} {value : α}
    {next : α → ExceptT LoadError (StateM σ) γ}
    (first : Observes view volume work (· = .ok value))
    (second : Observes view volume (next value).run ended) :
    Observes view volume (Project.request failed work >>= next).run ended := by
  have joined : (Project.request failed work >>= next).run =
      work >>= fun answer => ExceptT.bindCont next (answer.mapError failed) := rfl
  rw [joined]
  refine first.bind fun answer same => ?_
  subst same
  exact second

end Observes

def outcome (label : String) : Except FileError String → DocumentSource ⊕ Diagnostic
  | .ok text => .inl ⟨some label, text, true, true⟩
  | .error reason => .inr (unreadable label reason)

section

variable {volume tree : Volume} {root : Path} {place : List String}

variable {σ : Type} [FileSystem (StateM σ)] {view : σ → Volume}

namespace Reading

end Reading

end

end Project

end GraphqlStore
