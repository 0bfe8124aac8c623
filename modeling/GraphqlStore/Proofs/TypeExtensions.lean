import GraphqlStore.Proofs.Conformance
import Mathlib.Data.List.Perm.Basic
import Mathlib.Data.Option.Basic

/-!
Extensions of one type may be swapped. Members of new names are added at the
end, so another order of two extensions is another order of the members; where
one of them is refused, it is refused before and after the other, or the other
is refused in its place.
-/

set_option autoImplicit false

namespace GraphqlStore

/-! ## Steps that may be swapped -/

/-- Both results are refusals, or both are accepted and related. -/
inductive Concur {ε α : Type} (related : α → α → Prop) : Except ε α → Except ε α → Prop where
  | accepted {first second : α} :
      related first second → Concur related (.ok first) (.ok second)
  | refused {cause other : ε} : Concur related (.error cause) (.error other)

namespace Concur

variable {ε α β : Type} {related : α → α → Prop}

theorem refl (reflexive : ∀ value, related value value) (result : Except ε α) :
    Concur related result result := by
  cases result with
  | error cause => exact .refused
  | ok value => exact .accepted (reflexive value)

theorem trans (transitive : ∀ one two three, related one two → related two three → related one three)
    {first second third : Except ε α} (one : Concur related first second)
    (two : Concur related second third) : Concur related first third := by
  cases one with
  | refused =>
      cases two
      exact .refused
  | accepted here =>
      cases two with
      | accepted next => exact .accepted (transitive _ _ _ here next)

theorem bind {other : β → β → Prop} {first second : Except ε α} (concur : Concur related first second)
    {next following : α → Except ε β}
    (each : ∀ {one two}, related one two → Concur other (next one) (following two)) :
    Concur other (first >>= next) (second >>= following) := by
  cases concur with
  | refused => exact .refused
  | accepted here => exact each here

theorem after {other : β → β → Prop} (result : Except ε α) {next following : α → Except ε β}
    (each : ∀ value, Concur other (next value) (following value)) :
    Concur other (result >>= next) (result >>= following) := by
  cases result with
  | error cause => exact .refused
  | ok value => exact each value

theorem map {other : β → β → Prop} {first second : Except ε α} (concur : Concur related first second)
    {next following : α → β} (each : ∀ {one two}, related one two → other (next one) (following two)) :
    Concur other (first >>= fun value => pure (next value))
      (second >>= fun value => pure (following value)) :=
  concur.bind fun here => .accepted (each here)

end Concur

theorem foldlM_perm {ε σ δ : Type} {related : σ → σ → Prop} {step : σ → δ → Except ε σ}
    (reflexive : ∀ state, related state state)
    (transitive : ∀ one two three, related one two → related two three → related one three)
    (congr : ∀ entry {one two}, related one two → Concur related (step one entry) (step two entry))
    (allowed : δ → Prop)
    (swap : ∀ one two, allowed one → allowed two → ∀ state,
      Concur related (step state one >>= (step · two)) (step state two >>= (step · one)))
    {entries others : List δ} (perm : entries.Perm others) (each : ∀ entry ∈ entries, allowed entry)
    {first second : σ} (start : related first second) :
    Concur related (entries.foldlM step first) (others.foldlM step second) := by
  have foldlM_congr (entries : List δ) {first second : σ} (start : related first second) :
      Concur related (entries.foldlM step first) (entries.foldlM step second) := by
    induction entries generalizing first second with
    | nil => exact .accepted start
    | cons entry rest ih => exact (congr entry start).bind ih
  induction perm generalizing first second with
  | nil => exact .accepted start
  | cons entry _ ih =>
      rw [List.forall_mem_cons] at each
      exact (congr entry start).bind fun here => ih each.2 here
  | swap one two rest =>
      rw [List.forall_mem_cons, List.forall_mem_cons] at each
      have both := (swap two one each.1 each.2.1 first).bind fun {_ _} here => foldlM_congr rest here
      simp only [List.foldlM_cons, bind_assoc] at both ⊢
      refine both.trans transitive ?_
      exact (congr one start).bind fun here => (congr two here).bind fun {_ _} => foldlM_congr rest
  | trans one _ ihOne ihTwo =>
      exact (ihOne each start).trans transitive
        (ihTwo (fun entry member => each entry (one.mem_iff.2 member)) (reflexive second))

/-! ## New names -/

section Names

variable {ε σ δ : Type} (taken : σ → String → Bool) (key : δ → String) (put : σ → δ → σ)
  (refusal : δ → ε)

def putNew (state : σ) (entry : δ) : Except ε σ :=
  if taken state (key entry) then .error (refusal entry) else .ok (put state entry)

variable {taken key put}

theorem putNew_comm {related : σ → σ → Prop}
    (grown : ∀ state entry name,
      taken (put state entry) name = true ↔ taken state name = true ∨ name = key entry)
    (swap : ∀ state one two, key one ≠ key two →
      related (put (put state one) two) (put (put state two) one))
    (first second : δ) (state : σ) :
    Concur related
      (putNew taken key put refusal state first >>= (putNew taken key put refusal · second))
      (putNew taken key put refusal state second >>= (putNew taken key put refusal · first)) := by
  have both (one two : δ) :
      putNew taken key put refusal state one >>= (putNew taken key put refusal · two) =
        if taken state (key one) then .error (refusal one)
        else if taken state (key two) ∨ key two = key one then .error (refusal two)
        else .ok (put (put state one) two) := by
    unfold putNew
    split
    · rfl
    · simp only [bind, Except.bind, grown]
  rw [both, both]
  by_cases one : taken state (key first) = true
  · rw [if_pos one, if_pos (Or.inl one)]
    split <;> exact .refused
  by_cases two : taken state (key second) = true
  · rw [if_neg one, if_pos (Or.inl two), if_pos two]
    exact .refused
  by_cases same : key first = key second
  · rw [if_neg one, if_neg two, if_pos (Or.inr same.symm), if_pos (Or.inr same)]
    exact .refused
  · rw [if_neg one, if_neg two, if_neg (not_or.2 ⟨two, Ne.symm same⟩), if_neg (not_or.2 ⟨one, same⟩)]
    exact .accepted (swap state first second same)

end Names

/-! ## Optional values -/

section Optional

variable {α β γ δ : Type}

theorem none_or_some {related : α → β → Prop} {first : Option α} {second : Option β}
    (rel : Option.Rel related first second) :
    first = none ∧ second = none ∨
      ∃ one two, first = some one ∧ second = some two ∧ related one two := by
  cases rel with
  | none => exact .inl ⟨rfl, rfl⟩
  | some same => exact .inr ⟨_, _, rfl, rfl, same⟩

theorem rel_trans {one : α → β → Prop} {two : β → γ → Prop} {all : α → γ → Prop} {first : Option α}
    {second : Option β} {third : Option γ} (here : Option.Rel one first second)
    (there : Option.Rel two second third) (each : ∀ a b c, one a b → two b c → all a c) :
    Option.Rel all first third := by
  cases here with
  | none =>
      cases there
      exact .none
  | some here =>
      cases there with
      | some there => exact .some (each _ _ _ here there)

theorem rel_symm {related : α → β → Prop} {first : Option α} {second : Option β}
    (here : Option.Rel related first second) :
    Option.Rel (fun value other => related other value) second first := by
  cases here with
  | none => exact .none
  | some here => exact .some here

end Optional

/-! ## Members -/

namespace TypeBody

section Members

variable {α : Type} (type : String) (key : α → String)

def addMember : List α → α → Except SchemaError (List α) :=
  putNew (fun members name => Ordered.contains key name members) key
    (fun members added => members ++ [added]) fun added => .duplicateMember type (key added)

theorem addMembers_eq_foldlM (members added : List α) :
    addMembers type key members added = added.foldlM (addMember type key) members := by
  induction added generalizing members with
  | nil => rfl
  | cons first rest ih =>
      rw [addMembers, List.foldlM_cons, addMember, putNew]
      split
      · rfl
      · exact ih (members ++ [first])

theorem contains_iff {key : α → String} {name : String} {members : List α} :
    Ordered.contains key name members = true ↔ name ∈ members.map key := by
  induction members with
  | nil => simp [Ordered.contains, Ordered.find?]
  | cons first rest ih =>
      rw [Ordered.contains] at ih ⊢
      by_cases same : key first = name
      · simp [Ordered.find?, same]
      · rw [Ordered.find?, if_neg same, ih, List.map_cons, List.mem_cons]
        simp [Ne.symm same]

private theorem addMember_congr (added : α) {members others : List α} (perm : members.Perm others) :
    Concur List.Perm (addMember type key members added) (addMember type key others added) := by
  have same : Ordered.contains key (key added) members = Ordered.contains key (key added) others := by
    rw [Bool.eq_iff_iff, contains_iff, contains_iff, (perm.map key).mem_iff]
  simp only [addMember, putNew, same]
  split
  · exact .refused
  · exact .accepted (perm.append_right [added])

private theorem addMember_comm (first second : α) (members : List α) :
    Concur List.Perm (addMember type key members first >>= (addMember type key · second))
      (addMember type key members second >>= (addMember type key · first)) := by
  refine putNew_comm _ ?_ ?_ first second members
  · intro members added name
    simp only [contains_iff, List.map_append, List.mem_append, List.map_cons, List.map_nil,
      List.mem_singleton]
  · intro members one two _
    rw [List.append_assoc, List.append_assoc]
    exact (List.Perm.swap two one []).append_left members

private theorem addMembers_perm {members others added more : List α} (here : members.Perm others)
    (perm : added.Perm more) :
    Concur List.Perm (addMembers type key members added) (addMembers type key others more) := by
  rw [addMembers_eq_foldlM, addMembers_eq_foldlM]
  exact foldlM_perm List.Perm.refl (fun _ _ _ => List.Perm.trans)
    (fun added => addMember_congr type key added) (fun _ => True)
    (fun one two _ _ => addMember_comm type key one two) perm (fun _ _ => trivial) here

private theorem addMembers_comm (members added more : List α) :
    Concur List.Perm (addMembers type key members added >>= (addMembers type key · more))
      (addMembers type key members more >>= (addMembers type key · added)) := by
  have joined (one two : List α) : addMembers type key members one >>= (addMembers type key · two) =
      addMembers type key members (one ++ two) := by
    simp only [addMembers_eq_foldlM, List.foldlM_append]
  rw [joined, joined]
  exact addMembers_perm type key (List.Perm.refl members) List.perm_append_comm

end Members

theorem count_addInterfaces (name : String) (interfaces added : List String) :
    (addInterfaces interfaces added).count name =
      if name ∈ interfaces then interfaces.count name else if name ∈ added then 1 else 0 := by
  induction added generalizing interfaces with
  | nil =>
      rw [addInterfaces]
      split
      · rfl
      · next absent => simp [List.count_eq_zero.2 absent]
  | cons first rest ih =>
      rw [addInterfaces]
      by_cases known : first ∈ interfaces
      · rw [if_pos (List.contains_iff_mem.2 known), ih]
        by_cases here : name ∈ interfaces
        · simp only [here, if_true]
        · have other : name ≠ first := fun same => here (same ▸ known)
          simp only [here, if_false, List.mem_cons, other, false_or]
      · rw [if_neg (mt List.contains_iff_mem.1 known), ih]
        by_cases same : name = first
        · subst same
          simp [known, List.count_eq_zero.2 known]
        · simp [same, Ne.symm same]

private theorem addInterfaces_perm {interfaces others : List String} (perm : interfaces.Perm others)
    (added : List String) : (addInterfaces interfaces added).Perm (addInterfaces others added) := by
  refine List.perm_iff_count.2 fun name => ?_
  simp only [count_addInterfaces, perm.mem_iff, perm.count_eq]

private theorem addInterfaces_comm (interfaces added more : List String) :
    (addInterfaces (addInterfaces interfaces added) more).Perm
      (addInterfaces (addInterfaces interfaces more) added) := by
  refine List.perm_iff_count.2 fun name => ?_
  have mem_iff (added : List String) :
      name ∈ addInterfaces interfaces added ↔ name ∈ interfaces ∨ name ∈ added := by
    rw [← List.count_pos_iff, count_addInterfaces]
    by_cases here : name ∈ interfaces
    · simp [here]
    · by_cases there : name ∈ added <;> simp [here, there]
  simp only [count_addInterfaces, mem_iff]
  by_cases here : name ∈ interfaces <;> by_cases one : name ∈ added <;>
    by_cases two : name ∈ more <;> simp [here, one, two]

/-! ## Bodies -/

/-- Bodies with the same members, in whatever order. -/
inductive Alike : TypeBody → TypeBody → Prop where
  | scalar : Alike .scalar .scalar
  | object {fields others : List FieldDef} {interfaces more : List String} :
      fields.Perm others → interfaces.Perm more →
        Alike (.object fields interfaces) (.object others more)
  | interface {fields others : List FieldDef} :
      fields.Perm others → Alike (.interface fields) (.interface others)
  | union {members others : List String} :
      members.Perm others → Alike (.union members) (.union others)
  | enum {values others : List String} : values.Perm others → Alike (.enum values) (.enum others)
  | input {fields others : List InputValue} :
      fields.Perm others → Alike (.input fields) (.input others)

namespace Alike

theorem refl (body : TypeBody) : Alike body body := by
  cases body with
  | scalar => exact .scalar
  | object => exact .object (.refl _) (.refl _)
  | interface => exact .interface (.refl _)
  | union => exact .union (.refl _)
  | enum => exact .enum (.refl _)
  | input => exact .input (.refl _)

theorem trans {first second third : TypeBody} (one : Alike first second)
    (two : Alike second third) : Alike first third := by
  cases one with
  | scalar => exact two
  | object fields interfaces =>
      cases two with
      | object more others => exact .object (fields.trans more) (interfaces.trans others)
  | interface fields =>
      cases two with
      | interface more => exact .interface (fields.trans more)
  | union members =>
      cases two with
      | union more => exact .union (members.trans more)
  | enum values =>
      cases two with
      | enum more => exact .enum (values.trans more)
  | input fields =>
      cases two with
      | input more => exact .input (fields.trans more)

variable {first second : TypeBody}

theorem kind (alike : Alike first second) : first.kind = second.kind := by cases alike <;> rfl

theorem fields (alike : Alike first second) : first.fields.Perm second.fields := by
  cases alike with
  | object fields | interface fields => exact fields
  | _ => exact .nil

theorem interfaces (alike : Alike first second) : first.interfaces.Perm second.interfaces := by
  cases alike with
  | object _ interfaces => exact interfaces
  | _ => exact .nil

theorem members (alike : Alike first second) : first.members.Perm second.members := by
  cases alike with
  | union members => exact members
  | _ => exact .nil

theorem enumValues (alike : Alike first second) : first.enumValues.Perm second.enumValues := by
  cases alike with
  | enum values => exact values
  | _ => exact .nil

theorem inputFields (alike : Alike first second) : first.inputFields.Perm second.inputFields := by
  cases alike with
  | input fields => exact fields
  | _ => exact .nil

end Alike

theorem extend_congr (type : String) (extension : TypeBody) {body other : TypeBody}
    (alike : Alike body other) :
    Concur Alike (body.extend type extension) (other.extend type extension) := by
  cases alike with
  | scalar => exact Concur.refl Alike.refl _
  | object fields interfaces =>
      cases extension with
      | object added more =>
          exact (addMembers_perm type FieldDef.name fields (.refl added)).map
            fun all => .object all (addInterfaces_perm interfaces more)
      | _ => exact .refused
  | interface fields =>
      cases extension with
      | interface added =>
          exact (addMembers_perm type FieldDef.name fields (.refl added)).map .interface
      | _ => exact .refused
  | union members =>
      cases extension with
      | union added => exact .accepted (.union (members.append_right added))
      | _ => exact .refused
  | enum values =>
      cases extension with
      | enum added => exact (addMembers_perm type id values (.refl added)).map .enum
      | _ => exact .refused
  | input fields =>
      cases extension with
      | input added =>
          exact (addMembers_perm type InputValue.name fields (.refl added)).map .input
      | _ => exact .refused

theorem kind_of_extend {type : String} {body extension extended : TypeBody}
    (done : body.extend type extension = .ok extended) :
    extension.kind = body.kind ∧ extended.kind = body.kind := by
  unfold extend at done
  split at done
  case h_1 | h_4 =>
    cases done
    exact ⟨rfl, rfl⟩
  case h_7 => cases done
  all_goals
    obtain ⟨all, -, done⟩ := bind_eq_ok_iff.1 done
    cases done
    exact ⟨rfl, rfl⟩

theorem refused_of_kind_ne (type : String) {body extension : TypeBody}
    (different : extension.kind ≠ body.kind) (before : TypeBody) :
    ∃ cause, (body.extend type before >>= (·.extend type extension)) = .error cause := by
  cases first : body.extend type before with
  | error cause => exact ⟨cause, rfl⟩
  | ok extended =>
      cases second : extended.extend type extension with
      | error cause => exact ⟨cause, second⟩
      | ok result =>
          have kept := (kind_of_extend first).2
          exact absurd ((kind_of_extend second).1.trans kept) different

theorem refused_at_once (type : String) {body extension : TypeBody}
    (different : extension.kind ≠ body.kind) (after : TypeBody) :
    ∃ cause, (body.extend type extension >>= (·.extend type after)) = .error cause := by
  cases first : body.extend type extension with
  | error cause => exact ⟨cause, rfl⟩
  | ok extended => exact absurd (kind_of_extend first).1 different

theorem extend_comm (type : String) (body first second : TypeBody) :
    Concur Alike (body.extend type first >>= (·.extend type second))
      (body.extend type second >>= (·.extend type first)) := by
  by_cases one : first.kind = body.kind
  case neg =>
    obtain ⟨cause, refused⟩ := refused_at_once type one second
    obtain ⟨other, alsoRefused⟩ := refused_of_kind_ne type one second
    rw [refused, alsoRefused]
    exact .refused
  by_cases two : second.kind = body.kind
  case neg =>
    obtain ⟨cause, refused⟩ := refused_of_kind_ne type two first
    obtain ⟨other, alsoRefused⟩ := refused_at_once type two first
    rw [refused, alsoRefused]
    exact .refused
  cases body with
  | scalar =>
      cases first <;> cases one
      cases second <;> cases two
      exact .accepted .scalar
  | union members =>
      cases first <;> cases one
      cases second <;> cases two
      refine .accepted (.union ?_)
      rw [List.append_assoc, List.append_assoc]
      exact List.perm_append_comm.append_left members
  | object fields interfaces =>
      cases first <;> cases one
      cases second <;> cases two
      simp only [extend, bind_assoc, pure_bind]
      simp only [← bind_assoc]
      exact (addMembers_comm type FieldDef.name fields _ _).map
        fun all => .object all (addInterfaces_comm interfaces _ _)
  | interface fields =>
      cases first <;> cases one
      cases second <;> cases two
      simp only [extend, bind_assoc, pure_bind]
      simp only [← bind_assoc]
      exact (addMembers_comm type FieldDef.name fields _ _).map .interface
  | enum values =>
      cases first <;> cases one
      cases second <;> cases two
      simp only [extend, bind_assoc, pure_bind]
      simp only [← bind_assoc]
      exact (addMembers_comm type id values _ _).map .enum
  | input fields =>
      cases first <;> cases one
      cases second <;> cases two
      simp only [extend, bind_assoc, pure_bind]
      simp only [← bind_assoc]
      exact (addMembers_comm type InputValue.name fields _ _).map .input

end TypeBody

end GraphqlStore
