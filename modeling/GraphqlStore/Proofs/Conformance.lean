import GraphqlStore.Proofs.Documents
import GraphqlStore.Proofs.Sequences
import GraphqlStore.Schema.Build

/-!
Documents that conform to a schema built from definitions: they have a root
type, which is composite, and resolve on it.
-/

set_option autoImplicit false

namespace GraphqlStore

/-! ## Root types -/

namespace Schema

theorem object_of_checkRoot {types : NameMap TypeDef} {query name : String} {done : Unit}
    (accepted : checkRoot types query name = .ok done) :
    ∃ type, types.find? name = some type ∧ type.kind = .object := by
  unfold checkRoot at accepted
  split at accepted
  · rename_i type found
    split at accepted
    · rename_i object
      exact ⟨type, found, object⟩
    · cases accepted
  · cases accepted

theorem isComposite_root {definitions : List SchemaDefinition} {schema : Schema}
    (built : ofDefinitions definitions = .ok schema) {kind : OperationKind} {root : String}
    (named : schema.root? kind = some root) : schema.isComposite root = true := by
  obtain ⟨declared, _, built⟩ := bind_eq_ok_iff.1 built
  obtain ⟨extended, _, built⟩ := bind_eq_ok_iff.1 built
  simp only at built
  split at built
  · cases built
  · rename_i query _
    obtain ⟨_, queryChecked, built⟩ := bind_eq_ok_iff.1 built
    obtain ⟨_, mutationChecked, built⟩ := bind_eq_ok_iff.1 built
    obtain ⟨_, subscriptionChecked, built⟩ := bind_eq_ok_iff.1 built
    cases built
    have object : ∃ type, (linkInterfaces extended).find? root = some type ∧ type.kind = .object := by
      cases kind with
      | query =>
          cases named
          exact object_of_checkRoot queryChecked
      | mutation =>
          simp only [root?] at named
          rw [named] at mutationChecked
          exact object_of_checkRoot mutationChecked
      | subscription =>
          simp only [root?] at named
          rw [named] at subscriptionChecked
          exact object_of_checkRoot subscriptionChecked
    obtain ⟨type, found, isObject⟩ := object
    refine isComposite_iff.2 ⟨type.kind, ?_, by rw [isObject]; rfl⟩
    rw [kind?, type?, found]
    rfl

end Schema

/-! ## Conforming documents -/

/-- A document whose selections resolve on its root type, which is composite. -/
structure Document.TypedOn (schema : Schema) (allowed : String → Prop) (document : Document)
    (definition : Definition) (root : String) : Prop where
  defines : document.Defines definition
  rooted : document.rootType? schema = some root
  composite : schema.isComposite root = true
  typed : Typed schema allowed root definition.selections.items

namespace Conformance

variable {schema : Schema} {registry : FragmentRegistry} {document : Document}
  {definition : Definition}

theorem headFaults_ne_nil {found : List Fault}
    (unsound : headFaults schema registry definition = (found, false)) : found ≠ [] := by
  unfold headFaults fragmentFaults at unsound
  rintro rfl
  split at unsound
  · simp only at unsound
    split at unsound
    · cases unsound
    · split at unsound
      · cases unsound
      · split at unsound <;> cases unsound
  · cases unsound

/-- A document that conforms has a root type, a sound head, and nothing wrong in its selections. -/
theorem sound_of_faults (defined : document.definition? = some definition)
    (conforms : faults schema registry document = []) :
    ∃ root, document.rootType? schema = some root ∧
      headFaults schema registry definition = ([], true) ∧
      (∀ visit ∈ visits schema root [] definition.selections.items,
        visitFaults schema registry visit = []) ∧
      Merge.faults schema registry root definition.selections.items = [] := by
  unfold faults at conforms
  rw [defined] at conforms
  cases rooted : document.rootType? schema with
  | none => simp [rooted] at conforms
  | some root =>
      rw [rooted] at conforms
      simp only at conforms
      cases head : headFaults schema registry definition with
      | mk found sound =>
          rw [head] at conforms
          cases sound with
          | true =>
              simp only [if_true, List.append_eq_nil_iff, List.flatMap_eq_nil_iff] at conforms
              obtain ⟨⟨⟨none, _⟩, visits⟩, merges⟩ := conforms
              exact ⟨root, rfl, by rw [none], visits, merges⟩
          | false =>
              simp only [Bool.false_eq_true, if_false] at conforms
              exact absurd conforms (headFaults_ne_nil head)

theorem fragment_of_headFaults {fragment : Fragment}
    (sound : headFaults schema registry (.fragment fragment) = ([], true)) :
    schema.isComposite fragment.condition = true ∧ registry.isCyclic fragment.name = false := by
  simp only [headFaults, fragmentFaults] at sound
  split at sound
  · cases sound
  · rename_i kind found
    split at sound
    · cases sound
    · rename_i composite
      split at sound
      · cases sound
      · rename_i acyclic
        exact ⟨Schema.isComposite_iff.2 ⟨kind, found, by simpa using composite⟩, by simpa using acyclic⟩

theorem isComposite_rootType {definitions : List SchemaDefinition}
    (built : Schema.ofDefinitions definitions = .ok schema) (defines : document.Defines definition)
    (conforms : faults schema registry document = []) {root : String}
    (rooted : document.rootType? schema = some root) : schema.isComposite root = true := by
  obtain ⟨_, _, head, _⟩ := sound_of_faults defines.definition?_eq conforms
  rw [defines.rootType?_eq] at rooted
  cases definition with
  | shorthand written => exact Schema.isComposite_root built rooted
  | operation declared => exact Schema.isComposite_root built rooted
  | fragment declared =>
      cases rooted
      exact (fragment_of_headFaults head).1

/-- A document that conforms to a schema built from definitions is typed on its root type, if
texts are not composite. -/
theorem typedOn_of_faults {definitions : List SchemaDefinition}
    (built : Schema.ofDefinitions definitions = .ok schema)
    (text : schema.isComposite "String" = false) (defines : document.Defines definition)
    (conforms : faults schema registry document = []) :
    ∃ root, document.TypedOn schema (registered registry) definition root := by
  obtain ⟨root, rooted, _, visited, _⟩ := sound_of_faults defines.definition?_eq conforms
  have composite := isComposite_rootType built defines conforms rooted
  refine ⟨root, defines, rooted, composite, fun item member => ?_⟩
  exact typed_of_visitFaults text [] (Schema.type?_isSome_of_isComposite composite) item
    fun visit inside => visited visit (mem_visits.2 ⟨item, member, inside⟩)

end Conformance

end GraphqlStore
