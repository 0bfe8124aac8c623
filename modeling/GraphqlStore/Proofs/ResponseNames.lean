import GraphqlStore.Proofs.Conformance
import GraphqlStore.Proofs.ScopeDepth

/-!
The law of response names in documents that conform. Fields agree if the check
compares both with one leader; of all other fields that meet, the check says
nothing, so the law holds exactly if those agree too.
-/

set_option autoImplicit false

namespace GraphqlStore

namespace Conformance

theorem schemaConformance_errors_eq_nil_iff {context : PassContext} {documents : List Document} :
    (Pass.schemaConformance.run context documents).errors = [] ↔
      ∀ document ∈ documents, faults context.config.schema context.registry document = [] := by
  simp [Pass.schemaConformance, Pass.checking, Document.reports]

theorem fieldAcyclic_of_faults {schema : Schema} {documents : List Document}
    (conforms : ∀ document ∈ documents,
      faults schema (FragmentRegistry.ofDocuments documents) document = []) :
    (FragmentRegistry.ofDocuments documents).FieldAcyclic := by
  refine FragmentRegistry.fieldAcyclic_of_isCyclic fun name fragment found => ?_
  rcases FragmentRegistry.find?_foldl_register found with absent | ⟨document, member, defined, rfl⟩
  · cases absent
  · obtain ⟨_, _, head, _⟩ := sound_of_faults defined (conforms document member)
    exact (fragment_of_headFaults head).2

/-- In documents that conform, fields that are compared with one leader agree, provided the leader
passes no argument twice. The law of response names holds exactly if the other fields that meet
agree as well. -/
theorem responseLaw_iff_of_schemaConformance {config : Config} {documents : List Document}
    (silent : (Pass.schemaConformance.run ⟨config, FragmentRegistry.ofDocuments documents⟩
      documents).errors = [])
    {document : Document} (member : document ∈ documents) {definition : Definition}
    (defined : document.definition? = some definition) :
    ∃ root, document.rootType? config.schema = some root ∧
      let registry := FragmentRegistry.ofDocuments documents
      let items := definition.selections.items
      (∀ firstAbove first secondAbove second,
        Occurs config.schema registry.find? root items firstAbove first →
        Occurs config.schema registry.find? root items secondAbove second →
        Merge.Covers config.schema registry root items firstAbove first secondAbove second →
        first.head.Agrees second.head) ∧
      (ResponseLaw config.schema registry.find? root items ↔
        ∀ firstAbove first secondAbove second,
          Occurs config.schema registry.find? root items firstAbove first →
          Occurs config.schema registry.find? root items secondAbove second →
          List.Forall₂ (Level.Meets config.schema) firstAbove secondAbove →
          first.Meets config.schema second →
          ¬ Merge.Covers config.schema registry root items firstAbove first secondAbove second →
          first.head.Agrees second.head) := by
  have conforms := schemaConformance_errors_eq_nil_iff.1 silent
  obtain ⟨root, rooted, _, _, merges⟩ := sound_of_faults defined (conforms document member)
  have through := (Merge.faults_eq_nil_iff (fieldAcyclic_of_faults conforms)).1 merges
  refine ⟨root, rooted, fun firstAbove first secondAbove second firstOccurs secondOccurs =>
    Merge.agrees_of_covers through firstOccurs secondOccurs, ?_⟩
  constructor
  · intro law firstAbove first secondAbove second firstOccurs secondOccurs above meets _
    exact law firstAbove first secondAbove second firstOccurs secondOccurs above meets
  · intro others firstAbove first secondAbove second firstOccurs secondOccurs above meets
    by_cases covers : Merge.Covers config.schema (FragmentRegistry.ofDocuments documents) root
      definition.selections.items firstAbove first secondAbove second
    · exact Merge.agrees_of_covers through firstOccurs secondOccurs covers
    · exact others firstAbove first secondAbove second firstOccurs secondOccurs above meets covers

def kinds : List SchemaDefinition :=
  let fields := ["a", "b", "c"].map fun name => FieldDef.mk name (.named "Int") []
  [.type "I" (.interface fields), .type "A" (.object fields ["I"]), .type "B" (.object fields ["I"]),
    .type "Query" (.object [⟨"i", .named "I", []⟩] [])]

def underX (name : String) : Field := ⟨⟨1, 1⟩, some "x", name, [], [], ⟨1, 1⟩⟩

/-- A field under the name `x`, for values of one type. -/
def selectedOn (type name : String) : Selection :=
  .inline ⟨⟨1, 1⟩, some type, [], ⟨1, 1⟩⟩ [.field (underX name) []]

/-- Fields under the name `x` of the value behind the interface, each for values of a type. -/
def behindInterface (entries : List (String × String)) : List Selection :=
  [.field (.plain "i" ⟨1, 1⟩) (entries.map fun entry => selectedOn entry.1 entry.2)]

def interfaceQuery (entries : List (String × String)) : Document :=
  .ofSource "Q" (.operation .query) ⟨none, "", true, true⟩
    [.operation ⟨.query, ⟨1, 1⟩, some "Q", [], [], ⟨⟨1, 1⟩, behindInterface entries⟩⟩]

/-- A schema to which the query conforms, and in which the value has the type of the interface. -/
def accepts (entries : List (String × String)) (schema : Schema) : Bool :=
  let documents := [interfaceQuery entries]
  (Pass.schemaConformance.run ⟨.ofSchema schema, .ofDocuments documents⟩ documents).errors.isEmpty &&
    schema.field? "Query" "i" == some (.declared ⟨"i", .named "I", []⟩)

theorem occurs_behindInterface_iff {schema : Schema} {fragments : String → Option Fragment}
    {found : FieldRef} (resolved : schema.field? "Query" "i" = some found)
    {entries : List (String × String)} {above : List Level} {last : Level} :
    Occurs schema fragments "Query" (behindInterface entries) above last ↔
      (above = [] ∧ last = ⟨"Query", .plain "i" ⟨1, 1⟩⟩) ∨
      (above = [⟨"Query", .plain "i" ⟨1, 1⟩⟩] ∧
        ∃ entry ∈ entries, last = ⟨entry.1, underX entry.2⟩) := by
  have inner {type name parent : String} {above : List Level} :
      (selectedOn type name).Occurs schema fragments parent above last ↔
        above = [] ∧ last = ⟨type, underX name⟩ := by
    simp [selectedOn, occurs_inline_iff, occurs_field_iff, InlineFragment.typeWithin, Occurs]
  rw [behindInterface, Occurs]
  simp only [List.mem_singleton, exists_eq_left, occurs_field_iff, Field.name_plain, resolved]
  refine or_congr_right ⟨?_, ?_⟩
  · rintro ⟨_, rest, _, rfl, item, member, occurs⟩
    obtain ⟨entry, inEntries, rfl⟩ := List.mem_map.1 member
    obtain ⟨rfl, rfl⟩ := inner.1 occurs
    exact ⟨rfl, entry, inEntries, rfl⟩
  · rintro ⟨rfl, entry, inEntries, rfl⟩
    exact ⟨found, [], rfl, rfl, _, List.mem_map.2 ⟨entry, inEntries, rfl⟩, inner.2 ⟨rfl, rfl⟩⟩

theorem leaderAt?_behindInterface {schema : Schema} {registry : FragmentRegistry}
    {declared : FieldDef} (resolved : schema.field? "Query" "i" = some (.declared declared))
    {leader type : String} (coincide : Merge.canCoincide schema leader type = true)
    (selected name : String) (entries : List (String × String)) :
    Merge.leaderAt? schema registry
        (Merge.parts "Query" none (behindInterface ((leader, selected) :: entries)))
        [⟨"Query", .plain "i" ⟨1, 1⟩⟩] ⟨type, underX name⟩ =
      some ⟨leader, none, underX selected, []⟩ := by
  have same : (underX selected).responseName = (underX name).responseName := rfl
  simp [Merge.leaderAt?, Merge.leader?, Merge.named, Merge.shared, Merge.children, Merge.parts,
    Merge.fields, Merge.canCoincide_self, behindInterface, selectedOn, InlineFragment.typeWithin,
    resolved, coincide, same]

theorem responseLaw_iff_of_schemaConformance_kinds :
    ∃ schema, Schema.ofDefinitions kinds = .ok schema ∧
      let entries := [("I", "a"), ("A", "a"), ("B", "a")]
      let documents := [interfaceQuery entries]
      (Pass.schemaConformance.run ⟨.ofSchema schema, .ofDocuments documents⟩ documents).errors = [] ∧
      ResponseLaw schema (FragmentRegistry.ofDocuments documents).find? "Query"
        (behindInterface entries) := by
  let entries := [("I", "a"), ("A", "a"), ("B", "a")]
  have ran : (Schema.ofDefinitions kinds).toOption.any (fun schema => accepts entries schema &&
      (schema.root? .query == some "Query") &&
      entries.all fun entry => Merge.canCoincide schema "I" entry.1) = true := by
    decide +kernel
  obtain ⟨schema, built, sound⟩ := (Option.any_eq_true _ _).1 ran
  simp only [accepts, Bool.and_eq_true, List.isEmpty_iff, List.all_eq_true, beq_iff_eq] at sound
  obtain ⟨⟨⟨silent, resolved⟩, query⟩, coincide⟩ := sound
  refine ⟨schema, toOption_eq_some_iff.1 built, silent, ?_⟩
  obtain ⟨root, rooted, _, law⟩ := responseLaw_iff_of_schemaConformance silent
    (List.mem_singleton.2 rfl) rfl
  obtain rfl : root = "Query" := Option.some.inj (rooted.symm.trans query)
  refine law.2 fun firstAbove first secondAbove second firstOccurs secondOccurs above _ uncovered => ?_
  rw [Definition.selections] at firstOccurs secondOccurs
  rcases (occurs_behindInterface_iff resolved).1 firstOccurs with ⟨rfl, rfl⟩ | ⟨rfl, one, inEntries, rfl⟩
  · rcases (occurs_behindInterface_iff resolved).1 secondOccurs with ⟨rfl, rfl⟩ | ⟨rfl, _⟩
    · exact .refl _
    · cases above
  · rcases (occurs_behindInterface_iff resolved).1 secondOccurs with ⟨rfl, _⟩ | ⟨rfl, two, inOthers, rfl⟩
    · cases above
    · exact absurd ⟨_, leaderAt?_behindInterface resolved (coincide one inEntries) _ _ _,
        leaderAt?_behindInterface resolved (coincide two inOthers) _ _ _, .nil⟩ uncovered

/-- The leader is on one type, and the two fields that differ are on the other. -/
theorem conflict_missed_beside_leader :
    ∃ schema, Schema.ofDefinitions kinds = .ok schema ∧
      let entries := [("A", "a"), ("B", "b"), ("B", "c")]
      let documents := [interfaceQuery entries]
      (Pass.schemaConformance.run ⟨.ofSchema schema, .ofDocuments documents⟩ documents).errors = [] ∧
      ¬ ResponseLaw schema (FragmentRegistry.ofDocuments documents).find? "Query"
        (behindInterface entries) := by
  have ran : (Schema.ofDefinitions kinds).toOption.any
      (accepts [("A", "a"), ("B", "b"), ("B", "c")]) = true := by
    decide +kernel
  obtain ⟨schema, built, sound⟩ := (Option.any_eq_true _ _).1 ran
  simp only [accepts, Bool.and_eq_true, List.isEmpty_iff, beq_iff_eq] at sound
  obtain ⟨silent, resolved⟩ := sound
  refine ⟨schema, toOption_eq_some_iff.1 built, silent, fun law => ?_⟩
  have agrees := law _ _ _ _
    ((occurs_behindInterface_iff resolved).2 (.inr ⟨rfl, ("B", "b"), by simp, rfl⟩))
    ((occurs_behindInterface_iff resolved).2 (.inr ⟨rfl, ("B", "c"), by simp, rfl⟩))
    (.cons ⟨rfl, Merge.canCoincide_self _ _⟩ .nil) ⟨rfl, Merge.canCoincide_self _ _⟩
  exact absurd agrees.name (by decide)

end Conformance

end GraphqlStore
