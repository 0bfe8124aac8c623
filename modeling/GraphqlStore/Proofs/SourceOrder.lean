import GraphqlStore.Proofs.AcceptedTyping
import GraphqlStore.Proofs.CompiledRun
import Mathlib.Data.List.Sort

/-!
The order of the sources makes no difference to a run. What depends on it in
between does not reach the outcome: fragments have different names, so the
same are registered; names of lists are refused for being met twice, whoever
comes first; and files are sorted.
-/

set_option autoImplicit false

namespace GraphqlStore

/-! ## Maps -/

namespace NameMap

variable {α : Type}

theorem ext_find? {first second : NameMap α} (same : ∀ name, first.find? name = second.find? name) :
    first = second := by
  obtain ⟨entries, increasing⟩ := first
  obtain ⟨others, othersIncreasing⟩ := second
  have irreflexive : Std.Irrefl fun one two : String × α => one.1 < two.1 :=
    ⟨fun one => String.lt_irrefl one.1⟩
  have antisymmetric : Std.Antisymm fun one two : String × α => one.1 < two.1 :=
    ⟨fun _ _ below above => absurd above (String.lt_asymm below)⟩
  obtain rfl : entries = others := increasing.eq_of_mem_iff othersIncreasing fun entry =>
    (mem_iff_lookup increasing).trans
      ((Eq.congr_left (same entry.1)).trans (mem_iff_lookup othersIncreasing).symm)
  rfl

end NameMap

/-! ## Collected documents -/

theorem Collected.perm {documents others : List Document} (collected : Collected documents)
    (perm : documents.Perm others) : Collected others :=
  ⟨fun document member => collected.defines document (perm.mem_iff.2 member),
    (perm.map Document.name).nodup_iff.1 collected.distinct⟩

private theorem Collected.ofDocuments_perm {documents others : List Document}
    (collected : Collected documents) (perm : documents.Perm others) :
    FragmentRegistry.ofDocuments documents = FragmentRegistry.ofDocuments others := by
  refine NameMap.ext_find? fun name => Option.ext fun fragment => ?_
  rw [collected.find?_eq_some_iff, (collected.perm perm).find?_eq_some_iff]
  simp only [perm.mem_iff]

/-! ## Names of lists -/

namespace DirectiveCheck

theorem checkNames_eq_nil_iff {document : String} {used : NameMap String}
    {names : List (String × Position)} :
    (checkNames document used names).1 = [] ↔
      (names.map Prod.fst).Nodup ∧ ∀ name ∈ names.map Prod.fst, used.find? name = none := by
  induction names generalizing used with
  | nil => simp [checkNames]
  | cons first rest ih =>
      obtain ⟨name, position⟩ := first
      rw [checkNames, List.map_cons, List.nodup_cons, List.forall_mem_cons]
      cases known : used.find? name with
      | some document => simp
      | none =>
          simp only [ih]
          constructor
          · rintro ⟨distinct, fresh⟩
            have unlisted : name ∉ rest.map Prod.fst := fun listed => by
              have absent := fresh name listed
              rw [NameMap.find?_insert_self] at absent
              cases absent
            refine ⟨⟨unlisted, distinct⟩, trivial, fun other listed => ?_⟩
            have different : name ≠ other := fun same => unlisted (same ▸ listed)
            rw [← fresh other listed, NameMap.find?_insert_of_ne _ _ different]
          · rintro ⟨⟨unlisted, distinct⟩, _, fresh⟩
            refine ⟨distinct, fun other listed => ?_⟩
            have different : name ≠ other := fun same => unlisted (same ▸ listed)
            rw [NameMap.find?_insert_of_ne _ _ different]
            exact fresh other listed

theorem find?_checkNames_eq_none_iff {document other : String} {used : NameMap String}
    {names : List (String × Position)} :
    (checkNames document used names).2.find? other = none ↔
      used.find? other = none ∧ other ∉ names.map Prod.fst := by
  induction names generalizing used with
  | nil => simp [checkNames]
  | cons first rest ih =>
      obtain ⟨name, position⟩ := first
      rw [checkNames, List.map_cons, List.mem_cons, not_or]
      cases known : used.find? name with
      | some document =>
          simp only [ih]
          have different (unused : used.find? other = none) : other ≠ name := by
            rintro rfl
            rw [known] at unused
            cases unused
          exact ⟨fun ⟨unused, unlisted⟩ => ⟨unused, different unused, unlisted⟩,
            fun ⟨unused, _, unlisted⟩ => ⟨unused, unlisted⟩⟩
      | none =>
          simp only [ih]
          by_cases same : name = other
          · subst same
            simp [NameMap.find?_insert_self]
          · simp [NameMap.find?_insert_of_ne _ _ same, Ne.symm same]

def namesOf (schema : Schema) (documents : List Document) : List String :=
  documents.flatMap fun document => (listNames schema document).map Prod.fst

/-- Nothing is wrong with directives exactly if there is not in any document, and no name of a list
is met twice. -/
theorem reports_eq_nil_iff {schema : Schema} {used : NameMap String} {documents : List Document} :
    reports schema used documents = [] ↔ (∀ document ∈ documents, faults schema document = []) ∧
      (namesOf schema documents).Nodup ∧ ∀ name ∈ namesOf schema documents, used.find? name = none := by
  induction documents generalizing used with
  | nil => simp [reports, namesOf]
  | cons document rest ih =>
      simp only [reports, List.append_eq_nil_iff, Pipeline.reports_eq_nil_iff, checkNames_eq_nil_iff, ih,
        find?_checkNames_eq_none_iff, List.forall_mem_cons, namesOf, List.flatMap_cons,
        List.nodup_append, List.forall_mem_append]
      constructor
      · rintro ⟨⟨silent, distinct, fresh⟩, others, distinctRest, freshRest⟩
        refine ⟨⟨silent, others⟩, ⟨distinct, distinctRest, ?_⟩, fresh, fun name member => (freshRest name member).1⟩
        rintro name here other later rfl
        exact (freshRest name later).2 here
      · rintro ⟨⟨silent, others⟩, ⟨distinct, distinctRest, apart⟩, fresh, freshRest⟩
        exact ⟨⟨silent, distinct, fresh⟩, others, distinctRest, fun name later =>
          ⟨freshRest name later, fun here => apart name here name later rfl⟩⟩

end DirectiveCheck

/-! ## Passes -/

namespace Pipeline

variable {config : Config} {documents others : List Document}

private theorem paginated_perm (perm : documents.Perm others) :
    (paginated config documents).Perm (paginated config others) :=
  perm.map _

private theorem inlined_perm (collected : Collected documents) (perm : documents.Perm others) :
    (inlined config documents).Perm (inlined config others) := by
  unfold inlined
  rw [(paginated_collected collected).ofDocuments_perm (paginated_perm perm)]
  exact (paginated_perm perm).map _

private theorem completed_perm (collected : Collected documents) (perm : documents.Perm others) :
    (completed config documents).Perm (completed config others) :=
  (inlined_perm collected perm).map _

private theorem accepts_of_perm (collected : Collected documents) (perm : documents.Perm others)
    (accepts : Accepts config documents) : Accepts config others where
  conforms document member := by
    rw [← collected.ofDocuments_perm perm]
    exact accepts.conforms document (perm.mem_iff.2 member)
  directives := by
    have names : (DirectiveCheck.namesOf config.schema documents).Perm
        (DirectiveCheck.namesOf config.schema others) := perm.flatMap_right _
    obtain ⟨silent, distinct, _⟩ := DirectiveCheck.reports_eq_nil_iff.1 accepts.directives
    exact DirectiveCheck.reports_eq_nil_iff.2 ⟨fun document member =>
      silent document (perm.mem_iff.2 member), names.nodup_iff.1 distinct, fun _ _ => rfl⟩
  scalars document member := accepts.scalars document (perm.mem_iff.2 member)
  pages document member := accepts.pages document (perm.mem_iff.2 member)
  keys document member := accepts.keys document ((inlined_perm collected perm).mem_iff.2 member)

end Pipeline

/-! ## Files -/

namespace OutputFile

theorem le_iff {first second : OutputFile} :
    first.le second = true ↔
      first.path < second.path ∨ first.path = second.path ∧ first.content ≤ second.content := by
  simp [le]

theorem le_total (first second : OutputFile) : first.le second || second.le first := by
  rw [Bool.or_eq_true, le_iff, le_iff]
  by_cases same : first.path = second.path
  · rcases String.le_total first.content second.content with below | above
    · exact .inl (.inr ⟨same, below⟩)
    · exact .inr (.inr ⟨same.symm, above⟩)
  · by_cases below : first.path < second.path
    · exact .inl (.inl below)
    · exact .inr (.inl (NameSet.lt_of_not_lt_of_ne below same))

theorem le_trans (first second third : OutputFile) (one : first.le second = true)
    (two : second.le third = true) : first.le third = true := by
  rw [le_iff] at *
  rcases one with one | ⟨same, one⟩ <;> rcases two with two | ⟨also, two⟩
  · exact .inl (String.lt_trans one two)
  · exact .inl (also ▸ one)
  · exact .inl (same ▸ two)
  · exact .inr ⟨same.trans also, String.le_trans one two⟩

theorem le_antisymm {first second : OutputFile} (one : first.le second = true)
    (two : second.le first = true) : first = second := by
  obtain ⟨path, content⟩ := first
  obtain ⟨otherPath, otherContent⟩ := second
  simp only [le_iff] at one two
  rcases one with one | ⟨rfl, one⟩
  · rcases two with two | ⟨rfl, _⟩
    · exact absurd two (String.lt_asymm one)
    · exact absurd one (String.lt_irrefl _)
  · rcases two with two | ⟨_, two⟩
    · exact absurd two (String.lt_irrefl _)
    · rw [String.le_antisymm one two]

theorem mergeSort_perm {files others : List OutputFile} (perm : files.Perm others) :
    files.mergeSort le = others.mergeSort le := by
  have sorted (listed : List OutputFile) :
      (listed.mergeSort le).Pairwise fun first second => first.le second = true :=
    List.pairwise_mergeSort le_trans le_total listed
  refine List.Perm.eq_of_pairwise (fun _ _ _ _ => le_antisymm) (sorted files) (sorted others) ?_
  exact (List.mergeSort_perm files le).trans (perm.trans (List.mergeSort_perm others le).symm)

end OutputFile

/-! ## Runs -/

namespace Compilation

private theorem emit_perm {config : Config} {documents others : List Document}
    (perm : documents.Perm others)
    {output : CompileOutput} (emits : emit config documents = .ok output) :
    ∃ other, emit config others = .ok other ∧ output.files = other.files := by
  obtain ⟨generates, writes, _⟩ := emit_eq_ok_iff.1 emits
  obtain ⟨each, listed⟩ := Generation.generateAll_eq_ok_iff.1 generates
  obtain ⟨silent, sorted⟩ := Store.emit_eq_ok_iff.1 writes
  have artifacts : output.artifacts.Perm (others.filterMap (Generation.artifact? config)) :=
    listed ▸ perm.filterMap _
  have stores (name : String) : name ∈ storeNames documents ↔ name ∈ storeNames others :=
    ((perm.filter _).map _).mem_iff
  have files (artifact : Artifact) := Store.filesOf_congr config.stores (stores artifact.name)
  refine ⟨⟨others, others.filterMap (Generation.artifact? config), output.files⟩,
    emit_eq_ok_iff.2 ⟨?_, ?_, rfl⟩, rfl⟩
  · exact Generation.generateAll_eq_ok_iff.2
      ⟨fun document member => each document (perm.mem_iff.2 member), rfl⟩
  · refine Store.emit_eq_ok_iff.2 ⟨fun artifact member => ?_, ?_⟩
    · rw [← files]
      exact silent artifact (artifacts.mem_iff.2 member)
    · rw [← sorted]
      simp only [files]
      exact (OutputFile.mergeSort_perm (artifacts.flatMap_right _)).symm

theorem run_standard_of_perm {config : Config} {sources others : List DocumentSource}
    (perm : sources.Perm others) {output : CompileOutput}
    (ran : run config (Pass.standard []) false ⟨sources, []⟩ = .ok (.ok output)) :
    ∃ other, run config (Pass.standard []) false ⟨others, []⟩ = .ok (.ok other) ∧
      output.files = other.files := by
  obtain ⟨documents, clean, accepts, emits⟩ := run_standard_eq_ok_iff.1 ran
  obtain ⟨each, gathered, _⟩ := Collection.collect_clean_iff.1 clean
  have collected : Collected documents := by
    obtain ⟨collection, collects, _, rfl⟩ := clean
    exact collected_documents collects
  have permuted : documents.Perm (others.filterMap Collection.document?) :=
    gathered ▸ perm.filterMap _
  obtain ⟨other, emitsOther, same⟩ := emit_perm (Pipeline.completed_perm collected permuted) emits
  refine ⟨other, run_standard_eq_ok_iff.2 ⟨_, ?_, Pipeline.accepts_of_perm collected permuted accepts,
    emitsOther⟩, same⟩
  exact Collection.collect_clean_iff.2 ⟨fun source member => each source (perm.mem_iff.2 member), rfl,
    (collected.perm permuted).distinct⟩

/-- A run succeeds for all orders of its sources or for none, and gives the same files. -/
theorem run_standard_perm {config : Config} {sources others : List DocumentSource}
    (perm : sources.Perm others) :
    ((∃ output, run config (Pass.standard []) false ⟨sources, []⟩ = .ok (.ok output)) ↔
        ∃ output, run config (Pass.standard []) false ⟨others, []⟩ = .ok (.ok output)) ∧
      ∀ output other, run config (Pass.standard []) false ⟨sources, []⟩ = .ok (.ok output) →
        run config (Pass.standard []) false ⟨others, []⟩ = .ok (.ok other) →
        output.files = other.files := by
  refine ⟨⟨fun ⟨output, ran⟩ => ?_, fun ⟨output, ran⟩ => ?_⟩, fun output other ran ranOther => ?_⟩
  · obtain ⟨other, ranOther, _⟩ := run_standard_of_perm perm ran
    exact ⟨other, ranOther⟩
  · obtain ⟨other, ranOther, _⟩ := run_standard_of_perm perm.symm ran
    exact ⟨other, ranOther⟩
  · obtain ⟨found, ranFound, same⟩ := run_standard_of_perm perm ran
    obtain rfl : found = other := by
      rw [ranOther] at ranFound
      cases ranFound
      rfl
    exact same

/-- A query and the fragment that it spreads, in both orders. -/
theorem run_standard_perm_catalog :
    ∃ schema output other, Schema.ofDefinitions Pipeline.catalog = .ok schema ∧
      run (.ofSchema schema) (Pass.standard []) false
        ⟨Pipeline.catalogTexts.map textSource, []⟩ = .ok (.ok output) ∧
      run (.ofSchema schema) (Pass.standard []) false
        ⟨(Pipeline.catalogTexts.map textSource).reverse, []⟩ = .ok (.ok other) ∧
      output.files = other.files := by
  have succeeds : (runTexts? Pipeline.catalog Pipeline.catalogTexts).isSome = true := by decide +kernel
  obtain ⟨⟨schema, output⟩, ran⟩ := Option.isSome_iff_exists.1 succeeds
  obtain ⟨built, ran⟩ := runTexts?_eq_some ran
  obtain ⟨succeeds, same⟩ :=
    run_standard_perm (List.reverse_perm (Pipeline.catalogTexts.map textSource)).symm
  obtain ⟨other, ranOther⟩ := succeeds.1 ⟨output, ran⟩
  exact ⟨schema, output, other, built, ran, ranOther, same output other ran ranOther⟩

end Compilation

end GraphqlStore
