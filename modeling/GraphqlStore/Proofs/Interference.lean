import GraphqlStore.Proofs.AcceptedTyping
import GraphqlStore.Proofs.CompiledRun
import GraphqlStore.Proofs.FragmentAgreement
import GraphqlStore.Proofs.ResponseNames

/-!
Documents do not interfere. Two runs in which a document reaches the same
fragments make the same of it, pass by pass: the registries of the runs keep
agreeing on what it reaches, since pagination spreads nothing new. Reports
about the document are the same too, apart from names of lists, which have to
differ in all documents of a run.
-/

set_option autoImplicit false

namespace GraphqlStore

/-! ## Reports about one document -/

namespace Diagnostic

def isAbout (name : String) (diagnostic : Diagnostic) : Bool := diagnostic.document == some name

/-- Whether a report says that the name of a list is used already. -/
def isListClash (diagnostic : Diagnostic) : Bool :=
  diagnostic.hint == (DirectiveCheck.Issue.usedListName "" "").hint

def reportsOn (name : String) (reports : List Diagnostic) : List Diagnostic :=
  reports.filter (isAbout name)

def AllAbout (name : String) (reports : List Diagnostic) : Prop :=
  ∀ diagnostic ∈ reports, diagnostic.document = some name

theorem AllAbout.reportsOn_eq {name : String} {reports : List Diagnostic}
    (about : AllAbout name reports) : reportsOn name reports = reports :=
  List.filter_eq_self.2 fun diagnostic member => by simp [isAbout, about diagnostic member]

theorem AllAbout.reportsOn_of_ne {name other : String} {reports : List Diagnostic}
    (about : AllAbout other reports) (different : other ≠ name) : reportsOn name reports = [] :=
  List.filter_eq_nil_iff.2 fun diagnostic member => by simp [isAbout, about diagnostic member, different]

theorem reportsOn_append (name : String) (first second : List Diagnostic) :
    reportsOn name (first ++ second) = reportsOn name first ++ reportsOn name second :=
  List.filter_append first second

end Diagnostic

open Diagnostic

theorem Document.allAbout_reports (document : Document) (faults : List Fault) :
    AllAbout document.name (document.reports faults) := by
  intro diagnostic member
  obtain ⟨fault, _, rfl⟩ := List.mem_map.1 member
  rfl

section OneDocument

variable {documents : List Document} {document : Document}

theorem reportsOn_flatMap_eq_nil {report : Document → List Diagnostic}
    (about : ∀ document, AllAbout document.name (report document)) {name : String}
    (absent : name ∉ documents.map Document.name) : reportsOn name (documents.flatMap report) = [] := by
  induction documents with
  | nil => rfl
  | cons first rest ih =>
      rw [List.map_cons, List.mem_cons, not_or] at absent
      rw [List.flatMap_cons, reportsOn_append, (about first).reportsOn_of_ne (Ne.symm absent.1),
        ih absent.2, List.append_nil]

theorem reportsOn_flatMap {report : Document → List Diagnostic}
    (about : ∀ document, AllAbout document.name (report document))
    (distinct : (documents.map Document.name).Nodup) (member : document ∈ documents) :
    reportsOn document.name (documents.flatMap report) = report document := by
  induction documents with
  | nil => cases member
  | cons first rest ih =>
      rw [List.map_cons, List.nodup_cons] at distinct
      rw [List.flatMap_cons, reportsOn_append]
      rcases List.mem_cons.1 member with rfl | later
      · rw [(about _).reportsOn_eq, reportsOn_flatMap_eq_nil about distinct.1, List.append_nil]
      · have different : first.name ≠ document.name := fun same =>
          distinct.1 (same ▸ List.mem_map_of_mem later)
        rw [(about first).reportsOn_of_ne different, ih distinct.2 later, List.nil_append]

namespace DirectiveCheck

variable {schema : Schema}

private theorem hint_of_mem_checkNames {name : String} {used : NameMap String}
    {names : List (String × Position)} :
    ∀ fault ∈ (checkNames name used names).1, fault.hint = (Issue.usedListName "" "").hint := by
  fun_induction checkNames name used names with
  | case1 used => simp
  | case2 used list position rest first found others after split ih =>
      intro fault member
      rcases List.mem_cons.1 member with rfl | later
      · rfl
      · rw [split] at ih
        exact ih fault later
  | case3 used list position rest missing ih => exact ih

theorem reportsOn_reports_eq_nil {used : NameMap String} {name : String}
    (absent : name ∉ documents.map Document.name) :
    reportsOn name (reports schema used documents) = [] := by
  induction documents generalizing used with
  | nil => rfl
  | cons first rest ih =>
      rw [List.map_cons, List.mem_cons, not_or] at absent
      rw [reports, reportsOn_append, (first.allAbout_reports _).reportsOn_of_ne (Ne.symm absent.1),
        ih absent.2, List.append_nil]

theorem reportsOn_reports (used : NameMap String) (distinct : (documents.map Document.name).Nodup)
    (member : document ∈ documents) :
    (reportsOn document.name (reports schema used documents)).filter (!·.isListClash) =
      (document.reports (faults schema document)).filter (!·.isListClash) := by
  induction documents generalizing used with
  | nil => cases member
  | cons first rest ih =>
      rw [List.map_cons, List.nodup_cons] at distinct
      rw [reports, reportsOn_append]
      rcases List.mem_cons.1 member with rfl | later
      · rw [(Document.allAbout_reports _ _).reportsOn_eq, reportsOn_reports_eq_nil distinct.1,
          List.append_nil, Document.reports, List.map_append, List.filter_append]
        refine (List.append_right_eq_self.2 (List.filter_eq_nil_iff.2 fun diagnostic clash => ?_))
        obtain ⟨fault, inside, rfl⟩ := List.mem_map.1 clash
        simp [isListClash, Fault.toDiagnostic, hint_of_mem_checkNames fault inside]
      · have different : first.name ≠ document.name := fun same =>
          distinct.1 (same ▸ List.mem_map_of_mem later)
        rw [(first.allAbout_reports _).reportsOn_of_ne different, List.nil_append]
        exact ih _ distinct.2 later

end DirectiveCheck

end OneDocument

/-! ## Fragments after pagination -/

namespace PaginationCompletion

private theorem check_eq_of_defines (config : Config) {document other : Document}
    {definition : Definition}
    (defines : document.Defines definition) (otherDefines : other.Defines definition) :
    check config document = check config other := by
  have kinds : document.kind = other.kind :=
    congrArg Prod.fst (defines.named.symm.trans otherDefines.named)
  have rooted : document.rootType? config.schema = other.rootType? config.schema := by
    rw [defines.rootType?_eq, otherDefines.rootType?_eq]
    cases definition <;> rfl
  have visited : document.visits? config.schema = other.visits? config.schema := by
    rw [Document.visits?, Document.visits?, rooted, defines.selections?_eq, otherDefines.selections?_eq]
  unfold check checkFirst checkField refetchIssues
  rw [kinds, visited, defines.definition?_eq, otherDefines.definition?_eq]

private theorem completedItems_eq_of_defines (config : Config) {document other : Document}
    {definition : Definition} (defines : document.Defines definition)
    (otherDefines : other.Defines definition) (items : List Selection) :
    completedItems config document items = completedItems config other items := by
  rw [completedItems, completedItems, check_eq_of_defines config defines otherDefines]

end PaginationCompletion

namespace Pipeline

variable {config : Config} {documents others : List Document} {document : Document}

private theorem agreeFrom_paginated (config : Config) (collected : Collected documents)
    (otherCollected : Collected others) {starts : List String}
    (agree : (FragmentRegistry.ofDocuments documents).AgreeFrom (FragmentRegistry.ofDocuments others)
      starts) :
    (FragmentRegistry.ofDocuments (paginated config documents)).AgreeFrom
      (FragmentRegistry.ofDocuments (paginated config others)) starts := by
  intro name leads
  have same := agree name (leads.congr (successors_paginated config collected))
  rcases find?_paginated config collected name with
    ⟨before, after⟩ | ⟨source, _, fragment, defines, _, before, after⟩
  · rcases find?_paginated config otherCollected name with
      ⟨_, otherAfter⟩ | ⟨_, _, _, _, _, otherBefore, _⟩
    · rw [after, otherAfter]
    · rw [before, otherBefore] at same
      cases same
  · rcases find?_paginated config otherCollected name with
      ⟨otherBefore, _⟩ | ⟨twin, _, _, otherDefines, _, otherBefore, otherAfter⟩
    · rw [before, otherBefore] at same
      cases same
    · rw [before, otherBefore] at same
      cases same
      rw [after, otherAfter,
        PaginationCompletion.completedItems_eq_of_defines config defines otherDefines]

end Pipeline

/-! ## Two runs -/

theorem Collected.eq_of_name {documents : List Document} (collected : Collected documents)
    {first second : Document} (one : first ∈ documents) (two : second ∈ documents)
    (same : first.name = second.name) : first = second :=
  List.inj_on_of_nodup_map collected.distinct one two same

/-- The document is in the list, and no other one of its name is. -/
def Document.IsOnly (document : Document) (documents : List Document) : Prop :=
  document ∈ documents ∧ ∀ other ∈ documents, other.name = document.name → other = document

theorem Collected.isOnly_map {documents : List Document} (collected : Collected documents)
    {step : Document → Document} (named : ∀ document, (step document).name = document.name)
    {document : Document} (member : document ∈ documents) :
    (step document).IsOnly (documents.map step) := by
  refine ⟨List.mem_map_of_mem member, fun other inMap same => ?_⟩
  obtain ⟨source, inDocuments, rfl⟩ := List.mem_map.1 inMap
  rw [named, named] at same
  rw [collected.eq_of_name inDocuments member same]

theorem Collected.isOnly {documents : List Document} (collected : Collected documents)
    {document : Document} (member : document ∈ documents) : document.IsOnly documents :=
  ⟨member, fun _ inDocuments same => collected.eq_of_name inDocuments member same⟩

theorem Collected.find?_name_eq_some_iff {documents : List Document} (collected : Collected documents)
    {document : Document} (member : document ∈ documents) {fragment : Fragment} :
    (FragmentRegistry.ofDocuments documents).find? document.name = some fragment ↔
      document.Defines (.fragment fragment) := by
  rw [collected.find?_eq_some_iff]
  constructor
  · rintro ⟨source, inDocuments, defines, same⟩
    rwa [← collected.eq_of_name inDocuments member same]
  · exact fun defines => ⟨document, member, defines, rfl⟩

namespace Pipeline

variable {config : Config} {documents others : List Document} {document : Document}

/-- What a pass makes of the document of a name, and reports about it, is the same in two runs,
apart from names of lists that are used already. -/
structure SameFor (name : String) (pass : Pass) (first second : PassResult) : Prop where
  revised : ∃ document : Document, document.name = name ∧ document.IsOnly first.documents ∧
    document.IsOnly second.documents
  reports : pass.name ≠ Pass.directiveValidation.name →
    reportsOn name first.errors = reportsOn name second.errors
  otherReports : (reportsOn name first.errors).filter (!·.isListClash) =
    (reportsOn name second.errors).filter (!·.isListClash)

/-- What a pass makes of documents and the fragments that they define. -/
def outcome (config : Config) (pass : Pass) (documents : List Document) : PassResult :=
  pass.run ⟨config, FragmentRegistry.ofDocuments documents⟩ documents

/-- All passes make the same of the document of a name in two runs, one after the other. -/
def SameThrough (config : Config) (name : String) : List Pass → List Document → List Document → Prop
  | [], _, _ => True
  | pass :: rest, documents, others =>
      SameFor name pass (outcome config pass documents) (outcome config pass others) ∧
        (outcome config pass documents).cancels = false ∧
        (outcome config pass others).cancels = false ∧
        SameThrough config name rest (outcome config pass documents).documents
          (outcome config pass others).documents

theorem run?_cons {pass : Pass} {rest : List Pass} {errors : List Diagnostic}
    (going : (outcome config pass documents).cancels = false) :
    run? config ⟨documents, errors, false⟩ (pass :: rest) =
      run? config ⟨(outcome config pass documents).documents,
        errors ++ (outcome config pass documents).errors, false⟩ rest := by
  have next : advance config ⟨documents, errors, false⟩ pass =
      ⟨(outcome config pass documents).documents, errors ++ (outcome config pass documents).errors,
        (outcome config pass documents).cancels⟩ := by
    simp [advance, outcome]
  rw [run?, if_neg Bool.false_ne_true, next, going]

private theorem SameThrough.sameFor {name : String} {before after : List Pass} {pass : Pass}
    (same : SameThrough config name (before ++ pass :: after) documents others)
    (errors otherErrors : List Diagnostic) :
    ∃ progress other, run? config ⟨documents, errors, false⟩ before = some progress ∧
      run? config ⟨others, otherErrors, false⟩ before = some other ∧
      SameFor name pass (outcome config pass progress.documents) (outcome config pass other.documents) := by
  induction before generalizing documents others errors otherErrors with
  | nil => exact ⟨_, _, rfl, rfl, same.1⟩
  | cons first rest ih =>
      obtain ⟨_, going, otherGoing, later⟩ := same
      rw [run?_cons going, run?_cons otherGoing]
      exact ih later _ _

theorem outcome_revising (config : Config) (name : String)
    (step : PassContext → Document → Document × List Diagnostic) (documents : List Document) :
    outcome config (.revising name step) documents =
      let context := ⟨config, FragmentRegistry.ofDocuments documents⟩
      ⟨documents.map fun document => (step context document).1,
        documents.flatMap fun document => (step context document).2, false⟩ := by
  simp only [outcome, Pass.revising, List.map_map, List.flatMap_map]
  rfl

/-- A document that two lists of collected documents have in common. -/
structure Shared (document : Document) (documents others : List Document) : Prop where
  collected : Collected documents
  otherCollected : Collected others
  member : document ∈ documents
  inOther : document ∈ others

namespace Shared

variable (shared : Shared document documents others)

include shared

theorem unchanged : ∃ same : Document, same.name = document.name ∧ same.IsOnly documents ∧
    same.IsOnly others :=
  ⟨document, rfl, shared.collected.isOnly shared.member, shared.otherCollected.isOnly shared.inOther⟩

private theorem find?_name_eq : (FragmentRegistry.ofDocuments documents).find? document.name =
    (FragmentRegistry.ofDocuments others).find? document.name :=
  Option.ext fun _ => (shared.collected.find?_name_eq_some_iff shared.member).trans
    (shared.otherCollected.find?_name_eq_some_iff shared.inOther).symm

theorem reportsOn_flatMap_eq {report other : Document → List Diagnostic}
    (about : ∀ document, AllAbout document.name (report document))
    (otherAbout : ∀ document, AllAbout document.name (other document))
    (same : report document = other document) :
    reportsOn document.name (documents.flatMap report) =
      reportsOn document.name (others.flatMap other) := by
  rw [reportsOn_flatMap about shared.collected.distinct shared.member,
    reportsOn_flatMap otherAbout shared.otherCollected.distinct shared.inOther, same]

theorem checking {name : String} {check : PassContext → Document → List Diagnostic}
    (about : ∀ context document, AllAbout document.name (check context document))
    (same : check ⟨config, FragmentRegistry.ofDocuments documents⟩ document =
      check ⟨config, FragmentRegistry.ofDocuments others⟩ document) :
    SameFor document.name (.checking name check) (outcome config (.checking name check) documents)
      (outcome config (.checking name check) others) := by
  have reports := shared.reportsOn_flatMap_eq (about _) (about _) same
  exact ⟨shared.unchanged, fun _ => reports, congrArg (List.filter (!·.isListClash)) reports⟩

theorem revising {name : String} {step : PassContext → Document → Document × List Diagnostic}
    (named : ∀ context document, (step context document).1.name = document.name)
    (about : ∀ context document, AllAbout document.name (step context document).2)
    (same : step ⟨config, FragmentRegistry.ofDocuments documents⟩ document =
      step ⟨config, FragmentRegistry.ofDocuments others⟩ document) :
    SameFor document.name (.revising name step) (outcome config (.revising name step) documents)
      (outcome config (.revising name step) others) := by
  have reports := shared.reportsOn_flatMap_eq (about _) (about _) (congrArg Prod.snd same)
  rw [outcome_revising, outcome_revising]
  refine ⟨⟨_, named _ document, shared.collected.isOnly_map (named _) shared.member, ?_⟩,
    fun _ => reports, congrArg (List.filter (!·.isListClash)) reports⟩
  rw [same]
  exact shared.otherCollected.isOnly_map (named _) shared.inOther

theorem directiveValidation :
    SameFor document.name Pass.directiveValidation
      (outcome config Pass.directiveValidation documents)
      (outcome config Pass.directiveValidation others) := by
  refine ⟨shared.unchanged, fun other => absurd rfl other, ?_⟩
  exact (DirectiveCheck.reportsOn_reports _ shared.collected.distinct shared.member).trans
    (DirectiveCheck.reportsOn_reports _ shared.otherCollected.distinct shared.inOther).symm

theorem map {step other : Document → Document}
    (named : ∀ document, (step document).name = document.name)
    (otherNamed : ∀ document, (other document).name = document.name)
    (defines : ∀ document definition, document.Defines definition →
      (∃ revised, (step document).Defines revised) ∧ ∃ revised, (other document).Defines revised)
    (same : step document = other document) :
    Shared (step document) (documents.map step) (others.map other) where
  collected := shared.collected.map named fun source _ definition given => (defines source definition given).1
  otherCollected :=
    shared.otherCollected.map otherNamed fun source _ definition given => (defines source definition given).2
  member := List.mem_map_of_mem shared.member
  inOther := same ▸ List.mem_map_of_mem shared.inOther

end Shared

end Pipeline

/-! ## The built-in passes -/

theorem PaginationCompletion.allAbout_step (config : Config) (document : Document) :
    AllAbout document.name (step config document).2 := by
  unfold step
  split <;> exact document.allAbout_reports _

theorem Inlining.name_step (context : PassContext) (document : Document) :
    (step context document).1.name = document.name :=
  Document.name_revise _ _

private theorem Inlining.step_eq {config : Config} {registry other : FragmentRegistry}
    {document : Document} {definition : Definition} (defines : document.Defines definition)
    (agree : registry.AgreeFrom other (spreadNames definition.selections.items)) :
    step ⟨config, registry⟩ document = step ⟨config, other⟩ document := by
  rw [step, step, defines.working, expandDocument, expandDocument, expand_eq agree, changes_eq agree]

namespace IdentityCompletion

theorem name_step (config : Config) (document : Document) :
    (step config document).1.name = document.name := by
  unfold step
  split
  · rfl
  · exact Document.name_revise _ _

theorem allAbout_step (config : Config) (document : Document) :
    AllAbout document.name (step config document).2 := by
  unfold step
  split
  · exact fun _ absent => nomatch absent
  · exact document.allAbout_reports _

private theorem exists_step_defines (config : Config) {document : Document}
    {definition : Definition}
    (defines : document.Defines definition) : ∃ revised, (step config document).1.Defines revised := by
  cases rooted : document.rootType? config.schema with
  | none =>
      rw [step, rooted]
      exact ⟨definition, defines⟩
  | some root => exact ⟨_, (step_defines defines rooted).1⟩

end IdentityCompletion

namespace Pipeline

variable {config : Config} {documents others : List Document} {document : Document}

private theorem documents_paginationArguments (config : Config) (documents : List Document) :
    (outcome config Pass.paginationArguments documents).documents = paginated config documents := by
  rw [Pass.paginationArguments, outcome_revising]
  rfl

private theorem documents_fragmentInlining (config : Config) (documents : List Document) :
    (outcome config Pass.fragmentInlining (paginated config documents)).documents =
      inlined config documents := by
  rw [Pass.fragmentInlining, outcome_revising]
  rfl

theorem Shared.scalarUsage (shared : Shared document documents others) :
    SameFor document.name Pass.scalarUsage (outcome config Pass.scalarUsage documents)
      (outcome config Pass.scalarUsage others) :=
  shared.checking (fun _ document => document.allAbout_reports _) rfl

theorem Shared.paginationArguments (shared : Shared document documents others) :
    SameFor document.name Pass.paginationArguments
      (outcome config Pass.paginationArguments documents)
      (outcome config Pass.paginationArguments others) :=
  shared.revising (fun context => PaginationCompletion.name_step context.config)
    (fun context => PaginationCompletion.allAbout_step context.config) rfl

section Along

variable (shared : Shared document documents others) {definition : Definition}
  (defines : document.Defines definition)
  (agree : (FragmentRegistry.ofDocuments documents).AgreeFrom (FragmentRegistry.ofDocuments others)
    (spreadNames definition.selections.items))

include shared

private theorem shared_paginated (config : Config) :
    Shared (PaginationCompletion.step config document).1 (paginated config documents)
      (paginated config others) := by
  have named := PaginationCompletion.name_step config
  refine shared.map named named (fun source definition given => ?_) rfl
  exact ⟨⟨_, PaginationCompletion.step_defines config given⟩,
    ⟨_, PaginationCompletion.step_defines config given⟩⟩

include defines agree

theorem inlining_eq (config : Config) :
    let paged := (PaginationCompletion.step config document).1
    Inlining.step ⟨config, FragmentRegistry.ofDocuments (paginated config documents)⟩ paged =
      Inlining.step ⟨config, FragmentRegistry.ofDocuments (paginated config others)⟩ paged := by
  refine Inlining.step_eq (PaginationCompletion.step_defines config defines) ?_
  rw [Definition.selections_withItems, PaginationCompletion.spreadNames_completedItems]
  exact agreeFrom_paginated config shared.collected shared.otherCollected agree

private theorem exists_shared_inlined (config : Config) :
    ∃ revised, revised.name = document.name ∧
      Shared revised (inlined config documents) (inlined config others) := by
  have paged := shared_paginated shared config
  refine ⟨_, ?_, paged.map (Inlining.name_step _) (Inlining.name_step _) (fun source definition given => ?_)
    (congrArg Prod.fst (inlining_eq shared defines agree config))⟩
  · rw [Inlining.name_step, PaginationCompletion.name_step]
  · exact ⟨⟨_, Inlining.step_defines _ given⟩, ⟨_, Inlining.step_defines _ given⟩⟩

private theorem exists_shared_completed (config : Config) :
    ∃ revised, revised.name = document.name ∧
      Shared revised (completed config documents) (completed config others) := by
  obtain ⟨middle, named, inlined⟩ := exists_shared_inlined shared defines agree config
  have keeps := IdentityCompletion.name_step config
  refine ⟨_, (keeps middle).trans named, inlined.map keeps keeps (fun source definition given => ?_) rfl⟩
  exact ⟨IdentityCompletion.exists_step_defines config given,
    IdentityCompletion.exists_step_defines config given⟩

private theorem sameFor_schemaConformance (config : Config)
    (acyclic : (FragmentRegistry.ofDocuments documents).FieldAcyclic)
    (otherAcyclic : (FragmentRegistry.ofDocuments others).FieldAcyclic) :
    SameFor document.name Pass.schemaConformance (outcome config Pass.schemaConformance documents)
      (outcome config Pass.schemaConformance others) := by
  have own : ∀ fragment, definition = .fragment fragment →
      (FragmentRegistry.ofDocuments documents).find? fragment.name = some fragment ∧
        (FragmentRegistry.ofDocuments others).find? fragment.name = some fragment := by
    rintro fragment rfl
    rw [defines.name_eq rfl]
    exact ⟨(shared.collected.find?_name_eq_some_iff shared.member).2 defines,
      (shared.otherCollected.find?_name_eq_some_iff shared.inOther).2 defines⟩
  refine shared.checking (fun _ document => document.allAbout_reports _) ?_
  exact congrArg document.reports (Conformance.faults_eq acyclic otherAcyclic defines agree own)

private theorem sameFor_fragmentInlining (config : Config) :
    SameFor document.name Pass.fragmentInlining
      (outcome config Pass.fragmentInlining (paginated config documents))
      (outcome config Pass.fragmentInlining (paginated config others)) := by
  rw [← PaginationCompletion.name_step config document]
  exact (shared_paginated shared config).revising Inlining.name_step
    (fun _ _ _ absent => nomatch absent) (inlining_eq shared defines agree config)

private theorem sameFor_identityKeys (config : Config) :
    SameFor document.name Pass.identityKeys
      (outcome config Pass.identityKeys (inlined config documents))
      (outcome config Pass.identityKeys (inlined config others)) := by
  obtain ⟨revised, named, together⟩ := exists_shared_inlined shared defines agree config
  rw [← named]
  exact together.revising (fun context => IdentityCompletion.name_step context.config)
    (fun context => IdentityCompletion.allAbout_step context.config) rfl

private theorem sameThrough_standard (config : Config)
    (acyclic : (FragmentRegistry.ofDocuments documents).FieldAcyclic)
    (otherAcyclic : (FragmentRegistry.ofDocuments others).FieldAcyclic) :
    SameThrough config document.name (Pass.standard []) documents others := by
  have conforms := sameFor_schemaConformance shared defines agree config acyclic otherAcyclic
  refine ⟨conforms, rfl, rfl, shared.directiveValidation, rfl, rfl, shared.scalarUsage, rfl, rfl,
    shared.paginationArguments, rfl, rfl, ?_⟩
  have unchanged (documents : List Document) :
      (outcome config Pass.paginationArguments (outcome config Pass.scalarUsage
        (outcome config Pass.directiveValidation
          (outcome config Pass.schemaConformance documents).documents).documents).documents).documents =
        paginated config documents :=
    documents_paginationArguments config documents
  rw [unchanged, unchanged]
  refine ⟨sameFor_fragmentInlining shared defines agree config, rfl, rfl, ?_⟩
  rw [documents_fragmentInlining, documents_fragmentInlining]
  exact ⟨sameFor_identityKeys shared defines agree config, rfl, rfl, trivial⟩

end Along

end Pipeline

/-! ## Artifacts and files -/

namespace StoreNaming

variable {naming : StoreNaming} {first second : String}

theorem artifactPath_inj (same : naming.artifactPath first = naming.artifactPath second) :
    first = second := by
  have letters := congrArg String.toList same
  exact String.toList_inj.1 (by simpa [artifactPath, String.toList_append] using letters)

theorem storePath_inj (same : naming.storePath first = naming.storePath second) : first = second := by
  have letters := congrArg String.toList same
  exact String.toList_inj.1 (by simpa [storePath, String.toList_append] using letters)

theorem artifactPath_ne_storePath : naming.artifactPath first ≠ naming.storePath second := by
  intro same
  have last := congrArg (fun path => path.toList.reverse.head?) same
  simp [artifactPath, storePath, String.toList_append] at last

end StoreNaming

namespace Store

private theorem path_of_mem_filesOf {naming : StoreNaming} {stores : List String}
    {artifact : Artifact} {file : OutputFile} (member : file ∈ (filesOf naming stores artifact).1) :
    file.path = naming.artifactPath artifact.name ∨ file.path = naming.storePath artifact.name := by
  unfold filesOf at member
  simp only at member
  split at member
  · unfold storeFile at member
    split at member
    · rename_i store written
      split at written
      · cases written
      · cases written
        rcases List.mem_pair.1 member with rfl | rfl
        · exact .inl rfl
        · exact .inr rfl
    · cases List.mem_singleton.1 member
      exact .inl rfl
  · cases List.mem_singleton.1 member
    exact .inl rfl

private theorem name_of_mem_filesOf {naming : StoreNaming} {stores : List String}
    {artifact : Artifact}
    {file : OutputFile} (member : file ∈ (filesOf naming stores artifact).1) {name : String}
    (own : file.path = naming.artifactPath name ∨ file.path = naming.storePath name) :
    artifact.name = name := by
  rcases path_of_mem_filesOf member with here | here <;> rw [here] at own
  · rcases own with same | same
    · exact StoreNaming.artifactPath_inj same
    · exact absurd same StoreNaming.artifactPath_ne_storePath
  · rcases own with same | same
    · exact absurd same.symm StoreNaming.artifactPath_ne_storePath
    · exact StoreNaming.storePath_inj same

end Store

namespace Compilation

variable {config : Config} {documents : List Document} {document : Document} {output : CompileOutput}

theorem mem_artifacts_iff (collected : Collected documents) (member : document ∈ documents)
    (emits : emit config documents = .ok output) {artifact : Artifact}
    (named : artifact.name = document.name) :
    artifact ∈ output.artifacts ↔ Generation.artifact? config document = some artifact := by
  obtain ⟨generates, _⟩ := emit_eq_ok_iff.1 emits
  rw [← (Generation.generateAll_eq_ok_iff.1 generates).2, List.mem_filterMap]
  constructor
  · rintro ⟨source, inDocuments, made⟩
    have same := (Generation.name_of_artifact? made).symm.trans named
    rwa [← collected.eq_of_name inDocuments member same]
  · exact fun made => ⟨document, member, made⟩

theorem mem_storeNames_iff (collected : Collected documents) (member : document ∈ documents) :
    document.name ∈ storeNames documents ↔ document.store = true ∧ document.artifact = true := by
  rw [storeNames, List.mem_map]
  constructor
  · rintro ⟨source, inStores, same⟩
    obtain ⟨inDocuments, wanted⟩ := List.mem_filter.1 inStores
    rw [collected.eq_of_name inDocuments member same] at wanted
    simpa using wanted
  · exact fun wanted => ⟨document, List.mem_filter.2 ⟨member, by simpa using wanted⟩, rfl⟩

theorem mem_files_iff (collected : Collected documents) (member : document ∈ documents)
    (emits : emit config documents = .ok output) {file : OutputFile}
    (own : file.path = config.stores.artifactPath document.name ∨
      file.path = config.stores.storePath document.name) :
    file ∈ output.files ↔ ∃ artifact, Generation.artifact? config document = some artifact ∧
      file ∈ (Store.filesOf config.stores (storeNames documents) artifact).1 := by
  obtain ⟨_, writes, _⟩ := emit_eq_ok_iff.1 emits
  rw [← (Store.emit_eq_ok_iff.1 writes).2, List.mem_mergeSort, List.mem_flatMap]
  constructor
  · rintro ⟨artifact, inArtifacts, written⟩
    have named := Store.name_of_mem_filesOf written own
    exact ⟨artifact, (mem_artifacts_iff collected member emits named).1 inArtifacts, written⟩
  · rintro ⟨artifact, made, written⟩
    have named := Generation.name_of_artifact? made
    exact ⟨artifact, (mem_artifacts_iff collected member emits named).2 made, written⟩

/-- The documents of a run that succeeds are those of its sources, and no fragment among them
reaches itself. -/
theorem collection_of_run_standard {sources : List DocumentSource}
    (ran : run config (Pass.standard []) false ⟨sources, []⟩ = .ok (.ok output)) :
    ∃ collection, Collection.collect sources = .ok collection ∧
      collection.documents = sources.filterMap Collection.document? ∧
      (FragmentRegistry.ofDocuments collection.documents).FieldAcyclic := by
  obtain ⟨_, collects, accepts, _⟩ := run_standard_eq_ok_iff.1 ran
  have gathered := (Collection.collect_clean_iff.1 collects).2.1
  obtain ⟨collection, collects, _, rfl⟩ := collects
  exact ⟨collection, collects, gathered, Conformance.fieldAcyclic_of_faults accepts.conforms⟩

private theorem shared_of_document? {sources otherSources : List DocumentSource}
    {collection other : Collection} (collects : Collection.collect sources = .ok collection)
    (otherCollects : Collection.collect otherSources = .ok other)
    (gathered : collection.documents = sources.filterMap Collection.document?)
    (otherGathered : other.documents = otherSources.filterMap Collection.document?)
    {source : DocumentSource} (member : source ∈ sources) (inOther : source ∈ otherSources)
    (reads : Collection.document? source = some document) :
    Pipeline.Shared document collection.documents other.documents where
  collected := collected_documents collects
  otherCollected := collected_documents otherCollects
  member := gathered ▸ List.mem_filterMap.2 ⟨source, member, reads⟩
  inOther := otherGathered ▸ List.mem_filterMap.2 ⟨source, inOther, reads⟩

/-- Two runs that collect the same document, and the same fragments wherever its spreads lead, make
the same of it in every pass, and write the same artifact and files for it if they succeed. -/
theorem run_standard_noninterference {config : Config} {sources otherSources : List DocumentSource}
    {collection other : Collection} {document twin : Document}
    (collects : Collection.collect sources = .ok collection)
    (otherCollects : Collection.collect otherSources = .ok other)
    (acyclic : (FragmentRegistry.ofDocuments collection.documents).FieldAcyclic)
    (otherAcyclic : (FragmentRegistry.ofDocuments other.documents).FieldAcyclic)
    (member : document ∈ collection.documents) (inOther : twin ∈ other.documents)
    (same : document.source = twin.source)
    (agree : ∀ selections, document.selections? = some selections →
      ∀ name ∈ (FragmentRegistry.ofDocuments collection.documents).reachable selections.items,
        (FragmentRegistry.ofDocuments collection.documents).find? name =
          (FragmentRegistry.ofDocuments other.documents).find? name) :
    (∀ before pass after, Pass.standard [] = before ++ pass :: after → ∃ progress otherProgress,
      Pipeline.run? config ⟨collection.documents, [], false⟩ before = some progress ∧
      Pipeline.run? config ⟨other.documents, [], false⟩ before = some otherProgress ∧
      Pipeline.SameFor document.name pass (Pipeline.outcome config pass progress.documents)
        (Pipeline.outcome config pass otherProgress.documents)) ∧
    ∀ output otherOutput,
      run config (Pass.standard []) false ⟨sources, []⟩ = .ok (.ok output) →
      run config (Pass.standard []) false ⟨otherSources, []⟩ = .ok (.ok otherOutput) →
      (∀ artifact, artifact.name = document.name →
        (artifact ∈ output.artifacts ↔ artifact ∈ otherOutput.artifacts)) ∧
      ∀ file, file.path = config.stores.artifactPath document.name ∨
          file.path = config.stores.storePath document.name →
        (file ∈ output.files ↔ file ∈ otherOutput.files) := by
  have given := Collection.document?_of_mem collects member
  rw [same, Collection.document?_of_mem otherCollects inOther, Option.some.injEq] at given
  subst given
  have collected := collected_documents collects
  obtain ⟨definition, defines⟩ := collected.defines _ member
  have shared : Pipeline.Shared twin collection.documents other.documents :=
    ⟨collected, collected_documents otherCollects, member, inOther⟩
  have reached : (FragmentRegistry.ofDocuments collection.documents).AgreeFrom
      (FragmentRegistry.ofDocuments other.documents) (spreadNames definition.selections.items) :=
    fun name leads =>
      agree _ defines.selections?_eq name (FragmentRegistry.mem_reachable_iff.2 leads)
  refine ⟨fun before pass after split => ?_, fun output otherOutput ran otherRan => ?_⟩
  · have through := Pipeline.sameThrough_standard shared defines reached config acyclic otherAcyclic
    rw [split] at through
    exact through.sameFor [] []
  · obtain ⟨_, ⟨_, collectsAgain, _, rfl⟩, _, emits⟩ := run_standard_eq_ok_iff.1 ran
    obtain ⟨_, ⟨_, otherAgain, _, rfl⟩, _, otherEmits⟩ := run_standard_eq_ok_iff.1 otherRan
    cases collects.symm.trans collectsAgain
    cases otherCollects.symm.trans otherAgain
    obtain ⟨revised, named, last⟩ := Pipeline.exists_shared_completed shared defines reached config
    rw [← named]
    refine ⟨fun artifact own => ?_, fun file own => ?_⟩
    · rw [mem_artifacts_iff last.collected last.member emits own,
        mem_artifacts_iff last.otherCollected last.inOther otherEmits own]
    · rw [mem_files_iff last.collected last.member emits own,
        mem_files_iff last.otherCollected last.inOther otherEmits own]
      have stores : revised.name ∈ storeNames (Pipeline.completed config collection.documents) ↔
          revised.name ∈ storeNames (Pipeline.completed config other.documents) :=
        (mem_storeNames_iff last.collected last.member).trans
          (mem_storeNames_iff last.otherCollected last.inOther).symm
      refine exists_congr fun artifact => and_congr_right fun made => ?_
      rw [← Generation.name_of_artifact? made] at stores
      rw [Store.filesOf_congr config.stores stores]

/-- The texts of the catalog in another order, with one more query. -/
def neighbourTexts : List String :=
  "query R \x7b node \x7b ...F id \x7d \x7d" :: Pipeline.catalogTexts.reverse

/-- The query of the catalog, alone with its fragment and beside another query. -/
theorem run_standard_noninterference_catalog :
    ∃ schema output other, Schema.ofDefinitions Pipeline.catalog = .ok schema ∧
      run (.ofSchema schema) (Pass.standard []) false ⟨Pipeline.catalogTexts.map textSource, []⟩ =
        .ok (.ok output) ∧
      run (.ofSchema schema) (Pass.standard []) false ⟨neighbourTexts.map textSource, []⟩ =
        .ok (.ok other) ∧
      (∃ artifact ∈ output.artifacts, artifact.name = "Q") ∧
      (∀ artifact, artifact.name = "Q" → (artifact ∈ output.artifacts ↔ artifact ∈ other.artifacts)) ∧
      let naming := (Config.ofSchema schema).stores
      ∀ file, file.path = naming.artifactPath "Q" ∨ file.path = naming.storePath "Q" →
        (file ∈ output.files ↔ file ∈ other.files) := by
  have succeeds : (runTexts? Pipeline.catalog Pipeline.catalogTexts).any (fun result =>
      result.2.artifacts.any fun artifact => artifact.name == "Q") = true := by decide +kernel
  have otherSucceeds : (runTexts? Pipeline.catalog neighbourTexts).isSome = true := by decide +kernel
  have reaches : (Collection.document? (textSource Pipeline.catalogTexts[0])).any (fun document =>
      document.name == "Q" && document.selections?.all fun selections =>
        ((FragmentRegistry.ofDocuments
          ((Pipeline.catalogTexts.map textSource).filterMap Collection.document?)).reachable
            selections.items).names.all (· == "F")) = true := by
    decide +kernel
  have named : (Collection.document? (textSource Pipeline.catalogTexts[1])).any (fun document =>
      document.name == "F") = true := by
    decide +kernel
  obtain ⟨⟨schema, output⟩, gives, made⟩ := (Option.any_eq_true _ _).1 succeeds
  obtain ⟨⟨_, other⟩, otherGives⟩ := Option.isSome_iff_exists.1 otherSucceeds
  obtain ⟨built, ran⟩ := runTexts?_eq_some gives
  obtain ⟨otherBuilt, otherRan⟩ := runTexts?_eq_some otherGives
  cases built.symm.trans otherBuilt
  obtain ⟨collection, collects, gathered, acyclic⟩ := collection_of_run_standard ran
  obtain ⟨neighbours, otherCollects, otherGathered, otherAcyclic⟩ := collection_of_run_standard otherRan
  have shared {document : Document} {text : String} (member : text ∈ Pipeline.catalogTexts)
      (reads : Collection.document? (textSource text) = some document) :=
    shared_of_document? collects otherCollects gathered otherGathered (List.mem_map_of_mem member)
      (List.mem_map_of_mem (List.mem_cons_of_mem _ (List.mem_reverse.2 member))) reads
  obtain ⟨query, queryReads, alone⟩ := (Option.any_eq_true _ _).1 reaches
  obtain ⟨fragment, fragmentReads, fragmentNamed⟩ := (Option.any_eq_true _ _).1 named
  rw [Bool.and_eq_true, beq_iff_eq, ← gathered] at alone
  have both := shared (by decide) queryReads
  have fragmentBoth := shared (by decide) fragmentReads
  obtain ⟨_, same⟩ := run_standard_noninterference collects otherCollects acyclic otherAcyclic
    both.member both.inOther rfl fun selections given name reached => by
      have only := alone.2
      rw [given, Option.all_some, List.all_eq_true] at only
      rw [beq_iff_eq.1 (only name reached), ← beq_iff_eq.1 fragmentNamed]
      exact fragmentBoth.find?_name_eq
  obtain ⟨artifact, inArtifacts, isNamed⟩ := List.any_eq_true.1 made
  rw [alone.1] at same
  exact ⟨schema, output, other, built, ran, otherRan, ⟨artifact, inArtifacts, beq_iff_eq.1 isNamed⟩,
    same output other ran otherRan⟩

end Compilation

end GraphqlStore
