import GraphqlStore.Proofs.CompiledRun
import Mathlib.Data.Nat.Find

/-!
Every source is accounted for. Collecting goes through the sources once, with
the labels of the names that have been met, and takes from each source either
the document that it declares or one diagnostic. Which of the two depends on
the text of the source and on whether an earlier one declares the same name.
Only a text with a string over several lines that has no value spoils this: it
ends the collection, and nothing is left of the sources before it.
-/

set_option autoImplicit false

namespace GraphqlStore

namespace DocumentSource

/-- The text parses and is classified as a document of this name. -/
def Declares (source : DocumentSource) (name : String) : Prop :=
  ∃ kind parsed, ExecutableDocument.parse source.text = .ok parsed ∧
    ExecutableDocument.classify parsed = .ok (kind, name)

/-- What ends the reading of the text, if it is not read to its end. -/
def interruption? (source : DocumentSource) : Option Interruption :=
  match ExecutableDocument.parse source.text with
  | .error (.interrupted cause) => some cause
  | _ => none

theorem Declares.unique {source : DocumentSource} {name other : String}
    (declares : source.Declares name) (also : source.Declares other) : name = other := by
  obtain ⟨kind, parsed, parses, classified⟩ := declares
  obtain ⟨_, _, parsesAlso, classifiedAlso⟩ := also
  cases parses.symm.trans parsesAlso
  cases classified.symm.trans classifiedAlso
  rfl

theorem declares_iff {source : DocumentSource} {name : String} :
    source.Declares name ↔ (Collection.document? source).map Document.name = some name := by
  unfold Declares Collection.document?
  cases ExecutableDocument.parse source.text with
  | error failure => simp
  | ok parsed =>
      cases classified : ExecutableDocument.classify parsed <;>
        simp [classified, Document.ofSource, Prod.ext_iff]

instance (source : DocumentSource) (name : String) : Decidable (source.Declares name) :=
  decidable_of_iff _ declares_iff.symm

end DocumentSource

namespace Collection

/-! ## What is to be accounted for -/

/-- The source at this place declares a document of this name. -/
def DeclaredAt (sources : List DocumentSource) (place : Nat) (name : String) : Prop :=
  ∃ source, sources[place]? = some source ∧ source.Declares name

/-- The first source that declares a document of this name, and its place. -/
structure FirstDeclared (sources : List DocumentSource) (name : String) (place : Nat)
    (source : DocumentSource) : Prop where
  listed : sources[place]? = some source
  declares : source.Declares name
  first : ∀ earlier < place, ¬ DeclaredAt sources earlier name

/-- What the source at a place contributes: its document, or one diagnostic. -/
inductive Contributes (sources : List DocumentSource) (index : Nat) :
    Except Diagnostic Document → Prop where
  | unparsed {source : DocumentSource} {position : Position} : sources[index]? = some source →
      ExecutableDocument.parse source.text = .error (.unexpected position) →
      Contributes sources index (.error (refused (source.label index)
        ("parse " ++ source.label index ++ ": query parse error: " ++ position.refusal)))
  | invalid {source : DocumentSource} {parsed : ExecutableDocument} {reason : ClassifyError} :
      sources[index]? = some source → ExecutableDocument.parse source.text = .ok parsed →
      ExecutableDocument.classify parsed = .error reason →
      Contributes sources index (.error (refused (source.label index) reason.message))
  | repeated {source first : DocumentSource} {name : String} {place : Nat} :
      sources[index]? = some source → source.Declares name →
      FirstDeclared sources name place first → place < index →
      Contributes sources index (.error (duplicate name (first.label place) (source.label index)))
  | document {source : DocumentSource} {kind : DocumentKind} {name : String}
      {parsed : ExecutableDocument} :
      sources[index]? = some source → ExecutableDocument.parse source.text = .ok parsed →
      ExecutableDocument.classify parsed = .ok (kind, name) →
      (∀ earlier < index, ¬ DeclaredAt sources earlier name) →
      Contributes sources index (.ok (.ofSource name kind source parsed))

/-- The diagnostic of a source that gives no document. -/
def diagnostic? : Except Diagnostic Document → Option Diagnostic
  | .error found => some found
  | .ok _ => none

/-- A collection holds what each source contributes, once, in the order of the sources. -/
structure Accounts (sources : List DocumentSource) (outcomes : List (Except Diagnostic Document))
    (collection : Collection) : Prop where
  one_each : outcomes.length = sources.length
  contributed : ∀ index outcome, outcomes[index]? = some outcome → Contributes sources index outcome
  documents_eq : collection.documents = outcomes.filterMap Except.toOption
  errors_eq : collection.errors = outcomes.filterMap diagnostic?
  distinct : (collection.documents.map Document.name).Nodup
  document_iff : ∀ index, (∃ document, outcomes[index]? = some (.ok document)) ↔
    ∃ name, DeclaredAt sources index name ∧ ∀ earlier < index, ¬ DeclaredAt sources earlier name
  fatal_iff : collection.fatal = true ↔ ∃ name first second, first < second ∧
    DeclaredAt sources first name ∧ DeclaredAt sources second name

/-! ## Places in a list that grows -/

variable {done rest : List DocumentSource} {source : DocumentSource} {name : String} {place : Nat}

theorem DeclaredAt.lt_length {sources : List DocumentSource}
    (declared : DeclaredAt sources place name) : place < sources.length := by
  obtain ⟨source, listed, _⟩ := declared
  exact (List.getElem?_eq_some_iff.1 listed).1

theorem declaredAt_append (earlier : place < done.length) :
    DeclaredAt (done ++ rest) place name ↔ DeclaredAt done place name := by
  simp only [DeclaredAt, List.getElem?_append_left earlier]

theorem declaredAt_length :
    DeclaredAt (done ++ source :: rest) done.length name ↔ source.Declares name := by
  simp [DeclaredAt]

private theorem DeclaredAt.exists_first {sources : List DocumentSource}
    (declared : DeclaredAt sources place name) :
    ∃ first found, first ≤ place ∧ FirstDeclared sources name first found := by
  classical
  have some : ∃ first, DeclaredAt sources first name := ⟨place, declared⟩
  obtain ⟨found, listed, declares⟩ := Nat.find_spec some
  exact ⟨Nat.find some, found, Nat.find_min' some declared, listed, declares,
    fun earlier before => Nat.find_min some before⟩

theorem FirstDeclared.append (first : FirstDeclared done name place source)
    (rest : List DocumentSource) : FirstDeclared (done ++ rest) name place source where
  listed := List.getElem?_append_left (List.getElem?_eq_some_iff.1 first.listed).1 ▸ first.listed
  declares := first.declares
  first earlier before := by
    have within := Nat.lt_trans before (List.getElem?_eq_some_iff.1 first.listed).1
    rw [declaredAt_append within]
    exact first.first earlier before

theorem firstDeclared_concat {found : DocumentSource} :
    FirstDeclared (done ++ [source]) name place found ↔
      FirstDeclared done name place found ∨
        (∀ earlier, ¬ DeclaredAt done earlier name) ∧ source.Declares name ∧
          place = done.length ∧ found = source := by
  constructor
  · intro first
    have inside := (List.getElem?_eq_some_iff.1 first.listed).1
    rw [List.length_append, List.length_singleton] at inside
    rcases Nat.lt_succ_iff_lt_or_eq.1 inside with earlier | rfl
    · refine .inl ⟨by simpa [List.getElem?_append_left earlier] using first.listed, first.declares,
        fun other before => ?_⟩
      rw [← declaredAt_append (Nat.lt_trans before earlier)]
      exact first.first other before
    · have same : source = found := by simpa using first.listed
      refine .inr ⟨fun earlier declared => ?_, same ▸ first.declares, rfl, same.symm⟩
      exact first.first earlier declared.lt_length ((declaredAt_append declared.lt_length).2 declared)
  · rintro (first | ⟨fresh, declares, rfl, rfl⟩)
    · exact first.append [source]
    · refine ⟨by simp, declares, fun earlier before declared => ?_⟩
      exact fresh earlier ((declaredAt_append before).1 declared)

theorem declaredAt_iff {sources : List DocumentSource} (listed : sources[place]? = some source) :
    DeclaredAt sources place name ↔ source.Declares name := by
  simp [DeclaredAt, listed]

theorem Contributes.document_iff {sources : List DocumentSource} {index : Nat}
    {outcome : Except Diagnostic Document} (contributes : Contributes sources index outcome) :
    (∃ document, outcome = .ok document) ↔
      ∃ name, DeclaredAt sources index name ∧ ∀ earlier < index, ¬ DeclaredAt sources earlier name := by
  cases contributes with
  | unparsed listed refuses =>
      refine iff_of_false (by simp) ?_
      rintro ⟨name, declared, _⟩
      obtain ⟨_, _, parses, _⟩ := (declaredAt_iff listed).1 declared
      cases refuses.symm.trans parses
  | invalid listed parses classified =>
      refine iff_of_false (by simp) ?_
      rintro ⟨name, declared, _⟩
      obtain ⟨_, _, parsesAlso, accepted⟩ := (declaredAt_iff listed).1 declared
      cases parses.symm.trans parsesAlso
      cases classified.symm.trans accepted
  | @repeated source first name place listed declares firstDeclared earlier =>
      refine iff_of_false (by simp) ?_
      rintro ⟨other, declared, fresh⟩
      refine fresh place earlier ⟨first, firstDeclared.listed, ?_⟩
      exact declares.unique ((declaredAt_iff listed).1 declared) ▸ firstDeclared.declares
  | document listed parses classified fresh =>
      exact iff_of_true ⟨_, rfl⟩ ⟨_, (declaredAt_iff listed).2 ⟨_, _, parses, classified⟩, fresh⟩

/-! ## The labels that are kept -/

/-- The names that some sources declare, each with the label of the first one that does. -/
def Labels (done : List DocumentSource) (seen : NameMap String) : Prop :=
  ∀ name label, seen.find? name = some label ↔
    ∃ place source, FirstDeclared done name place source ∧ source.label place = label

variable {seen : NameMap String}

theorem labels_nil : Labels [] NameMap.empty := by
  intro name label
  constructor
  · intro found
    cases (NameMap.find?_empty name).symm.trans found
  · rintro ⟨place, source, first, _⟩
    cases first.listed

theorem Labels.not_declaredAt (labels : Labels done seen) (absent : seen.find? name = none)
    (place : Nat) : ¬ DeclaredAt done place name := by
  intro declared
  obtain ⟨first, found, _, firstDeclared⟩ := declared.exists_first
  cases absent.symm.trans ((labels name _).2 ⟨first, found, firstDeclared, rfl⟩)

theorem Labels.pass (labels : Labels done seen)
    (known : ∀ name, source.Declares name → ∃ label, seen.find? name = some label) :
    Labels (done ++ [source]) seen := by
  intro name label
  rw [labels name label]
  constructor
  · rintro ⟨place, found, first, rfl⟩
    exact ⟨place, found, first.append [source], rfl⟩
  · rintro ⟨place, found, first, rfl⟩
    rcases firstDeclared_concat.1 first with first | ⟨fresh, declares, _, _⟩
    · exact ⟨place, found, first, rfl⟩
    · obtain ⟨other, present⟩ := known name declares
      obtain ⟨earlier, declaring, firstDeclaring, _⟩ := (labels name other).1 present
      exact absurd ⟨declaring, firstDeclaring.listed, firstDeclaring.declares⟩ (fresh earlier)

theorem Labels.insert (labels : Labels done seen) (declares : source.Declares name)
    (absent : seen.find? name = none) :
    Labels (done ++ [source]) (seen.insert name (source.label done.length)) := by
  intro other label
  by_cases same : name = other
  · subst same
    rw [NameMap.find?_insert_self, Option.some.injEq]
    constructor
    · rintro rfl
      exact ⟨done.length, source, firstDeclared_concat.2
        (.inr ⟨labels.not_declaredAt absent, declares, rfl, rfl⟩), rfl⟩
    · rintro ⟨place, found, first, rfl⟩
      rcases firstDeclared_concat.1 first with first | ⟨_, _, rfl, rfl⟩
      · exact absurd ⟨found, first.listed, first.declares⟩ (labels.not_declaredAt absent place)
      · rfl
  · rw [NameMap.find?_insert_of_ne _ _ same, labels other label]
    constructor
    · rintro ⟨place, found, first, rfl⟩
      exact ⟨place, found, first.append [source], rfl⟩
    · rintro ⟨place, found, first, rfl⟩
      rcases firstDeclared_concat.1 first with first | ⟨_, also, _, _⟩
      · exact ⟨place, found, first, rfl⟩
      · exact absurd (declares.unique also) same

/-! ## The sources one after the other -/

/-- What is collected from the sources after some others. -/
structure AccountsAfter (done rest : List DocumentSource) (outcomes : List (Except Diagnostic Document))
    (collection : Collection) : Prop where
  one_each : outcomes.length = rest.length
  contributed : ∀ index outcome, outcomes[index]? = some outcome →
    Contributes (done ++ rest) (done.length + index) outcome
  documents_eq : collection.documents = outcomes.filterMap Except.toOption
  errors_eq : collection.errors = outcomes.filterMap diagnostic?
  fatal_iff : collection.fatal = true ↔ ∃ name first second, done.length ≤ second ∧ first < second ∧
    DeclaredAt (done ++ rest) first name ∧ DeclaredAt (done ++ rest) second name

theorem accountsAfter_nil : AccountsAfter done [] [] ⟨[], [], false⟩ where
  one_each := rfl
  contributed := by simp
  documents_eq := rfl
  errors_eq := rfl
  fatal_iff := by
    constructor
    · intro fatal
      cases fatal
    · rintro ⟨name, first, second, after, _, _, declared⟩
      rw [List.append_nil] at declared
      exact absurd declared.lt_length (Nat.not_lt.2 after)

theorem AccountsAfter.cons {outcome : Except Diagnostic Document}
    {outcomes : List (Except Diagnostic Document)} {collection others : Collection}
    (after : AccountsAfter (done ++ [source]) rest outcomes others)
    (contributes : Contributes (done ++ source :: rest) done.length outcome)
    (documents : collection.documents = outcome.toOption.toList ++ others.documents)
    (errors : collection.errors = (diagnostic? outcome).toList ++ others.errors)
    (fatal : collection.fatal = true ↔
      (∃ name, source.Declares name ∧ ∃ first, DeclaredAt done first name) ∨ others.fatal = true) :
    AccountsAfter done (source :: rest) (outcome :: outcomes) collection where
  one_each := congrArg (· + 1) after.one_each
  contributed index found listed := by
    cases index with
    | zero =>
        cases listed
        exact contributes
    | succ index =>
        have later := after.contributed index found listed
        simpa [Nat.add_assoc, Nat.add_comm 1 index] using later
  documents_eq := by
    rw [documents, after.documents_eq, List.filterMap_cons]
    cases outcome.toOption <;> rfl
  errors_eq := by
    rw [errors, after.errors_eq, List.filterMap_cons]
    cases diagnostic? outcome <;> rfl
  fatal_iff := by
    have joined : done ++ [source] ++ rest = done ++ source :: rest := by simp
    have fatalLater := after.fatal_iff
    rw [joined, List.length_append, List.length_singleton] at fatalLater
    rw [fatal, fatalLater]
    constructor
    · rintro (⟨name, declares, first, declared⟩ | ⟨name, first, second, beyond, before, both⟩)
      · exact ⟨name, first, done.length, Nat.le_refl _, declared.lt_length,
          (declaredAt_append declared.lt_length).2 declared, declaredAt_length.2 declares⟩
      · exact ⟨name, first, second, Nat.le_of_succ_le beyond, before, both⟩
    · rintro ⟨name, first, second, beyond, before, declaredFirst, declaredSecond⟩
      rcases Nat.eq_or_lt_of_le beyond with rfl | beyond
      · exact .inl ⟨name, declaredAt_length.1 declaredSecond, first,
          (declaredAt_append before).1 declaredFirst⟩
      · exact .inr ⟨name, first, second, beyond, before, declaredFirst, declaredSecond⟩

private theorem read_eq_ok {index : Nat} {reading : Reading}
    (reads : read source index = .ok reading) :
    (∃ position, ExecutableDocument.parse source.text = .error (.unexpected position) ∧
      reading = ⟨source.label index, .error (refused (source.label index)
        ("parse " ++ source.label index ++ ": query parse error: " ++ position.refusal))⟩) ∨
    (∃ parsed reason, ExecutableDocument.parse source.text = .ok parsed ∧
      ExecutableDocument.classify parsed = .error reason ∧
      reading = ⟨source.label index, .error (refused (source.label index) reason.message)⟩) ∨
    ∃ kind name parsed, ExecutableDocument.parse source.text = .ok parsed ∧
      ExecutableDocument.classify parsed = .ok (kind, name) ∧
      reading = ⟨source.label index, .ok (.ofSource name kind source parsed)⟩ := by
  unfold read at reads
  simp only at reads
  split at reads
  · cases reads
  · rename_i position refuses
    cases reads
    exact .inl ⟨position, refuses, rfl⟩
  · rename_i parsed parses
    split at reads
    · rename_i reason classified
      cases reads
      exact .inr (.inl ⟨parsed, reason, parses, classified, rfl⟩)
    · rename_i kind name classified
      cases reads
      exact .inr (.inr ⟨kind, name, parsed, parses, classified, rfl⟩)

private theorem gather_of_known {label first : String} {document : Document} {later : List Reading}
    (known : seen.find? document.name = some first) :
    gather seen (⟨label, .ok document⟩ :: later) =
      ⟨(gather seen later).documents,
        duplicate document.name first label :: (gather seen later).errors, true⟩ := by
  simp only [gather, known]

private theorem gather_of_unknown {label : String} {document : Document} {later : List Reading}
    (unknown : seen.find? document.name = none) :
    gather seen (⟨label, .ok document⟩ :: later) =
      { gather (seen.insert document.name label) later with
        documents := document :: (gather (seen.insert document.name label) later).documents } := by
  simp only [gather, unknown]

private theorem gather_accountsAfter {readings : List Reading} (labels : Labels done seen)
    (reads : readFrom done.length rest = .ok readings) :
    ∃ outcomes, AccountsAfter done rest outcomes (gather seen readings) := by
  induction rest generalizing done seen readings with
  | nil =>
      cases reads
      exact ⟨[], accountsAfter_nil⟩
  | cons source rest ih =>
      obtain ⟨reading, later, here, there, rfl⟩ := readFrom_cons.1 reads
      have there : readFrom (done ++ [source]).length rest = .ok later := by simpa using there
      have listed : (done ++ source :: rest)[done.length]? = some source := by simp
      rcases read_eq_ok here with ⟨position, refuses, rfl⟩ |
        ⟨parsed, reason, parses, classified, rfl⟩ | ⟨kind, name, parsed, parses, classified, rfl⟩
      · have silent (name : String) : ¬ source.Declares name := by
          rintro ⟨_, _, parses, _⟩
          cases refuses.symm.trans parses
        obtain ⟨outcomes, after⟩ := ih (labels.pass fun name declares => absurd declares (silent name)) there
        refine ⟨_, after.cons (.unparsed listed refuses) rfl rfl ?_⟩
        exact (or_iff_right fun ⟨name, declares, _⟩ => silent name declares).symm
      · have silent (name : String) : ¬ source.Declares name := by
          rintro ⟨_, _, parsesAlso, accepted⟩
          cases parses.symm.trans parsesAlso
          cases classified.symm.trans accepted
        obtain ⟨outcomes, after⟩ := ih (labels.pass fun name declares => absurd declares (silent name)) there
        refine ⟨_, after.cons (.invalid listed parses classified) rfl rfl ?_⟩
        exact (or_iff_right fun ⟨name, declares, _⟩ => silent name declares).symm
      · have declares : source.Declares name := ⟨kind, parsed, parses, classified⟩
        cases known : seen.find? name with
        | some label =>
            obtain ⟨place, first, firstDeclared, rfl⟩ := (labels name label).1 known
            have declared : DeclaredAt done place name :=
              ⟨first, firstDeclared.listed, firstDeclared.declares⟩
            have labelled : Labels (done ++ [source]) seen :=
              labels.pass fun other also => ⟨_, declares.unique also ▸ known⟩
            obtain ⟨outcomes, after⟩ := ih labelled there
            rw [gather_of_known known]
            refine ⟨_, after.cons (.repeated listed declares (firstDeclared.append _)
              declared.lt_length) rfl rfl ?_⟩
            exact iff_of_true rfl (.inl ⟨name, declares, place, declared⟩)
        | none =>
            have fresh := labels.not_declaredAt known
            obtain ⟨outcomes, after⟩ := ih (labels.insert declares known) there
            have unmet (earlier : Nat) (before : earlier < done.length) :
                ¬ DeclaredAt (done ++ source :: rest) earlier name := by
              rw [declaredAt_append before]
              exact fresh earlier
            rw [gather_of_unknown known]
            refine ⟨_, after.cons (.document listed parses classified unmet) rfl rfl ?_⟩
            refine (or_iff_right ?_).symm
            rintro ⟨other, also, first, declared⟩
            exact fresh first (declares.unique also ▸ declared)

theorem AccountsAfter.accounts {sources : List DocumentSource}
    {outcomes : List (Except Diagnostic Document)} {collection : Collection}
    (after : AccountsAfter [] sources outcomes collection)
    (distinct : (collection.documents.map Document.name).Nodup) :
    Accounts sources outcomes collection := by
  have contributed (index : Nat) (outcome : Except Diagnostic Document)
      (listed : outcomes[index]? = some outcome) : Contributes sources index outcome := by
    simpa using after.contributed index outcome listed
  refine ⟨after.one_each, contributed, after.documents_eq, after.errors_eq, distinct, fun index => ?_,
    by simpa using after.fatal_iff⟩
  constructor
  · rintro ⟨document, listed⟩
    exact (contributed index _ listed).document_iff.1 ⟨document, rfl⟩
  · rintro ⟨name, declared, fresh⟩
    have inside : index < outcomes.length := after.one_each ▸ declared.lt_length
    have listed := List.getElem?_eq_getElem inside
    obtain ⟨document, same⟩ := (contributed index _ listed).document_iff.2 ⟨name, declared, fresh⟩
    exact ⟨document, same ▸ listed⟩

/-! ## Texts that are not read to their end -/

theorem read_eq_error_iff {index : Nat} {cause : Interruption} :
    read source index = .error cause ↔ source.interruption? = some cause := by
  unfold read DocumentSource.interruption?
  cases ExecutableDocument.parse source.text with
  | error failure => cases failure <;> simp
  | ok parsed => cases classified : ExecutableDocument.classify parsed <;> simp [classified]

theorem readFrom_eq_error_iff (index : Nat) {sources : List DocumentSource} {cause : Interruption} :
    readFrom index sources = .error cause ↔
      sources.findSome? DocumentSource.interruption? = some cause := by
  induction sources generalizing index with
  | nil => simp [readFrom]
  | cons source rest ih =>
      rw [readFrom, List.findSome?_cons]
      cases here : read source index with
      | error found =>
          rw [read_eq_error_iff.1 here]
          simp [bind, Except.bind]
      | ok reading =>
          have ends : source.interruption? = none := by
            refine Option.eq_none_iff_forall_ne_some.2 fun other found => ?_
            cases here.symm.trans (read_eq_error_iff.2 found)
          rw [ends, ← ih (index + 1)]
          cases readFrom (index + 1) rest <;> simp [bind, Except.bind, pure, Except.pure]

theorem collect_eq_error_iff {sources : List DocumentSource} {cause : Interruption} :
    collect sources = .error cause ↔ sources.findSome? DocumentSource.interruption? = some cause := by
  rw [← readFrom_eq_error_iff 0, collect]
  cases readFrom 0 sources <;> simp [bind, Except.bind, pure, Except.pure]

/-- What is collected accounts for every source: each contributes one document or one diagnostic,
in the order of the sources. It does exactly if all texts are read to their end, and otherwise the
first one that is not ends the collection. -/
theorem collect_accounts_iff (sources : List DocumentSource) :
    ((∃ collection outcomes, collect sources = .ok collection ∧ Accounts sources outcomes collection) ↔
        ∀ source ∈ sources, source.interruption? = none) ∧
      ∀ cause, collect sources = .error cause ↔
        sources.findSome? DocumentSource.interruption? = some cause := by
  refine ⟨⟨?_, fun ends => ?_⟩, fun cause => collect_eq_error_iff⟩
  · rintro ⟨collection, outcomes, collects, _⟩
    refine List.findSome?_eq_none_iff.1 (Option.eq_none_iff_forall_ne_some.2 fun cause found => ?_)
    cases collects.symm.trans (collect_eq_error_iff.2 found)
  · cases reads : readFrom 0 sources with
    | error cause =>
        have found := (readFrom_eq_error_iff 0).1 reads
        rw [List.findSome?_eq_none_iff.2 ends] at found
        cases found
    | ok readings =>
        have collects : collect sources = .ok (gather .empty readings) := by
          rw [collect, reads]
          rfl
        obtain ⟨outcomes, after⟩ := gather_accountsAfter labels_nil reads
        exact ⟨_, outcomes, collects, after.accounts (collected_documents collects).distinct⟩

/-- Sources of each kind: a query, a text that is no document, a document without a name, and two
that take the name of the query. -/
def mixedSources : List DocumentSource :=
  ["query A \x7b a \x7d", "query \x7b", "\x7b a \x7d", "query A \x7b b \x7d",
    "fragment A on T \x7b a \x7d"].map Compilation.textSource

theorem collect_accounts_iff_mixed :
    ∃ collection outcomes, collect mixedSources = .ok collection ∧
      Accounts mixedSources outcomes collection ∧ outcomes.length = 5 ∧
      (∃ document, outcomes[0]? = some (.ok document)) ∧ collection.fatal = true := by
  obtain ⟨collection, outcomes, collects, accounts⟩ :=
    (collect_accounts_iff mixedSources).1.2 (by decide +kernel)
  have first : DeclaredAt mixedSources 0 "A" := ⟨_, rfl, by decide +kernel⟩
  have second : DeclaredAt mixedSources 3 "A" := ⟨_, rfl, by decide +kernel⟩
  refine ⟨collection, outcomes, collects, accounts, accounts.one_each, ?_, ?_⟩
  · exact (accounts.document_iff 0).2 ⟨"A", first, fun earlier before => absurd before earlier.not_lt_zero⟩
  · exact accounts.fatal_iff.2 ⟨"A", 0, 3, by decide, first, second⟩

/-- A query, and one that passes a string over two lines: the first line is indented by a blank,
the second by a wide one. -/
def unevenSources : List DocumentSource :=
  ["query A \x7b a \x7d", "query B \x7b a(x: \"\"\"\n one\n\u3000two\n\"\"\") \x7d"].map
    Compilation.textSource

/-- The second text ends the collection, and the document of the first is lost with it. -/
theorem document_lost_to_uneven_string :
    DeclaredAt unevenSources 0 "A" ∧ collect unevenSources = .error ⟨⟨1, 16⟩⟩ ∧
      ¬ ∃ collection outcomes, collect unevenSources = .ok collection ∧
        Accounts unevenSources outcomes collection := by
  have interrupted : collect unevenSources = .error ⟨⟨1, 16⟩⟩ :=
    collect_eq_error_iff.2 (by decide +kernel)
  refine ⟨⟨_, rfl, by decide +kernel⟩, interrupted, ?_⟩
  · rintro ⟨collection, outcomes, collects, _⟩
    cases interrupted.symm.trans collects

end Collection

end GraphqlStore
