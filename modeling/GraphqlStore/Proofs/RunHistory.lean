import GraphqlStore.Proofs.CompiledRun

/-!
The history of a run: what each pass was given and what it left. Passes are
arbitrary functions here. Every pass is given the fragments of the documents as
the pass before left them; a run in which the flag is up when a pass is about to
start reports the cancellation and nothing else, and any other run goes through
all passes and reports what they found, in their order. A whole run succeeds
only if nothing went wrong in any part of it and the flag stayed down to its
end.
-/

set_option autoImplicit false

namespace GraphqlStore

namespace Pipeline

/-- One pass of a run: what it was given and what it left. -/
structure Turn where
  pass : Pass
  context : PassContext
  given : List Document
  result : PassResult

/-- The turns that lead from documents to others. -/
inductive History (config : Config) : List Document → List Turn → List Document → Prop where
  | done (documents : List Document) : History config documents [] documents
  | turn {documents revised : List Document} {turn : Turn} {later : List Turn}
      (context : turn.context = ⟨config, FragmentRegistry.ofDocuments documents⟩)
      (given : turn.given = documents)
      (result : turn.result = turn.pass.run turn.context turn.given)
      (rest : History config turn.result.documents later revised) :
      History config documents (turn :: later) revised

def raised (cancelled : Bool) (turns : List Turn) : Bool :=
  cancelled || turns.any fun turn => turn.result.cancels

/-- What the passes of some turns have found, in their order. -/
def reported (turns : List Turn) : List Diagnostic := turns.flatMap fun turn => turn.result.errors

/-- The flag is up when some pass is about to start. -/
def CancelledBefore (config : Config) (passes : List Pass) (documents : List Document)
    (cancelled : Bool) : Prop :=
  ∃ before pass after turns revised, passes = before ++ pass :: after ∧
    turns.map Turn.pass = before ∧ History config documents turns revised ∧
    raised cancelled turns = true

def turnOf (config : Config) (pass : Pass) (documents : List Document) : Turn :=
  let context := ⟨config, FragmentRegistry.ofDocuments documents⟩
  ⟨pass, context, documents, pass.run context documents⟩

theorem history_cons_iff {config : Config} {documents revised : List Document} {turn : Turn}
    {later : List Turn} :
    History config documents (turn :: later) revised ↔
      turn = turnOf config turn.pass documents ∧
        History config turn.result.documents later revised := by
  constructor
  · intro history
    cases history with
    | turn context given result rest =>
      obtain ⟨pass, _, _, _⟩ := turn
      dsimp only at context given result
      subst context given result
      exact ⟨rfl, rest⟩
  · intro both
    obtain ⟨same, rest⟩ := both
    rw [same] at rest ⊢
    exact .turn rfl rfl rfl rest

theorem exists_history (config : Config) (passes : List Pass) (documents : List Document) :
    ∃ turns revised, turns.map Turn.pass = passes ∧ History config documents turns revised := by
  induction passes generalizing documents with
  | nil => exact ⟨[], documents, rfl, .done documents⟩
  | cons pass rest ih =>
    obtain ⟨later, revised, passes, history⟩ := ih (turnOf config pass documents).result.documents
    exact ⟨turnOf config pass documents :: later, revised, congrArg (pass :: ·) passes,
      history_cons_iff.2 ⟨rfl, history⟩⟩

theorem raised_cons (cancelled : Bool) (turn : Turn) (later : List Turn) :
    raised cancelled (turn :: later) = raised (cancelled || turn.result.cancels) later := by
  rw [raised, raised, List.any_cons, Bool.or_assoc]

theorem reported_cons (turn : Turn) (later : List Turn) :
    reported (turn :: later) = turn.result.errors ++ reported later :=
  List.flatMap_cons

theorem cancelledBefore_cons_iff {config : Config} {pass : Pass} {rest : List Pass}
    {documents : List Document} {cancelled : Bool} :
    CancelledBefore config (pass :: rest) documents cancelled ↔
      cancelled = true ∨
        CancelledBefore config rest (turnOf config pass documents).result.documents
          (cancelled || (turnOf config pass documents).result.cancels) := by
  constructor
  · intro stopped
    obtain ⟨before, next, after, turns, revised, split, passes, history, up⟩ := stopped
    cases turns with
    | nil => exact .inl (by simpa [raised] using up)
    | cons turn later =>
      obtain ⟨same, history⟩ := history_cons_iff.1 history
      subst before
      cases split
      rw [same] at history
      rw [raised_cons, same] at up
      exact .inr ⟨_, next, after, later, revised, rfl, rfl, history, up⟩
  · intro cases
    rcases cases with up | later
    · exact ⟨[], pass, rest, [], documents, rfl, rfl, .done documents, by simp [raised, up]⟩
    · obtain ⟨before, next, after, turns, revised, split, passes, history, up⟩ := later
      refine ⟨pass :: before, next, after, turnOf config pass documents :: turns, revised,
        congrArg (pass :: ·) split, congrArg (pass :: ·) passes, history_cons_iff.2 ⟨rfl, history⟩, ?_⟩
      rw [raised_cons]
      exact up

theorem advance_eq (config : Config) (progress : Progress) (pass : Pass) :
    advance config progress pass =
      let result := (turnOf config pass progress.documents).result
      ⟨result.documents, progress.errors ++ result.errors, progress.cancelled || result.cancels⟩ :=
  rfl

theorem run?_eq_none_iff {config : Config} {passes : List Pass} {progress : Progress} :
    run? config progress passes = none ↔
      CancelledBefore config passes progress.documents progress.cancelled := by
  induction passes generalizing progress with
  | nil =>
    constructor
    · intro stopped
      cases stopped
    · intro stopped
      obtain ⟨before, pass, after, _, _, split, _⟩ := stopped
      cases before <;> cases split
  | cons pass rest ih =>
    rw [cancelledBefore_cons_iff, run?]
    cases up : progress.cancelled with
    | true => simp
    | false =>
      rw [if_neg (by simp), ih, advance_eq, up]
      simp

theorem run?_eq_some {config : Config} {turns : List Turn} {revised : List Document}
    {progress reached : Progress} (ran : run? config progress (turns.map Turn.pass) = some reached)
    (history : History config progress.documents turns revised) :
    reached = ⟨revised, progress.errors ++ reported turns, raised progress.cancelled turns⟩ := by
  induction turns generalizing progress with
  | nil =>
    cases ran
    cases history
    simp [reported, raised]
  | cons turn later ih =>
    obtain ⟨same, history⟩ := history_cons_iff.1 history
    rw [List.map_cons, run?] at ran
    split at ran
    · cases ran
    · rw [advance_eq, ← same] at ran
      rw [ih ran history, raised_cons, reported_cons, List.append_assoc]

theorem not_cancelledBefore_of_raised {config : Config} {turns : List Turn}
    {documents revised : List Document} {cancelled : Bool}
    (history : History config documents turns revised) (down : raised cancelled turns = false) :
    ¬ CancelledBefore config (turns.map Turn.pass) documents cancelled := by
  induction turns generalizing documents cancelled with
  | nil =>
    intro stopped
    obtain ⟨before, pass, after, _, _, split, _⟩ := stopped
    cases before <;> cases split
  | cons turn later ih =>
    obtain ⟨same, history⟩ := history_cons_iff.1 history
    rw [raised_cons] at down
    rw [List.map_cons, cancelledBefore_cons_iff, ← same]
    intro stopped
    rcases stopped with up | stopped
    · rw [up, raised, Bool.true_or, Bool.true_or] at down
      cases down
    · exact ih history down stopped

theorem run_of_cancelledBefore {config : Config} {passes : List Pass} {documents : List Document}
    {cancelled : Bool} (stopped : CancelledBefore config passes documents cancelled) :
    run config passes documents cancelled = .error [Diagnostic.cancelled] := by
  have none : run? config ⟨documents, [], cancelled⟩ passes = none := run?_eq_none_iff.2 stopped
  rw [run, none]

theorem run_of_history {config : Config} {turns : List Turn} {documents revised : List Document}
    {cancelled : Bool}
    (runs : ¬ CancelledBefore config (turns.map Turn.pass) documents cancelled)
    (history : History config documents turns revised) :
    run config (turns.map Turn.pass) documents cancelled =
      if reported turns = [] then .ok (revised, raised cancelled turns) else .error (reported turns) := by
  cases ran : run? config ⟨documents, [], cancelled⟩ (turns.map Turn.pass) with
  | none => exact absurd (run?_eq_none_iff.1 ran) runs
  | some reached =>
    have final := run?_eq_some ran history
    subst final
    rw [run, ran]
    cases found : reported turns <;> simp

/-- A run of passes succeeds exactly if the flag is down whenever a pass is about to start and no
pass has found anything. -/
theorem run_eq_ok_iff {config : Config} {passes : List Pass} {documents : List Document}
    {cancelled : Bool} {checked : List Document × Bool} :
    run config passes documents cancelled = .ok checked ↔
      ¬ CancelledBefore config passes documents cancelled ∧
        ∃ turns, turns.map Turn.pass = passes ∧ History config documents turns checked.1 ∧
          reported turns = [] ∧ raised cancelled turns = checked.2 := by
  constructor
  · intro ran
    have runs : ¬ CancelledBefore config passes documents cancelled := by
      intro stopped
      rw [run_of_cancelledBefore stopped] at ran
      cases ran
    obtain ⟨turns, revised, rfl, history⟩ := exists_history config passes documents
    rw [run_of_history runs history] at ran
    split at ran
    · cases ran
      exact ⟨runs, turns, rfl, history, by assumption, rfl⟩
    · cases ran
  · intro all
    obtain ⟨runs, turns, rfl, history, silent, flag⟩ := all
    rw [run_of_history runs history, if_pos silent, flag]

end Pipeline

namespace Compilation

open Pipeline

private theorem runWatched_of_fatal {config : Config} {passes : List Pass} {cancelled : Bool}
    {watch : Watch} {batch : SourceBatch} {collection : Collection}
    (collects : Collection.collect batch.sources = .ok collection) (fatal : collection.fatal = true) :
    runWatched config passes cancelled watch batch =
      .ok (.error (batch.errors ++ collection.errors)) := by
  rw [runWatched, collects]
  simp [bind, Except.bind, pure, Except.pure, runOn, fatal]

theorem runOn_eq_ok_iff {config : Config} {passes : List Pass} {cancelled : Bool} {watch : Watch}
    {earlier : List Diagnostic} {collection : Collection} {output : CompileOutput} :
    runOn config passes cancelled watch earlier collection = .ok output ↔
      collection.fatal = false ∧ cancelled = false ∧ earlier = [] ∧ collection.errors = [] ∧
        (∃ documents, Pipeline.run config passes collection.documents cancelled =
          .ok (documents, false) ∧ emitWatched config watch documents = .ok output) := by
  unfold runOn
  cases fatal : collection.fatal with
  | true => simp
  | false =>
    simp only [Bool.false_eq_true, if_false, unlessCancelled_eq_ok_iff, true_and, and_congr_right_iff]
    intro down
    cases checks : check config passes cancelled (earlier ++ collection.errors)
        collection.documents with
    | error found =>
      simp only [bind, Except.bind, reduceCtorEq, false_iff]
      intro all
      obtain ⟨noneRead, noneCollected, documents, ran, _⟩ := all
      have silent : earlier ++ collection.errors = [] :=
        List.append_eq_nil_iff.2 ⟨noneRead, noneCollected⟩
      cases checks.symm.trans (check_eq_ok_iff.2 ⟨ran, silent⟩)
    | ok checked =>
      obtain ⟨ran, silent⟩ := check_eq_ok_iff.1 checks
      obtain ⟨noneRead, noneCollected⟩ := List.append_eq_nil_iff.1 silent
      obtain ⟨documents, flag⟩ := checked
      simp only [bind, Except.bind, unlessCancelled_eq_ok_iff, ran, noneRead, noneCollected, true_and,
        Except.ok.injEq, Prod.mk.injEq]
      constructor
      · intro both
        exact ⟨documents, ⟨rfl, both.1⟩, both.2⟩
      · intro found
        obtain ⟨_, ⟨rfl, down⟩, emits⟩ := found
        exact ⟨down, emits⟩

theorem runWatched_eq_ok_iff {config : Config} {passes : List Pass} {cancelled : Bool} {watch : Watch}
    {batch : SourceBatch} {output : CompileOutput} :
    runWatched config passes cancelled watch batch = .ok (.ok output) ↔
      batch.errors = [] ∧ ∃ collection turns, Collection.collect batch.sources = .ok collection ∧
        collection.errors = [] ∧ turns.map Turn.pass = passes ∧
        History config collection.documents turns output.documents ∧ reported turns = [] ∧
        Generation.generateAll config output.documents = .ok output.artifacts ∧
        Store.emit config.stores (storeNames output.documents) output.artifacts = .ok output.files ∧
        raised cancelled turns = false ∧ watch.generated = false ∧ watch.written = false := by
  unfold runWatched
  cases collects : Collection.collect batch.sources with
  | error cause => simp [bind, Except.bind]
  | ok collection =>
    simp only [bind, Except.bind, pure, Except.pure, Except.ok.injEq, runOn_eq_ok_iff]
    constructor
    · intro succeeds
      obtain ⟨_, _, noneRead, noneCollected, documents, ran, emits⟩ := succeeds
      obtain ⟨_, turns, passes, history, silent, down⟩ := Pipeline.run_eq_ok_iff.1 ran
      obtain ⟨⟨generates, writes, rfl⟩, early, late⟩ := emitWatched_eq_ok_iff.1 emits
      exact ⟨noneRead, collection, turns, rfl, noneCollected, passes, history, silent, generates,
        writes, down, early, late⟩
    · intro succeeds
      obtain ⟨noneRead, _, turns, rfl, noneCollected, rfl, history, silent, generates, writes, down,
        early, late⟩ := succeeds
      have start : cancelled = false := (Bool.or_eq_false_iff.1 down).1
      refine ⟨Collection.fatal_of_errors_eq_nil collects noneCollected, start, noneRead,
        noneCollected, output.documents, ?_, ?_⟩
      · exact Pipeline.run_eq_ok_iff.2
          ⟨not_cancelledBefore_of_raised history down, turns, rfl, history, silent, down⟩
      · exact emitWatched_eq_ok_iff.2 ⟨⟨generates, writes, rfl⟩, early, late⟩

/-- Passes are run all or not at all, and a run succeeds as a whole or not at all, whatever the passes
do and whenever the flag is raised. -/
theorem runs_all_or_nothing (config : Config) (passes : List Pass) (cancelled : Bool) :
    (∀ documents,
      (CancelledBefore config passes documents cancelled →
        Pipeline.run config passes documents cancelled = .error [Diagnostic.cancelled]) ∧
      (¬ CancelledBefore config passes documents cancelled →
        ∃ turns revised, turns.map Turn.pass = passes ∧ History config documents turns revised ∧
          Pipeline.run config passes documents cancelled =
            if reported turns = [] then .ok (revised, raised cancelled turns)
            else .error (reported turns))) ∧
    (∀ watch batch collection, Collection.collect batch.sources = .ok collection →
      collection.fatal = true →
        runWatched config passes cancelled watch batch =
          .ok (.error (batch.errors ++ collection.errors))) ∧
    ∀ watch batch output, runWatched config passes cancelled watch batch = .ok (.ok output) ↔
      batch.errors = [] ∧ ∃ collection turns, Collection.collect batch.sources = .ok collection ∧
        collection.errors = [] ∧ turns.map Turn.pass = passes ∧
        History config collection.documents turns output.documents ∧ reported turns = [] ∧
        Generation.generateAll config output.documents = .ok output.artifacts ∧
        Store.emit config.stores (storeNames output.documents) output.artifacts = .ok output.files ∧
        raised cancelled turns = false ∧ watch.generated = false ∧ watch.written = false := by
  refine ⟨?_, ?_, ?_⟩
  · intro documents
    refine ⟨run_of_cancelledBefore, ?_⟩
    intro runs
    obtain ⟨turns, revised, rfl, history⟩ := exists_history config passes documents
    exact ⟨turns, revised, rfl, history, run_of_history runs history⟩
  · intro watch batch collection collects fatal
    exact runWatched_of_fatal collects fatal
  · intro watch batch output
    exact runWatched_eq_ok_iff

/-- A pass that cancels keeps its reports from being told, but only if another pass is to follow. -/
example (config : Config) (documents : List Document) (found : Diagnostic) (next : Pass) :
    Pipeline.run config [⟨"stop", fun _ given => ⟨given, [found], true⟩⟩, next] documents false =
        .error [Diagnostic.cancelled] ∧
      Pipeline.run config [⟨"stop", fun _ given => ⟨given, [found], true⟩⟩] documents false =
        .error [found] :=
  ⟨rfl, rfl⟩

end Compilation

end GraphqlStore
