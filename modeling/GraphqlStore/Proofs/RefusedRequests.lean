import GraphqlStore.Files.Publication
import GraphqlStore.Proofs.VolumeRequests

/-!
File systems that may refuse. Such a system has a volume in it. It answers as
that volume does, or it refuses a request, for any reason and without effect;
it never refuses to take a change back. Main statement: a volume whose requests
are refused as a plan has it is such a system, for every plan.
-/

set_option autoImplicit false

namespace GraphqlStore

/-! ## What work ensures -/

section Ensures

variable {σ ε α β : Type} {view : σ → Volume}

/-- Work that starts on a volume of the first kind ends with a result and a volume of the second. -/
def Ensures (view : σ → Volume) (before : Volume → Prop) (work : StateM σ α)
    (after : α → Volume → Prop) : Prop :=
  ∀ state, before (view state) → after (work state).1 (view (work state).2)

/-- What holds after success, or else after failure. -/
def EndsIn (done : α → Volume → Prop) (failed : Volume → Prop) : Except ε α → Volume → Prop
  | .ok value, volume => done value volume
  | .error _, volume => failed volume

namespace Ensures

variable {before : Volume → Prop}

theorem pure {after : α → Volume → Prop} {value : α} (holds : ∀ volume, before volume → after value volume) :
    Ensures view before (pure value) after :=
  fun state => holds (view state)

theorem bind {between : α → Volume → Prop} {after : β → Volume → Prop} {work : StateM σ α}
    {next : α → StateM σ β} (first : Ensures view before work between)
    (second : ∀ value, Ensures view (between value) (next value) after) :
    Ensures view before (work >>= next) after :=
  fun state holds => second _ _ (first state holds)

theorem imp {after weaker : α → Volume → Prop} {work : StateM σ α}
    (ensures : Ensures view before work after)
    (weaken : ∀ value volume, after value volume → weaker value volume) :
    Ensures view before work weaker :=
  fun state holds => weaken _ _ (ensures state holds)

theorem of_imp {stronger : Volume → Prop} {after : α → Volume → Prop} {work : StateM σ α}
    (ensures : Ensures view before work after) (weaken : ∀ volume, stronger volume → before volume) :
    Ensures view stronger work after :=
  fun state holds => ensures state (weaken _ holds)

theorem assuming {fact : Prop} {after : α → Volume → Prop} {work : StateM σ α}
    (implied : ∀ volume, before volume → fact) (ensures : fact → Ensures view before work after) :
    Ensures view before work after :=
  fun state holds => ensures (implied _ holds) state holds

variable {failed : Volume → Prop}

theorem weaken {after : α → Volume → Prop} {weaker : Volume → Prop} {work : StateM σ (Except ε α)}
    (ensures : Ensures view before work (EndsIn after failed))
    (weaken : ∀ volume, failed volume → weaker volume) :
    Ensures view before work (EndsIn after weaker) := by
  refine ensures.imp fun result volume holds => ?_
  cases result with
  | ok value => exact holds
  | error reason => exact weaken volume holds

theorem andThen {between : α → Volume → Prop} {after : β → Volume → Prop}
    {work : ExceptT ε (StateM σ) α} {next : α → ExceptT ε (StateM σ) β}
    (first : Ensures view before work.run (EndsIn between failed))
    (second : ∀ value, Ensures view (between value) (next value).run (EndsIn after failed)) :
    Ensures view before (work >>= next).run (EndsIn after failed) := by
  have joined : (work >>= next).run = work.run >>= ExceptT.bindCont next := rfl
  rw [joined]
  refine first.bind fun result => ?_
  cases result with
  | ok value => exact second value
  | error reason => exact pure fun _ holds => holds

theorem lift {after : α → Volume → Prop} {query : StateM σ α} (ensures : Ensures view before query after) :
    Ensures view before (liftM query : ExceptT ε (StateM σ) α).run (EndsIn after failed) :=
  fun state holds => ensures state holds

theorem request {after : α → Volume → Prop} {reject : ε → PublishError}
    {result : StateM σ (Except ε α)} (ensures : Ensures view before result (EndsIn after failed)) :
    Ensures view before (Publication.request reject result).run (EndsIn after failed) := by
  have joined : (Publication.request reject result).run =
      result >>= fun answer => Pure.pure (answer.mapError reject) := rfl
  rw [joined]
  refine ensures.bind fun result => ?_
  cases result with
  | ok value => exact pure fun _ holds => holds
  | error reason => exact pure fun _ holds => holds

theorem throw {after : α → Volume → Prop} {reason : ε} (holds : ∀ volume, before volume → failed volume) :
    Ensures view before (throw reason : ExceptT ε (StateM σ) α).run (EndsIn after failed) :=
  pure holds

theorem forM {kept : List α → Volume → Prop} {step : α → ExceptT ε (StateM σ) Unit}
    (each : ∀ earlier item, Ensures view (kept earlier) (step item).run
      (EndsIn (fun _ => kept (earlier ++ [item])) failed))
    (earlier items : List α) :
    Ensures view (kept earlier) (items.forM step).run
      (EndsIn (fun _ => kept (earlier ++ items)) failed) := by
  induction items generalizing earlier with
  | nil =>
    rw [List.append_nil]
    exact pure fun _ holds => holds
  | cons item rest ih =>
    refine (each earlier item).andThen fun _ => ?_
    have later := ih (earlier ++ [item])
    rwa [List.append_assoc, List.singleton_append] at later

end Ensures

end Ensures

/-! ## Requests that may be refused -/

section Requests

variable {σ ε α : Type} {view : σ → Volume}

/-- A request is answered as the volume answers it. -/
def Mirrored (view : σ → Volume) (request : StateM σ α) (model : StateM Volume α) (state : σ) : Prop :=
  (request state).1 = (model (view state)).1 ∧ view (request state).2 = (model (view state)).2

def Refused (view : σ → Volume) (request : StateM σ (Except ε α)) (state : σ) : Prop :=
  (∃ reason, (request state).1 = .error reason) ∧ view (request state).2 = view state

/-- A file system that has a volume, and answers as it does or refuses. What takes changes back is
not refused. The names of scratch directories are new, also among the given ones. -/
structure Refusing [FileSystem (StateM σ)] (view : σ → Volume) (used : List String) : Prop where
  isDirectory : ∀ path, ∀ state : σ,
    Mirrored view (FileSystem.isDirectory path) (FileSystem.isDirectory path) state
  isPresent : ∀ path, ∀ state : σ,
    Mirrored view (FileSystem.isPresent path) (FileSystem.isPresent path) state
  listing : ∀ path, ∀ state : σ,
    Mirrored view (FileSystem.listing path) (FileSystem.listing path) state ∨
      Refused view (FileSystem.listing path) state
  makeDirectories : ∀ path, ∀ state : σ,
    Mirrored view (FileSystem.makeDirectories path) (FileSystem.makeDirectories path) state ∨
      Refused view (FileSystem.makeDirectories path) state
  write : ∀ path content, ∀ state : σ,
    Mirrored view (FileSystem.write path content) (FileSystem.write path content) state ∨
      Refused view (FileSystem.write path content) state
  move : ∀ source target, ∀ state : σ,
    Mirrored view (FileSystem.move source target) (FileSystem.move source target) state ∨
      Refused view (FileSystem.move source target) state
  restore : ∀ source target, ∀ state : σ,
    Mirrored view (FileSystem.restore source target) (FileSystem.restore source target) state
  discard : ∀ path, ∀ state : σ,
    Mirrored view (FileSystem.discard path) (FileSystem.discard path) state
  makeScratch : ∀ root, ∀ state : σ,
    Refused view (FileSystem.makeScratch root Publication.scratchStart) state ∨
      ∃ ending, Publication.scratchStart ++ ending ∉ used ∧
        Mirrored view (FileSystem.makeScratch root Publication.scratchStart)
          (Volume.change (root.join (.ofNames [Publication.scratchStart ++ ending])) fun volume =>
            volume.makeDirectory (root.join (.ofNames [Publication.scratchStart ++ ending]))) state
  removeScratch : ∀ path, ∀ state : σ,
    Mirrored view (FileSystem.removeScratch path) (FileSystem.removeScratch path) state

variable {before : Volume → Prop}

theorem ensures_of_mirrored {request : StateM σ α} {model : StateM Volume α}
    (answers : ∀ state, Mirrored view request model state) {after : α → Volume → Prop}
    (holds : ∀ volume, before volume → after (model volume).1 (model volume).2) :
    Ensures view before request after := by
  intro state starts
  obtain ⟨result, reached⟩ := answers state
  rw [result, reached]
  exact holds (view state) starts

theorem ensures_of_refusing {request : StateM σ (Except ε α)} {model : StateM Volume (Except ε α)}
    (answers : ∀ state, Mirrored view request model state ∨ Refused view request state)
    {done : α → Volume → Prop} {failed : Volume → Prop}
    (granted : ∀ volume, before volume → EndsIn done failed (model volume).1 (model volume).2)
    (refused : ∀ volume, before volume → failed volume) :
    Ensures view before request (EndsIn done failed) := by
  intro state starts
  cases answers state with
  | inl answered =>
    rw [answered.1, answered.2]
    exact granted (view state) starts
  | inr rejected =>
    obtain ⟨⟨reason, result⟩, same⟩ := rejected
    rw [result, same]
    exact refused (view state) starts

theorem endsIn_change {value : α} {attempt : Volume → Except FileError Volume} {volume : Volume}
    {done : α → Volume → Prop} {failed : Volume → Prop}
    (granted : ∀ after, attempt volume = .ok after → done value after) (refused : failed volume) :
    EndsIn done failed (Volume.change value attempt volume).1
      (Volume.change value attempt volume).2 := by
  rw [Volume.change]
  cases attempted : attempt volume with
  | ok after => exact granted after attempted
  | error reason => exact refused

namespace Refusing

variable [FileSystem (StateM σ)] {used : List String}

theorem ensures_makeDirectories (system : Refusing view used) (path : Path)
    (stable : ∀ volume after, before volume → Volume.Grown volume after → before after) :
    Ensures view before (FileSystem.makeDirectories path) (EndsIn (fun _ => before) before) := by
  apply ensures_of_refusing (system.makeDirectories path)
  · intro volume holds
    have grown := stable volume _ holds (Volume.Growing.makeDirectories path volume)
    cases (Volume.makeDirectories path volume).1 with
    | ok done => exact grown
    | error reason => exact grown
  · exact fun _ holds => holds

theorem ensures_makeParent (system : Refusing view used) (path : Path)
    (stable : ∀ volume after, before volume → Volume.Grown volume after → before after) :
    Ensures view before (Publication.makeParent path).run (EndsIn (fun _ => before) before) := by
  apply Ensures.request
  rw [FileSystem.makeParent]
  cases path.parent? with
  | none => exact Ensures.pure fun _ holds => holds
  | some parent =>
    refine (system.ensures_makeDirectories parent stable).bind fun result => ?_
    cases result with
    | ok done => exact Ensures.pure fun _ holds => holds
    | error reason => exact Ensures.pure fun _ holds => holds

theorem ensures_write (system : Refusing view used) {path : Path} {content : ByteArray}
    {after : Volume → Prop}
    (granted : ∀ volume written, before volume → volume.write path content = .ok written →
      after written) :
    Ensures view before (FileSystem.write path content) (EndsIn (fun _ => after) before) := by
  apply ensures_of_refusing (system.write path content)
  · intro volume holds
    exact endsIn_change (fun written => granted volume written holds) holds
  · exact fun _ holds => holds

theorem ensures_move (system : Refusing view used) {source target : Path} {after : Volume → Prop}
    (granted : ∀ volume moved, before volume → volume.move source target = .ok moved → after moved) :
    Ensures view before (FileSystem.move source target) (EndsIn (fun _ => after) before) := by
  apply ensures_of_refusing (system.move source target)
  · intro volume holds
    exact endsIn_change (fun moved => granted volume moved holds) holds
  · exact fun _ holds => holds

theorem ensures_makeScratch (system : Refusing view used) {root : Path}
    {done : Path → Volume → Prop}
    (granted : ∀ volume made ending, before volume →
      Publication.scratchStart ++ ending ∉ used →
      volume.makeDirectory (root.join (.ofNames [Publication.scratchStart ++ ending])) = .ok made →
      done (root.join (.ofNames [Publication.scratchStart ++ ending])) made) :
    Ensures view before (FileSystem.makeScratch root Publication.scratchStart) (EndsIn done before) := by
  intro state holds
  cases system.makeScratch root state with
  | inl refused =>
    obtain ⟨⟨reason, result⟩, same⟩ := refused
    rw [result, same]
    exact holds
  | inr named =>
    obtain ⟨ending, unused, result, reached⟩ := named
    rw [result, reached]
    exact endsIn_change (fun made => granted (view state) made ending holds unused) holds

end Refusing

end Requests

/-! ## Volumes, with and without refusals -/

theorem Volume.makeScratch_eq (root : Path) (start : String) (volume : Volume) :
    ∃ ending, (FileSystem.makeScratch root start : StateM Volume (Except FileError Path)) volume =
      Volume.change (root.join (.ofNames [start ++ ending]))
        (fun volume => volume.makeDirectory (root.join (.ofNames [start ++ ending]))) volume :=
  ⟨_, rfl⟩

theorem Volume.refusing {used : List String}
    (unused : ∀ ending, Publication.scratchStart ++ ending ∉ used) :
    Refusing (id : Volume → Volume) used where
  isDirectory _ _ := ⟨rfl, rfl⟩
  isPresent _ _ := ⟨rfl, rfl⟩
  listing _ _ := .inl ⟨rfl, rfl⟩
  makeDirectories _ _ := .inl ⟨rfl, rfl⟩
  write _ _ _ := .inl ⟨rfl, rfl⟩
  move _ _ _ := .inl ⟨rfl, rfl⟩
  restore _ _ _ := ⟨rfl, rfl⟩
  discard _ _ := ⟨rfl, rfl⟩
  makeScratch root volume := by
    obtain ⟨ending, same⟩ := Volume.makeScratch_eq root Publication.scratchStart volume
    refine .inr ⟨ending, unused ending, ?_⟩
    rw [Mirrored, same]
    exact ⟨rfl, rfl⟩
  removeScratch _ _ := ⟨rfl, rfl⟩

/-- A volume with a plan: for each of the next requests, why it is refused, if it is. -/
structure PlannedVolume where
  volume : Volume
  plan : List (Option FileError)

namespace PlannedVolume

variable {ε α : Type}

def perform (work : StateM Volume α) : StateM PlannedVolume α := fun state =>
  ((work state.volume).1, ⟨(work state.volume).2, state.plan⟩)

def attempt (refuse : FileError → ε) (request : StateM Volume (Except ε α)) :
    StateM PlannedVolume (Except ε α) := fun state =>
  match state.plan.head?.join with
  | some reason => (.error (refuse reason), ⟨state.volume, state.plan.tail⟩)
  | none => ((request state.volume).1, ⟨(request state.volume).2, state.plan.tail⟩)

instance : FileSystem (StateM PlannedVolume) where
  isDirectory path := perform (FileSystem.isDirectory path)
  isPresent path := perform (FileSystem.isPresent path)
  read path := perform (FileSystem.read path)
  listing path := attempt (fun reason => (path, reason)) (FileSystem.listing path)
  makeDirectories path := attempt id (FileSystem.makeDirectories path)
  write path content := attempt id (FileSystem.write path content)
  move source target := attempt id (FileSystem.move source target)
  restore source target := perform (FileSystem.restore source target)
  discard path := perform (FileSystem.discard path)
  makeScratch path start := attempt id (FileSystem.makeScratch path start)
  removeScratch path := perform (FileSystem.removeScratch path)

theorem attempt_answers (refuse : FileError → ε) (request : StateM Volume (Except ε α))
    (state : PlannedVolume) :
    Mirrored volume (attempt refuse request) request state ∨
      Refused volume (attempt refuse request) state := by
  cases next : state.plan.head?.join with
  | none =>
    left
    simp [Mirrored, attempt, next]
  | some reason =>
    right
    simp [Refused, attempt, next]

theorem refusing {used : List String}
    (unused : ∀ ending, Publication.scratchStart ++ ending ∉ used) : Refusing volume used where
  isDirectory _ _ := ⟨rfl, rfl⟩
  isPresent _ _ := ⟨rfl, rfl⟩
  listing _ := attempt_answers _ _
  makeDirectories _ := attempt_answers _ _
  write _ _ := attempt_answers _ _
  move _ _ := attempt_answers _ _
  restore _ _ _ := ⟨rfl, rfl⟩
  discard _ _ := ⟨rfl, rfl⟩
  makeScratch root state := by
    cases attempt_answers id (FileSystem.makeScratch root Publication.scratchStart) state with
    | inl answered =>
      obtain ⟨ending, same⟩ := Volume.makeScratch_eq root Publication.scratchStart state.volume
      rw [Mirrored, same] at answered
      exact .inr ⟨ending, unused ending, answered⟩
    | inr refused => exact .inl refused
  removeScratch _ _ := ⟨rfl, rfl⟩

end PlannedVolume

end GraphqlStore
