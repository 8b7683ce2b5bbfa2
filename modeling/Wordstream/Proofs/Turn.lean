import Wordstream.Proofs.Line
import Wordstream.Proofs.Round

/-!
# Polling the parts of a line

A line is fed by a source, and each of its stages belongs to a task. Polling the task of the
source writes a portion of its values to the entrance and may end it; polling the task of a stage
begins the stage, or finds that the stage has got its result.

## Main results

* `Line.Moment.polls_source` — polling the source
* `Line.Moment.polls_new`, `Line.Moment.polls_begun` — polling a stage for the first time, and again
-/

namespace Wordstream

/-- The work of taking values by a step. -/
def Step.work : Step → Work
  | body activation => .body activation
  | call native args => .call native args

/-- How a source ends that has a result. -/
def Ending.ofResult : Result → Ending
  | .ok _ => .complete
  | .error failure => .fail failure

/-- How far the task of a source has come when it has written the first of some portions. -/
def Progress.behind (portions : List (List Value)) (result : Result) : Progress :=
  match portions.tail with
  | [] => .finished result
  | rest => .writing ⟨rest, .ofResult result⟩

/-- The signals behind those that a source writes with the first of some portions. -/
def History.portion (past : History) (portions : List (List Value)) (result : Result) : History :=
  let written := past.acceptAll ((portions.headD []).map .next)
  match portions.tail with
  | [] => written.accept (.ofResult result)
  | _ => written

theorem History.portion_eq_acceptAll (past : History) (portions : List (List Value))
    (result : Result) : ∃ signals, past.portion portions result = past.acceptAll signals := by
  rw [portion]
  cases portions.tail with
  | nil => exact ⟨_ ++ [.ofResult result], by rw [acceptAll_append]; rfl⟩
  | cons portion rest => exact ⟨_, rfl⟩

/-- How far the task of a stage has come. -/
def Station.progress (x : Station) (flow : Flow) : Progress :=
  match flow.result with
  | some result => .finished result
  | none => .waiting x.stage x.relay

/-- There is who collects at an exit. -/
def Exit.Has (m : Machine) : Exit → Prop
  | kept => True
  | collected ref => m.collectors.Has ref

/-! ## What polls leave alone -/

namespace Machine

variable {m m' : Machine} {things : List Thing}

/-- Tasks stand where they stood if signals were the only matter. -/
theorem Stands.touches {t : Ref .task} {ref : Ref .suspension} {out : Ref .channel}
    {progress : Progress} (stands : m.Stands t ref out progress) (touches : m.Touches things m') :
    m'.Stands t ref out progress where
  has := by rw [touches.tasks]; exact stands.has
  task := by rw [Machine.task, touches.tasks]; exact stands.task
  phase := by rw [suspension, touches.suspensions]; exact stands.phase

theorem Touches.works (touches : m.Touches things m') (refs : List (Ref .suspension)) :
    m.Works refs m' where
  suspension _ _ := by rw [suspension, touches.suspensions]; rfl
  task _ _ _ := by rw [task, touches.tasks]; rfl
  has _ has := by rw [touches.tasks]; exact has

theorem SameBeyondTasks.woken (same : m.SameBeyondTasks m') : m'.woken = m.woken := by
  unfold SameBeyondTasks at same
  rw [← same]

/-- All that signals travel through is kept when only tasks and suspensions change. -/
theorem SameBeyondTasks.keeps (same : m.SameBeyondTasks m') (things : List Thing) :
    m.Keeps things m' := by
  unfold SameBeyondTasks at same
  rw [← same]
  exact ⟨fun _ _ => rfl, fun _ _ => rfl, fun _ _ => id, fun _ _ => rfl, fun _ _ => rfl⟩

end Machine

namespace Line

/-- A line between two polls: the first stages have begun and the next will be made at its place. -/
structure Moment (world : Setting) (exit : Exit) (stations : List Station) (c : Ref .channel)
    (n : Nat) (past : History) (m : Machine) : Prop where
  carries : Carries world exit stations n c past m
  holds : world.Holds m
  admits : world.AdmitsAll past
  place : ∀ x ∈ stations[n]?, m.stages.next = x.stage
  has : exit.Has m

section Moment

variable {world : Setting} {exit : Exit} {stations : List Station} {c : Ref .channel} {n : Nat}
  {past : History} {m m' : Machine}

/-- What is done to tasks and suspensions is no matter. -/
theorem Moment.of_same (moment : Moment world exit stations c n past m)
    (same : m.SameBeyondTasks m') : Moment world exit stations c n past m' where
  carries := moment.carries.keeps (same.keeps _)
  holds := world.of_backdrop (by rw [← same]; rfl) moment.holds
  admits := moment.admits
  place x there := by
    have place := moment.place x there
    rw [← same] at place
    exact place
  has := by
    have has := moment.has
    rw [← same] at has
    cases exit <;> exact has

/-- Nor is it whether somebody has asked to be polled again. -/
theorem Moment.of_woken (moment : Moment world exit stations c n past m) (woken : Bool) :
    Moment world exit stations c n past { m with woken := woken } where
  carries := moment.carries.keeps
    ⟨fun _ _ => rfl, fun _ _ => rfl, fun _ _ => id, fun _ _ => rfl, fun _ _ => rfl⟩
  holds := world.of_backdrop (by rfl) moment.holds
  admits := moment.admits
  place := moment.place
  has := by cases exit <;> exact moment.has

end Moment

/-- Stages are made one after the other. -/
def Placed (stations : List Station) : Prop :=
  ∀ i x y, stations[i]? = some x → stations[i + 1]? = some y → y.stage = ⟨x.stage.index + 1⟩

section Polls

variable {world : Setting} {exit : Exit} {engine : Nat → Engine}
  (handsOver : ∀ fuel ref, (engine (fuel + 1)).deliver ref = deliverAll (engine fuel) ref)
  {stations : List Station} (lawful : ∀ x ∈ stations, x.Lawful engine world) {c : Ref .channel}
  (apart : (things exit stations c).Nodup) {n : Nat} {past : History} {m : Machine}
  {t : Ref .task} {ref : Ref .suspension} {progress : Progress}

include handsOver lawful apart

/-- A signal is written to the entrance. -/
theorem Moment.ends_write (moment : Moment world exit stations c n past m) {signal : Signal}
    (admits : world.AdmitsSignal signal) :
    ∃ m', Ends (fun fuel => emit (engine fuel) c signal) m () m' ∧
      Moment world exit stations c n (past.accept signal) m' ∧
      m.Touches (things exit stations c) m' := by
  obtain ⟨m', ended, carries, passage⟩ :=
    (outlet handsOver lawful apart n).write moment.carries moment.holds admits
  refine ⟨m', ended, ⟨carries, passage.holds, moment.admits.accept admits, fun x there => ?_, ?_⟩,
    passage.touches⟩
  · rw [passage.touches.next_stage, moment.place x there]
  · cases exit with
    | kept => trivial
    | collected ref => exact passage.touches.has_collector ref moment.has

/-- A task writes values to the entrance. -/
theorem Moment.ends_writeValues {values : List Value}
    (admits : ∀ value ∈ values, world.Admits value)
    (moment : Moment world exit stations c n past m) (stands : m.Stands t ref c progress) :
    ∃ m', Ends (fun fuel => writeValues (engine fuel) t values) m () m' ∧
      Moment world exit stations c n (past.acceptAll (values.map .next)) m' ∧
      m.Touches (things exit stations c) m' := by
  induction values generalizing past m with
  | nil => exact ⟨m, .of_eq fun _ => rfl, moment, .refl _ _⟩
  | cons value rest ih =>
    rw [List.forall_mem_cons] at admits
    have admits_value : world.AdmitsSignal (.next value) := admits.1
    obtain ⟨m₁, written, moment₁, touches₁⟩ :=
      moment.ends_write handsOver lawful apart admits_value
    obtain ⟨m', ended, moment', touches'⟩ := ih admits.2 moment₁ (stands.touches touches₁)
    have both : Ends (fun fuel => emit (engine fuel) c (.next value) >>= fun _ =>
        writeValues (engine fuel) t rest) m () m' := written.bind ended
    refine ⟨m', .congr (fun fuel => ?_) both, moment', touches₁.trans touches'⟩
    rw [writeValues, Effect.get_bind_apply, stands.task]

/-- The task of a source ends it. -/
theorem Moment.ends_endSource (moment : Moment world exit stations c n past m)
    (stands : m.Stands t ref c progress) (result : Result) :
    ∃ m', Ends (fun fuel => endSource (engine fuel) t (.ofResult result)) m (some result) m' ∧
      Moment world exit stations c n (past.accept (.ofResult result)) m' ∧
      m'.Stands t ref c (.finished result) ∧ m.Works [ref] m' := by
  have admits : world.AdmitsSignal (.ofResult result) := by cases result <;> trivial
  obtain ⟨m₁, written, moment₁, touches₁⟩ := moment.ends_write handsOver lawful apart admits
  obtain ⟨m', finished, stands', works', same⟩ := (stands.touches touches₁).finishTask result
  have both : Ends (fun fuel => emit (engine fuel) c (.ofResult result) >>= fun _ =>
      finishTask t result) m (some result) m' := written.bind (.of_eq fun _ => finished)
  refine ⟨m', .congr (fun fuel => ?_) both, moment₁.of_same same, stands',
    (touches₁.works _).trans works'⟩
  cases result with
  | ok =>
    change ((get : Effect Machine Machine) >>= _) m = _
    rw [Effect.get_bind_apply, stands.task]
    rfl
  | error failure =>
    change ((get : Effect Machine Machine) >>= _) m = _
    rw [Effect.get_bind_apply, stands.task]
    rfl

/-- The task of a source writes a portion, and ends the source behind the last. -/
theorem Moment.ends_continueSource {portions : List (List Value)}
    (admits : ∀ value ∈ portions.headD [], world.Admits value)
    (moment : Moment world exit stations c n past m) (stands : m.Stands t ref c progress)
    (unfinished : progress.phase = .resuming) (result : Result) :
    ∃ m', Ends (fun fuel => continueSource (engine fuel) t ⟨portions, .ofResult result⟩) m
        (Progress.behind portions result).result? m' ∧
      Moment world exit stations c n (past.portion portions result) m' ∧
      m'.Stands t ref c (Progress.behind portions result) ∧ m.Works [ref] m' ∧
      (portions.tail ≠ [] → m'.woken = true) := by
  obtain ⟨m₁, written, moment₁, touches₁⟩ :=
    moment.ends_writeValues handsOver lawful apart admits stands
  have stands₁ := stands.touches touches₁
  -- Behind the last portion the source ends; otherwise it has itself woken for the next.
  cases pausing : portions.tail with
  | nil =>
    obtain ⟨m', ended, moment', stands', works'⟩ :=
      moment₁.ends_endSource handsOver lawful apart stands₁ result
    have both : Ends (fun fuel => writeValues (engine fuel) t (portions.headD []) >>= fun _ =>
        endSource (engine fuel) t (.ofResult result)) m (some result) m' := written.bind ended
    rw [Progress.behind, History.portion, pausing]
    refine ⟨m', .congr (fun fuel => ?_) both, moment', stands', (touches₁.works _).trans works',
      fun more => (more rfl).elim⟩
    rw [continueSource, pausing]
  | cons portion rest =>
    obtain ⟨m₂, paused, stands₂, works₂, same₂⟩ := stands₁.setProgress
      (show (Progress.writing ⟨portion :: rest, .ofResult result⟩).phase = _ from unfinished.symm)
    have both : Ends (fun fuel => writeValues (engine fuel) t (portions.headD []) >>= fun _ =>
        setProgress t (.writing ⟨portion :: rest, .ofResult result⟩) >>= fun _ =>
          wake >>= fun _ => pure none) m (none : Option Result) { m₂ with woken := true } := by
      refine written.bind (.of_eq fun _ => ?_)
      rw [Effect.bind_apply, paused]
      rfl
    rw [Progress.behind, History.portion, pausing]
    refine ⟨_, .congr (fun fuel => ?_) both, (moment₁.of_same same₂).of_woken true,
      ⟨stands₂.has, stands₂.task, stands₂.phase⟩,
      (touches₁.works _).trans ⟨works₂.suspension, works₂.task, works₂.has⟩, fun _ => rfl⟩
    rw [continueSource, pausing]

/-- Polling the task of a source writes a portion. -/
theorem Moment.polls_source {portions : List (List Value)} {result : Result}
    (admits : ∀ value ∈ portions.headD [], world.Admits value)
    (moment : Moment world exit stations c n past m) (stands : m.Stands t ref c progress)
    (source : progress = .ready (.source ⟨portions, .ofResult result⟩) none ∨
      progress = .writing ⟨portions, .ofResult result⟩) :
    ∃ m', Polls engine (fun e depth => poll e depth t) m (Progress.behind portions result).result?
        m' ∧
      Moment world exit stations c n (past.portion portions result) m' ∧
      m'.Stands t ref c (Progress.behind portions result) ∧ m.Works [ref] m' ∧
      (portions.tail ≠ [] → m'.woken = true) := by
  have unfinished : progress.phase = .resuming := by rcases source with rfl | rfl <;> rfl
  obtain ⟨m', ended, moment', stands', works', awake⟩ :=
    moment.ends_continueSource handsOver lawful apart admits stands unfinished result
  refine ⟨m', ?_, moment', stands', works', awake⟩
  rcases source with rfl | rfl
  · -- A first poll starts the source, and a later one goes on with it.
    have ready : (m.task t).progress = .ready (.source ⟨portions, .ofResult result⟩) none := by
      rw [stands.task]
    refine Plan.polls_of_ready ready ended (.of_eq fun fuel depth => ?_)
    cases pausing : portions.tail with
    | nil =>
      rw [Progress.behind, pausing]
      rfl
    | cons portion rest =>
      rw [Progress.behind, pausing] at stands' ⊢
      change goOn _ t none m' = _
      rw [goOn, Effect.get_bind_apply, stands'.task]
      rfl
  · have writing : (m.task t).progress = .writing ⟨portions, .ofResult result⟩ := by
      rw [stands.task]
    have wrote : Polls engine (fun e _ => continueSource e t ⟨portions, .ofResult result⟩) m
        (Progress.behind portions result).result? m' := .of_ends ended
    exact .of_succ (fun _ _ => poll_of_writing _ _ writing) wrote

omit handsOver lawful apart in
/-- A stage that may listen to its input is waited for by its task. -/
theorem ends_startStage {step : Step} {input : Ref .channel} {m₁ m' : Machine}
    (listens : Ends (fun fuel => outcome (subscribe (engine fuel) input (.stage m.stages.next)))
      (m.addStage ⟨step, (m.task t).out, none⟩) (.ok ()) m₁)
    (waits : setProgress t (.waiting m.stages.next input) m₁ = (some (), m')) :
    Ends (fun fuel => startStage (engine fuel) t step input) m none m' := by
  refine .congr (fun fuel => startStage_apply ..) (.bind listens (.of_eq fun _ => ?_))
  dsimp only
  rw [Effect.bind_apply, waits]
  rfl

/-- A stage begins when the work of its task is started. -/
theorem Moment.ends_startStage (placed : Placed stations)
    (moment : Moment world exit stations c n past m) {x : Station} (there : stations[n]? = some x)
    (stands : m.Stands t ref x.out progress) (unfinished : progress.phase = .resuming) :
    ∃ m', Ends (fun fuel => startStage (engine fuel) t x.step x.relay) m none m' ∧
      Moment world exit stations c (n + 1) past m' ∧
      m'.Stands t ref x.out (.waiting x.stage x.relay) ∧ m.Works [ref] m' ∧
      (m.woken = true → m'.woken = true) := by
  have place := moment.place x there
  obtain ⟨m₁, begun, carries₁, passage⟩ := ends_begin handsOver lawful apart moment.carries
    moment.holds moment.admits there place
  have added : (m.addStage ⟨x.step, x.out, none⟩).Stands t ref x.out progress :=
    ⟨stands.has, stands.task, stands.phase⟩
  obtain ⟨m', waits, stands', works', same⟩ := (added.touches passage.touches).setProgress
    (show (Progress.waiting x.stage x.relay).phase = _ from unfinished.symm)
  -- The next station takes the place behind this one.
  have moment₁ : Moment world exit stations c (n + 1) past m₁ := by
    refine ⟨carries₁, passage.holds, moment.admits, fun y next => ?_, ?_⟩
    · rw [passage.touches.next_stage, placed n x y there next, ← place]
      exact congrArg Ref.mk (Array.size_push ..)
    · cases exit with
      | kept => trivial
      | collected ref => exact passage.touches.has_collector ref moment.has
  have out : (m.task t).out = x.out := congrArg TaskState.out stands.task
  have started : Ends (fun fuel => startStage (engine fuel) t x.step x.relay) m none m' := by
    rw [← place] at waits begun
    rw [← out] at begun
    exact Line.ends_startStage begun waits
  have works : m.Works [ref] (m.addStage ⟨x.step, x.out, none⟩) :=
    ⟨fun _ _ => rfl, fun _ _ _ => rfl, fun _ => id⟩
  refine ⟨m', started, moment₁.of_same same, stands',
    works.trans ((passage.touches.works _).trans works'), fun awake => ?_⟩
  rw [same.woken]
  exact passage.touches.woken awake

omit handsOver lawful apart in
/-- Polling the task of a stage that has begun finds whether the stage has got its result
meanwhile. -/
theorem Moment.polls_begun (moment : Moment world exit stations c n past m) {i : Nat} {x : Station}
    (there : stations[i]? = some x) (begun : i < n) {earlier flow : Flow}
    (flowing : (flows (stations.map Station.player) past)[i]? = some flow)
    (keeps : ∀ result, earlier.result = some result → flow.result = some result)
    (stands : m.Stands t ref x.out (x.progress earlier)) :
    ∃ m', Polls engine (fun e depth => poll e depth t) m (x.progress flow).result? m' ∧
      m.SameBeyondTasks m' ∧ m'.Stands t ref x.out (x.progress flow) ∧ m.Works [ref] m' := by
  cases earlier_result : earlier.result with
  | some result =>
    have was : x.progress earlier = .finished result := by rw [Station.progress, earlier_result]
    have is : x.progress flow = .finished result := by
      rw [Station.progress, keeps result earlier_result]
    rw [was] at stands
    rw [is]
    exact ⟨m, Plan.polls_of_result stands rfl, rfl, stands, .refl _ _⟩
  | none =>
    have was : x.progress earlier = .waiting x.stage x.relay := by
      rw [Station.progress, earlier_result]
    rw [was] at stands
    obtain ⟨other, heard, also, relayed, stage, -⟩ := moment.carries.begun there begun
    obtain rfl : flow = other := Option.some.inj (flowing.symm.trans also)
    have waiting : (m.task t).progress = .waiting x.stage x.relay := by rw [stands.task]
    -- What the poll sees of stage and relay is what the flow says of them.
    have found : stageResult? m x.stage x.relay = flow.result := by
      rw [stageResult?, stage, relayed]
      cases flow.result <;> rfl
    cases working : flow.result with
    | none =>
      have waits : x.progress flow = .waiting x.stage x.relay := by rw [Station.progress, working]
      refine ⟨m, Plan.polls_of_poll fun e depth => ?_, rfl, waits ▸ stands, .refl _ _⟩
      rw [poll_of_waiting _ _ waiting, found, working, waits]
      rfl
    | some result =>
      have ended : x.progress flow = .finished result := by rw [Station.progress, working]
      obtain ⟨m', finished, stands', works, same⟩ := stands.finishTask result
      refine ⟨m', Plan.polls_of_poll fun e depth => ?_, same, ended ▸ stands', works⟩
      rw [poll_of_waiting _ _ waiting, found, working, ended]
      exact finished

/-- Polling the task of a stage for the first time begins the stage. -/
theorem Moment.polls_new (placed : Placed stations)
    (moment : Moment world exit stations c n past m) {x : Station} (there : stations[n]? = some x)
    {flow : Flow} (flowing : (flows (stations.map Station.player) past)[n]? = some flow)
    (stands : m.Stands t ref x.out (.ready x.step.work (some x.relay))) :
    ∃ m', Polls engine (fun e depth => poll e depth t) m (x.progress flow).result? m' ∧
      Moment world exit stations c (n + 1) past m' ∧ m'.Stands t ref x.out (x.progress flow) ∧
      m.Works [ref] m' ∧ (m.woken = true → m'.woken = true) := by
  obtain ⟨m₁, started, moment₁, stands₁, works₁, woken₁⟩ :=
    moment.ends_startStage handsOver lawful apart placed there stands rfl
  have waits : x.progress ⟨none, none, .empty⟩ = .waiting x.stage x.relay := rfl
  obtain ⟨m', polled, same, stands', works'⟩ := moment₁.polls_begun there (Nat.lt_succ_self n)
    flowing (fun _ nothing => by cases nothing) (waits ▸ stands₁)
  have ready : (m.task t).progress = .ready x.step.work (some x.relay) := by rw [stands.task]
  have starts : Ends
      (fun fuel => startWork (engine fuel) t x.step.work (some x.relay)) m none m₁ := by
    cases step : x.step with
    | body activation => rw [step] at started; exact started
    | call native args => rw [step] at started; exact started
  refine ⟨m', Plan.polls_of_ready ready starts ?_, moment₁.of_same same, stands',
    works₁.trans works', fun awake => same.woken.trans (woken₁ awake)⟩
  refine .congr (fun fuel depth => ?_) polled
  rw [goOn, Effect.get_bind_apply, stands₁.task]

end Polls

end Line

end Wordstream
