import Wordstream.Proofs.Order

/-!
# Driving tasks

Driving takes tasks further, one after the other. A task that is started or goes on writing is
pursued: some evaluation comes first, and then the task gets its result or is seen to wait. The
start of a pipe resumes its two sides. All that driving does is made up of such steps, and of
giving tasks that wait their results; so what each step preserves, a whole drive preserves.

## Main results

* `pursues_startWork`, `pursues_continueSource` — starting and writing on are such pursuits
* `Advances.of_attends` — driving is a matter of attending to tasks, one after the other
* `Advances.outcome` — driving keeps order, takes tasks further, and starts none twice
* `polled_poll`, `advances_drive`, `advances_settleBatches` — polling, driving and settling go
  step by step
-/

namespace Wordstream

/-! ## Pursuing a task -/

/-- A machine comes from another by evaluation: it does in every respect to which evaluation with
this engine keeps. -/
def Engine.Tends (engine : Engine) (m m' : Machine) : Prop :=
  ∀ T : Trend, T.modest.discipline.Relates engine engine → T.Holds m m'

namespace Engine.Tends

variable {engine : Engine} {m m' m'' : Machine}

theorem refl (engine : Engine) (m : Machine) : engine.Tends m m := fun T _ => T.refl m

theorem trans (first : engine.Tends m m') (second : engine.Tends m' m'') : engine.Tends m m'' :=
  fun T relates => T.trans (first T relates) (second T relates)

/-- What a computation has done when it has ended, if every trend allows it. -/
theorem of_run {α : Type} {action : Effect Machine α} {result : Option α}
    (ran : action m = (result, m'))
    (allowed : ∀ {T : Trend}, T.modest.discipline.Relates engine engine → T.modest.Allows action) :
    engine.Tends m m' := fun _ relates => Trend.of_run (allowed relates) ran

end Engine.Tends

/-- The work of a task is pursued: some evaluation comes first, and then the task gets its result,
or is seen to wait for something that is not two other tasks and may have asked to be polled
again. -/
inductive Pursues (engine : Engine) (ref : Ref .task) (m : Machine) :
    Option Result → Machine → Prop
  | finish {m₁ : Machine} (tends : engine.Tends m m₁) (given : Result) :
      Pursues engine ref m (some given) (finishTask ref given m₁).2
  | proceed {m₁ : Machine} (tends : engine.Tends m m₁) (progress : Progress)
      (started : progress.isReady = false) (phase : progress.phase = .resuming)
      (single : ∀ left right, progress ≠ .joining left right) (woken : Bool) :
      Pursues engine ref m none { (setProgress ref progress m₁).2 with woken := woken }

/-- Who gives a task its result has seen it finish. -/
theorem of_finishTask {ref : Ref .task} {m m' : Machine} {given : Result} {answer : Option Result}
    (ended : finishTask ref given m = (some answer, m')) :
    answer = some given ∧ (m'.task ref).progress = .finished given := by
  rw [finishTask_apply] at ended
  cases ended
  refine ⟨rfl, ?_⟩
  change ((m.tasks.set ref _).get ref).progress = _
  rw [Arena.get_set, if_pos rfl]

namespace Pursues

variable {engine : Engine} {ref : Ref .task} {m m' : Machine} {result : Option Result}

theorem of_finish {m₁ : Machine} {given : Result} (tends : engine.Tends m m₁)
    (ended : finishTask ref given m₁ = (some result, m')) : Pursues engine ref m result m' := by
  obtain ⟨rfl, _⟩ := of_finishTask ended
  obtain rfl : (finishTask ref given m₁).2 = m' := congrArg Prod.snd ended
  exact .finish tends given

/-- If there is a result, the task has finished with it. -/
theorem finished {given : Result} (pursues : Pursues engine ref m (some given) m') :
    (m'.task ref).progress = .finished given := by
  cases pursues with
  | @finish m₁ =>
    exact (of_finishTask (Prod.ext rfl rfl : finishTask ref given m₁ = (some (some given), _))).2

/-- A task that is pursued is attended to. -/
theorem attends (pursues : Pursues engine ref m result m')
    (h : growth.discipline.Relates engine engine) (orderly : m.Orderly) (has : m.tasks.Has ref)
    (unfinished : (m.task ref).progress.phase = .resuming) : m.Attends ref m' := by
  cases pursues with
  | finish tends given =>
    have grows : m.Grows _ := tends growing h
    exact grows.finish orderly has unfinished given
  | proceed tends progress started phase single =>
    have grows : m.Grows _ := tends growing h
    exact grows.proceed orderly has unfinished progress started phase
      (fun left right joining => absurd joining (single left right)) rfl rfl

end Pursues

section Pursuits

variable {engine : Engine} {ref : Ref .task} {m m' : Machine} {result : Option Result}

theorem pursues_runOnce {work : Run Machine Unit}
    (working : ∀ {T : Trend}, T.modest.discipline.Relates engine engine → T.modest.Allows work)
    (ended : runOnce engine ref work m = (some result, m')) : Pursues engine ref m result m' := by
  obtain ⟨given, m₁, worked, ended⟩ := Effect.of_bind ended
  rw [Effect.get_bind_apply] at ended
  obtain ⟨_, m₂, told, ended⟩ := Effect.of_bind ended
  have works : engine.Tends m m₁ := .of_run worked working
  have tells : engine.Tends m₁ m₂ := .of_run told fun h => Modest.tellOutput h _ given
  exact .of_finish (works.trans tells) ended

theorem pursues_startStage {step : Step} {input : Ref .channel}
    (ended : startStage engine ref step input m = (some result, m')) :
    Pursues engine ref m result m' := by
  rw [startStage_apply] at ended
  obtain ⟨given, m₁, listened, ended⟩ := Effect.of_bind ended
  have made : engine.Tends m (m.addStage ⟨step, (m.task ref).out, none⟩) :=
    fun T _ => T.arrange rfl (.aside rfl rfl)
  have tends := made.trans (.of_run listened fun h => Modest.subscribe h.deliver input _)
  cases given with
  | ok _ =>
    cases ended
    exact .proceed tends (.waiting m.stages.next input) rfl rfl (fun _ _ => nofun) m₁.woken
  | error failure => exact .of_finish tends ended

theorem pursues_endSource {m₁ : Machine} (tends : engine.Tends m m₁) {ending : Ending}
    (ended : endSource engine ref ending m₁ = (some result, m')) :
    Pursues engine ref m result m' := by
  cases ending with
  | complete | fail =>
    obtain ⟨_, _, looked, ended⟩ := Effect.of_bind ended
    cases looked
    obtain ⟨_, m₂, told, ended⟩ := Effect.of_bind ended
    exact .of_finish (tends.trans (.of_run told fun h => Modest.emit h.deliver _ _)) ended
  | quiet failure => exact .of_finish tends ended
  | hang =>
    cases ended
    exact .proceed tends .hanging rfl rfl (fun _ _ => nofun) m₁.woken

theorem pursues_continueSource {source : Source}
    (ended : continueSource engine ref source m = (some result, m')) :
    Pursues engine ref m result m' := by
  obtain ⟨_, m₁, written, ended⟩ := Effect.of_bind ended
  have tends : engine.Tends m m₁ := .of_run written fun h => Modest.writeValues h ref _
  cases rest : source.portions.tail with
  | nil =>
    rw [rest] at ended
    exact pursues_endSource tends ended
  | cons portion portions =>
    rw [rest] at ended
    cases ended
    exact .proceed tends (.writing { source with portions := portion :: portions }) rfl rfl
      (fun _ _ => nofun) true

/-- To start work that is not a pipe is to pursue it. -/
theorem pursues_startWork {work : Work} (tells : work.tells) {input : Option (Ref .channel)}
    (ended : startWork engine ref work input m = (some result, m')) :
    Pursues engine ref m result m' := by
  cases work with
  | body activation =>
    cases input with
    | none => exact pursues_runOnce (fun h => Modest.runBody h _ _) ended
    | some input => exact pursues_startStage ended
  | call native args =>
    cases input with
    | none =>
      obtain ⟨_, _, looked, ended⟩ := Effect.of_bind ended
      cases looked
      exact pursues_runOnce (fun h => Congruence.Practice.runCall h _ _ _) ended
    | some input => exact pursues_startStage ended
  | pipe left right relay => cases tells
  | source source =>
    cases input with
    | none => exact pursues_continueSource ended
    | some input =>
      obtain ⟨_, _, looked, ended⟩ := Effect.of_bind ended
      cases looked
      obtain ⟨given, m₁, listened, ended⟩ := Effect.of_bind ended
      exact .of_finish (.of_run listened fun h => Modest.subscribe h.deliver _ _) ended

end Pursuits

/-! ## Starting a task -/

/-- Starting a pipe is a matter of resuming its sides, the left one first, as far as that goes. -/
theorem startPipe_cases {left right : Ref .suspension} {relay : Ref .channel}
    {input : Option (Ref .channel)} {given : Except Failure Progress} {m m' : Machine}
    (ended : startPipe left right relay input m = (some given, m')) :
    (∃ failure, given = .error failure ∧ resume left input m = (some (.error failure), m')) ∨
      ∃ first m₁, resume left input m = (some (.ok first), m₁) ∧
        ((∃ failure, given = .error failure ∧
            resume right (some relay) m₁ = (some (.error failure), m')) ∨
          ∃ second, given = .ok (.joining first second) ∧
            resume right (some relay) m₁ = (some (.ok second), m')) := by
  rw [startPipe, Run.bind_apply] at ended
  rcases resumed : resume left input m with ⟨_ | failure | first, m₁⟩ <;> rw [resumed] at ended
  · cases ended
  · cases ended
    exact .inl ⟨failure, rfl, rfl⟩
  · dsimp only at ended
    rw [Run.bind_apply] at ended
    rcases resumed' : resume right (some relay) m₁ with ⟨_ | failure | second, m₂⟩ <;>
      rw [resumed'] at ended <;> cases ended
    · exact .inr ⟨first, m₁, rfl, .inl ⟨failure, rfl, resumed'⟩⟩
    · exact .inr ⟨first, m₁, rfl, .inr ⟨second, rfl, resumed'⟩⟩

/-- The two tasks of a pipe that is started are new. -/
theorem joining_of_startPipe {left right : Ref .suspension} {relay : Ref .channel}
    {input : Option (Ref .channel)} {progress : Progress} {m m' : Machine}
    (ended : startPipe left right relay input m = (some (.ok progress), m')) :
    ∃ first second, progress = .joining first second ∧ m.tasks.cells.size ≤ first.index ∧
      m.tasks.cells.size ≤ second.index := by
  obtain ⟨first, m₁, resumed, ended⟩ := Run.of_bind ended
  obtain ⟨second, m₂, resumed', ended⟩ := Run.of_bind ended
  cases ended
  obtain ⟨_, work, _, rfl, rfl⟩ := of_resume resumed
  obtain ⟨_, _, _, rfl, _⟩ := of_resume resumed'
  -- Each is put behind all tasks that there are, the second one behind the first.
  refine ⟨_, _, rfl, Nat.le_refl _, ?_⟩
  have one_more : (m.startTask left work input).2.tasks.cells.size = m.tasks.cells.size + 1 :=
    Array.size_push ..
  change _ ≤ (m.startTask left work input).2.tasks.cells.size
  omega

section Starting

variable {m m' : Machine} (orderly : m.Orderly) {ref : Ref .task} (has : m.tasks.Has ref)
  (unfinished : (m.task ref).progress.phase = .resuming)

include orderly has unfinished

/-- A task gets its result after some growth. -/
theorem Machine.Grows.attends_finishTask {m₁ : Machine} (grown : m.Grows m₁) {given : Result}
    {result : Option Result} (ended : finishTask ref given m₁ = (some result, m')) :
    m.Attends ref m' := by
  have finished := grown.finish orderly has unfinished given
  rwa [ended] at finished

theorem attends_startPipe {engine : Engine} {left right : Ref .suspension} {relay : Ref .channel}
    {input : Option (Ref .channel)} {result : Option Result}
    (ended : startWork engine ref (.pipe left right relay) input m = (some result, m')) :
    m.Attends ref m' := by
  obtain ⟨given, m₁, resumed, ended⟩ := Effect.of_bind ended
  have grown :=
    grows_of_ended (Modest.allows_startPipe resumes_growth left right relay input) resumed
  cases given with
  | error failure => exact grown.attends_finishTask orderly has unfinished ended
  | ok progress =>
    cases ended
    obtain ⟨first, second, rfl, newer, newer'⟩ := joining_of_startPipe resumed
    -- The pipe was there before its sides were resumed, so it is older than their tasks.
    unfold Arena.Has at has
    exact grown.proceed orderly has unfinished _ rfl rfl
      (fun _ _ joining => by cases joining; omega) rfl rfl

/-- A task that is ready is attended to when its work is started. -/
theorem attends_startWork {engine : Engine} (h : growth.discipline.Relates engine engine)
    {work : Work} {input : Option (Ref .channel)} {result : Option Result}
    (ended : startWork engine ref work input m = (some result, m')) : m.Attends ref m' := by
  cases work with
  | pipe left right relay => exact attends_startPipe orderly has unfinished ended
  | _ => exact (pursues_startWork rfl ended).attends h orderly has unfinished

end Starting

/-- A task that has its result when its work is started has finished. -/
theorem finished_of_startWork {engine : Engine} {ref : Ref .task} {m m' : Machine} {work : Work}
    {input : Option (Ref .channel)} {result : Result}
    (ended : startWork engine ref work input m = (some (some result), m')) :
    (m'.task ref).progress = .finished result := by
  cases work with
  | pipe left right relay =>
    obtain ⟨given, _, _, ended⟩ := Effect.of_bind ended
    cases given with
    | ok progress => cases ended
    | error failure =>
      obtain ⟨same, finished⟩ := of_finishTask ended
      rw [finished, Option.some.inj same]
  | _ => exact (pursues_startWork rfl ended).finished

/-! ## Driving -/

/-- What driving does to a machine, step by step, and the tasks whose work it starts, in order. It
looks after flags and inputs that are lost; it starts tasks that are ready, lets sources write on,
and gives tasks that wait their results: that of its stage or the failure of having lost its input
to a task that waits for one, and the first failure of the two to a task that waits for two
others. Settling takes tasks off the list of pending ones besides. -/
inductive Advances (engine : Engine) (settling : Bool) :
    List (Ref .task) → Machine → Machine → Prop
  | rest (m : Machine) (woken : Bool) : Advances engine settling [] m { m with woken := woken }
  | clear (m : Machine) (settles : settling) :
      Advances engine settling [] m { m with pending := [] }
  | abandon (m : Machine) (input : Ref .channel) :
      Advances engine settling [] m
        (m.setChannel input { m.channel input with abandoned := true })
  | start {m m' : Machine} {ref : Ref .task} {work : Work} {input : Option (Ref .channel)}
      {result : Option Result} (ready : (m.task ref).progress = .ready work input)
      (started : startWork engine ref work input m = (some result, m')) :
      Advances engine settling [ref] m m'
  | write {m m' : Machine} {ref : Ref .task} {source : Source} {result : Option Result}
      (writing : (m.task ref).progress = .writing source)
      (written : continueSource engine ref source m = (some result, m')) :
      Advances engine settling [] m m'
  | hear {m : Machine} {ref : Ref .task} {stage : Ref .stage} {input : Ref .channel}
      {result : Result} (waiting : (m.task ref).progress = .waiting stage input)
      (heard : stageResult? m stage input = some result) :
      Advances engine settling [] m (finishTask ref result m).2
  | join {m : Machine} {ref left right : Ref .task} {first second : Result}
      (joining : (m.task ref).progress = .joining left right)
      (one : (m.task left).progress = .finished first)
      (other : (m.task right).progress = .finished second) :
      Advances engine settling [] m (finishTask ref (bothResults first second) m).2
  | trans {m m' m'' : Machine} {started more : List (Ref .task)}
      (first : Advances engine settling started m m')
      (second : Advances engine settling more m' m'') :
      Advances engine settling (started ++ more) m m''

namespace Advances

variable {engine : Engine} {settling : Bool} {m m' m'' : Machine} {started more : List (Ref .task)}

theorem refl (engine : Engine) (m : Machine) : Advances engine settling [] m m := .rest m m.woken

/-- Whatever driving does may be part of settling. -/
theorem settle (advances : Advances engine false started m m') :
    Advances engine true started m m' := by
  induction advances with
  | rest m woken => exact .rest m woken
  | clear _ settles => cases settles
  | abandon m input => exact .abandon m input
  | start ready started => exact .start ready started
  | write writing written => exact .write writing written
  | hear waiting heard => exact .hear waiting heard
  | join joining one other => exact .join joining one other
  | trans _ _ first second => exact .trans first second

/-- Tasks are started once: each that was started is a new one or was ready, and is ready no
more. -/
structure Once (m : Machine) (started : List (Ref .task)) (m' : Machine) : Prop where
  nodup : started.Nodup
  before {task : Ref .task} (mem : task ∈ started) (has : m.tasks.Has task) :
    (m.task task).progress.isReady
  after {task : Ref .task} (mem : task ∈ started) :
    m'.tasks.Has task ∧ (m'.task task).progress.isReady = false

theorem Once.none (m m' : Machine) : Once m [] m' := ⟨List.nodup_nil, nofun, nofun⟩

theorem Once.trans (first : Once m started m') (second : Once m' more m'') (follows : m.Follows m')
    (follows' : m'.Follows m'') : Once m (started ++ more) m'' := by
  have still {task : Ref .task} (mem : task ∈ started) :
      m''.tasks.Has task ∧ (m''.task task).progress.isReady = false := by
    obtain ⟨has, underway⟩ := first.after mem
    refine ⟨follows'.task has, Bool.eq_false_iff.2 fun ready => ?_⟩
    rw [follows'.ready has ready] at underway
    cases underway
  refine ⟨List.nodup_append.2 ⟨first.nodup, second.nodup, fun task mem other mem' same => ?_⟩,
    fun mem has => ?_, fun mem => ?_⟩
  · -- What was started before is not ready, so it is not started now.
    subst same
    obtain ⟨has, underway⟩ := first.after mem
    rw [second.before mem' has] at underway
    cases underway
  · exact (List.mem_append.1 mem).elim (fun mem => first.before mem has)
      fun mem => follows.ready has (second.before mem (follows.task has))
  · exact (List.mem_append.1 mem).elim still second.after

/-- Driving is a matter of attending to tasks that have not finished, one after the other, some of
which are ready and started by that; all else that is done concerns neither suspensions nor tasks.
Order is kept meanwhile. -/
theorem of_attends (h : growth.discipline.Relates engine engine)
    {P : List (Ref .task) → Machine → Machine → Prop}
    (aside : ∀ {m m' : Machine}, m'.suspensions = m.suspensions → m'.tasks = m.tasks → P [] m m')
    (attend : ∀ {m m' : Machine} {ref : Ref .task} {started : List (Ref .task)}, m.Orderly →
      m.tasks.Has ref → (m.task ref).progress.phase = .resuming → m.Attends ref m' →
      Once m started m' → P started m m')
    (trans : ∀ {m m' m'' : Machine} {started more : List (Ref .task)}, P started m m' →
      P more m' m'' → P (started ++ more) m m'')
    (advances : Advances engine settling started m m') (orderly : m.Orderly) :
    m'.Orderly ∧ P started m m' := by
  have finish {m : Machine} {ref : Ref .task} (orderly : m.Orderly) (has : m.tasks.Has ref)
      (unfinished : (m.task ref).progress.phase = .resuming) (given : Result) :
      (finishTask ref given m).2.Orderly ∧ P [] m (finishTask ref given m).2 := by
    have attends := (Machine.Grows.refl m).finish orderly has unfinished given
    exact ⟨attends.orderly, attend orderly has unfinished attends (.none _ _)⟩
  -- Each step attends to one task or to none; order is what the next step needs.
  induction advances with
  | rest | clear | abandon => exact ⟨orderly.of_eq rfl rfl, aside rfl rfl⟩
  | @start m m' ref work input _ ready started =>
    have has : m.tasks.Has ref := Machine.has_of_progress (by simp [ready])
    have unfinished : (m.task ref).progress.phase = .resuming := by rw [ready]; rfl
    have attends := attends_startWork orderly has unfinished h started
    refine ⟨attends.orderly, attend orderly has unfinished attends
      ⟨List.pairwise_singleton _ ref, fun mem _ => ?_, fun mem => ?_⟩⟩
    · rw [List.mem_singleton.1 mem, ready]
      rfl
    · rw [List.mem_singleton.1 mem]
      exact ⟨attends.follows.task has, attends.started⟩
  | @write m m' ref source _ writing written =>
    have has : m.tasks.Has ref := Machine.has_of_progress (by simp [writing])
    have unfinished : (m.task ref).progress.phase = .resuming := by rw [writing]; rfl
    have attends := (pursues_continueSource written).attends h orderly has unfinished
    exact ⟨attends.orderly, attend orderly has unfinished attends (.none _ _)⟩
  | hear waiting =>
    exact finish orderly (Machine.has_of_progress (by simp [waiting])) (by rw [waiting]; rfl) _
  | join joining =>
    exact finish orderly (Machine.has_of_progress (by simp [joining])) (by rw [joining]; rfl) _
  | trans _ _ first second =>
    obtain ⟨orderly, before⟩ := first orderly
    obtain ⟨orderly, after⟩ := second orderly
    exact ⟨orderly, trans before after⟩

/-- Driving keeps order, takes tasks further, and starts none twice. -/
theorem outcome (advances : Advances engine settling started m m')
    (h : growth.discipline.Relates engine engine) (orderly : m.Orderly) :
    m'.Orderly ∧ m.Follows m' ∧ Once m started m' :=
  of_attends h (P := fun started m m' => m.Follows m' ∧ Once m started m')
    (fun suspensions tasks => ⟨.of_eq suspensions tasks, .none _ _⟩)
    (fun _ _ _ attends once => ⟨attends.follows, once⟩)
    (fun ⟨follows, once⟩ ⟨follows', once'⟩ =>
      ⟨follows.trans follows', once.trans once' follows follows'⟩)
    advances orderly

/-- A result stays. -/
theorem finished (h : growth.discipline.Relates engine engine)
    (advances : Advances engine settling started m m') (orderly : m.Orderly) {task : Ref .task}
    {result : Result} (finished : (m.task task).progress = .finished result) :
    (m'.task task).progress = .finished result := by
  refine (of_attends h (P := fun _ m m' => (m.task task).progress = .finished result →
    (m'.task task).progress = .finished result) (fun _ tasks given => ?_)
    (fun {m m' ref _} _ _ unfinished attends _ given => ?_)
    (fun first second given => second (first given)) advances orderly).2 finished
  · rwa [Machine.task, tasks]
  · have apart : task ≠ ref := by
      rintro rfl
      rw [given] at unfinished
      exact Progress.phase_finished result unfinished
    rw [attends.others (Machine.has_of_progress (by simp [given])) apart, given]

/-- What driving leaves alone stays as it is. -/
theorem bides (h : growth.discipline.Relates engine engine)
    (advances : Advances engine settling started m m') (orderly : m.Orderly) : m.Bides m' := by
  refine (of_attends h (P := fun _ => Machine.Bides) (fun suspensions tasks => ?_)
    (fun _ _ _ attends _ => attends.bides) .trans advances orderly).2
  exact ⟨.of_eq suspensions tasks, .of_eq suspensions, fun _ _ => by
    rw [Machine.task, Machine.task, tasks]⟩

end Advances

theorem Machine.result?_eq_some {m : Machine} {task : Ref .task} {result : Result} :
    (m.task task).result? = some result ↔ (m.task task).progress = .finished result := by
  unfold TaskState.result?
  cases (m.task task).progress <;> simp

theorem ne_of_older {ref other : Ref .task} (older : other.index < ref.index) : other ≠ ref :=
  fun same => Nat.lt_irrefl _ (same ▸ older)

/-- What polling a task has done: driving that leaves older tasks alone. If it gives a result, the
task has finished with it. -/
structure Polled (engine : Engine) (ref : Ref .task) (m : Machine) (result : Option Result)
    (m' : Machine) : Prop where
  advances : ∃ started, Advances engine false started m m'
  older (other : Ref .task) (has : m.tasks.Has other) (older : other.index < ref.index) :
    m'.task other = m.task other
  finished (given : Result) (same : result = some given) : (m'.task ref).progress = .finished given

namespace Polled

variable {engine : Engine} {ref : Ref .task} {m m₁ m' : Machine} {result : Option Result}

/-- Nothing is done, and there is no result. -/
theorem idle (engine : Engine) (ref : Ref .task) (m : Machine) : Polled engine ref m none m :=
  ⟨⟨[], .refl engine m⟩, fun _ _ _ => rfl, fun _ same => by cases same⟩

/-- Driving that leaves older tasks alone may come first. -/
theorem after {started : List (Ref .task)} (advances : Advances engine false started m m₁)
    (follows : m.Follows m₁)
    (same : ∀ other, m.tasks.Has other → other.index < ref.index → m₁.task other = m.task other)
    (polled : Polled engine ref m₁ result m') : Polled engine ref m result m' := by
  obtain ⟨⟨more, advances'⟩, same', finished⟩ := polled
  refine ⟨⟨_, advances.trans advances'⟩, fun other has older => ?_, finished⟩
  rw [same' other (follows.task has) older, same other has older]

/-- A task that has waited gets its result. -/
theorem finish (orderly : m.Orderly) (has : m.tasks.Has ref)
    (unfinished : (m.task ref).progress.phase = .resuming) {given : Result}
    (advances : Advances engine false [] m (finishTask ref given m).2)
    (ended : finishTask ref given m = (some result, m')) : Polled engine ref m result m' := by
  have attends := (Machine.Grows.refl m).finish orderly has unfinished given
  obtain ⟨rfl, progress⟩ := of_finishTask ended
  rw [ended] at advances attends
  refine ⟨⟨[], advances⟩, fun _ has older => attends.others has (ne_of_older older),
    fun _ same => ?_⟩
  rw [progress, Option.some.inj same]

end Polled

section Polling

variable {engine : Engine} (h : growth.discipline.Relates engine engine)

section Round

variable {fuel : Nat} {ref : Ref .task} {m m' : Machine} {result : Option Result}
  (orderly : m.Orderly)
  (polls : ∀ {ref : Ref .task} {m m' : Machine} {result : Option Result}, m.Orderly →
    poll engine fuel ref m = (some result, m') → Polled engine ref m result m')

include h orderly polls

/-- A task that waits for two others polls these, and has its result as soon as both have theirs. -/
theorem polled_joining {left right : Ref .task}
    (at_ref : (m.task ref).progress = .joining left right)
    (ended : poll engine (fuel + 1) ref m = (some result, m')) : Polled engine ref m result m' := by
  rw [poll_of_joining engine fuel at_ref] at ended
  have has : m.tasks.Has ref := Machine.has_of_progress (by simp [at_ref])
  obtain ⟨first, m₁, polled, ended⟩ := Effect.of_bind ended
  obtain ⟨second, m₂, polled', ended⟩ := Effect.of_bind ended
  obtain ⟨older_left, older_right⟩ := orderly.older has at_ref
  obtain ⟨⟨started, advances⟩, same, one⟩ := polls orderly polled
  obtain ⟨orderly₁, follows, _⟩ := advances.outcome h orderly
  obtain ⟨⟨more, advances'⟩, same', other⟩ := polls orderly₁ polled'
  obtain ⟨orderly₂, follows', _⟩ := advances'.outcome h orderly₁
  -- Both tasks are newer than this one, which is as it was when they have been polled.
  have kept {other : Ref .task} (has : m.tasks.Has other) (older : other.index ≤ ref.index) :
      m₂.task other = m.task other := by
    rw [same' other (follows.task has) (by omega), same other has (by omega)]
  refine .after (advances.trans advances') (follows.trans follows')
    (fun _ has older => kept has (by omega)) ?_
  have waits (ended : (some none, m₂) = (some result, m')) : Polled engine ref m₂ result m' := by
    cases ended
    exact .idle engine ref _
  cases first with
  | none => exact waits ended
  | some first =>
    cases second with
    | none => exact waits ended
    | some second =>
      have joining : (m₂.task ref).progress = .joining left right := by
        rw [kept has (Nat.le_refl _), at_ref]
      exact .finish orderly₂ (follows'.task (follows.task has)) (by rw [joining]; rfl)
        (.join joining (advances'.finished h orderly₁ (one first rfl)) (other second rfl)) ended

/-- A task that is ready is started, and polled at once if it has come to wait for something. -/
theorem polled_ready {work : Work} {input : Option (Ref .channel)}
    (at_ref : (m.task ref).progress = .ready work input)
    (ended : poll engine (fuel + 1) ref m = (some result, m')) : Polled engine ref m result m' := by
  rw [poll_of_ready engine fuel at_ref] at ended
  have has : m.tasks.Has ref := Machine.has_of_progress (by simp [at_ref])
  obtain ⟨given, m₁, begun, ended⟩ := Effect.of_bind ended
  have attends := attends_startWork orderly has (by rw [at_ref]; rfl) h begun
  have others (other : Ref .task) (has : m.tasks.Has other) (older : other.index < ref.index) :
      m₁.task other = m.task other := attends.others has (ne_of_older older)
  have stops (ended : (some given, m₁) = (some result, m')) : Polled engine ref m result m' := by
    cases ended
    refine ⟨⟨[ref], .start at_ref begun⟩, others, fun _ same => ?_⟩
    rw [same] at begun
    exact finished_of_startWork begun
  cases given with
  | some given => exact stops ended
  | none =>
    rw [goOn, Effect.get_bind_apply] at ended
    cases now : (m₁.task ref).progress with
    | waiting | joining =>
      rw [now] at ended
      exact .after (.start at_ref begun) attends.follows others (polls attends.orderly ended)
    | _ =>
      rw [now] at ended
      exact stops ended

end Round

include h

/-- Polling a task is driving. -/
theorem polled_poll (fuel : Nat) {ref : Ref .task} {m m' : Machine} {result : Option Result}
    (orderly : m.Orderly) (ended : poll engine fuel ref m = (some result, m')) :
    Polled engine ref m result m' := by
  -- On the fuel, for every machine: what a task has come to wait for is polled in its turn.
  induction fuel generalizing ref m m' result with
  | zero => cases ended
  | succ fuel ih =>
    cases at_ref : (m.task ref).progress with
    | ready work input => exact polled_ready h orderly ih at_ref ended
    | joining left right => exact polled_joining h orderly ih at_ref ended
    | hanging =>
      rw [poll_of_hanging engine fuel at_ref] at ended
      cases ended
      exact .idle engine ref m
    | finished given =>
      rw [poll_of_finished engine fuel at_ref] at ended
      cases ended
      exact ⟨⟨[], .refl engine m⟩, fun _ _ _ => rfl, fun _ same => by
        rw [at_ref, Option.some.inj same]⟩
    | writing source =>
      rw [poll_of_writing engine fuel at_ref] at ended
      have has : m.tasks.Has ref := Machine.has_of_progress (by simp [at_ref])
      have pursues := pursues_continueSource ended
      have attends := pursues.attends h orderly has (by rw [at_ref]; rfl)
      refine ⟨⟨[], .write at_ref ended⟩, fun _ has older => attends.others has (ne_of_older older),
        fun given same => ?_⟩
      rw [same] at pursues
      exact pursues.finished
    | waiting stage input =>
      rw [poll_of_waiting engine fuel at_ref] at ended
      have has : m.tasks.Has ref := Machine.has_of_progress (by simp [at_ref])
      cases heard : stageResult? m stage input with
      | none =>
        rw [heard] at ended
        cases ended
        exact .idle engine ref m
      | some given =>
        rw [heard] at ended
        exact .finish orderly has (by rw [at_ref]; rfl) (.hear at_ref heard) ended

/-- Polling in turn is driving. -/
theorem advances_pollAll (fuel : Nat) {tasks : List (Ref .task)} {m m' : Machine}
    {results : List (Option Result)} (orderly : m.Orderly)
    (ended : pollAll engine fuel tasks m = (some results, m')) :
    ∃ started, Advances engine false started m m' := by
  induction tasks generalizing m results with
  | nil =>
    cases ended
    exact ⟨[], .refl engine _⟩
  | cons ref rest ih =>
    obtain ⟨first, m₁, polled, ended⟩ := Effect.of_bind ended
    obtain ⟨others, m₂, polled', ended⟩ := Effect.of_bind ended
    cases ended
    obtain ⟨⟨started, advances⟩, _, _⟩ := polled_poll h fuel orderly polled
    obtain ⟨more, advances'⟩ := ih (advances.outcome h orderly).1 polled'
    exact ⟨_, advances.trans advances'⟩

omit h in
/-- Giving up inputs is driving. -/
theorem advances_abandon {inputs : List (Ref .channel)} {m m' : Machine}
    (ended : inputs.forM (fun input => modifyChannel input fun channel =>
      { channel with abandoned := true }) m = (some (), m')) : Advances engine false [] m m' := by
  induction inputs generalizing m with
  | nil =>
    cases ended
    exact .refl engine _
  | cons input rest ih =>
    obtain ⟨_, m₁, here, ended⟩ := Effect.of_bind ended
    cases here
    exact (Advances.abandon m input).trans (ih ended)

omit h in
/-- Giving up inputs that are lost is driving. -/
theorem advances_abandonLost {outside : List Thing} {m m' : Machine} {lost : Bool}
    (ended : abandonLost outside m = (some lost, m')) : Advances engine false [] m m' := by
  rw [abandonLost, Effect.get_bind_apply] at ended
  obtain ⟨_, m₁, abandoned, ended⟩ := Effect.of_bind ended
  cases ended
  exact advances_abandon abandoned

/-- Polling until nothing more can be done is driving, and a result is that of the last poll. -/
theorem advances_driveUntil {α : Type} {pollOnce : Effect Machine (Option α)}
    (polls : ∀ {m m' : Machine} {result : Option α}, m.Orderly → pollOnce m = (some result, m') →
      ∃ started, Advances engine false started m m')
    {driven : List (Ref .task)} {outside : List Thing} (fuel : Nat) {m m' : Machine}
    {result : Option α} (orderly : m.Orderly)
    (ended : driveUntil pollOnce driven outside fuel m = (some result, m')) :
    (∃ started, Advances engine false started m m') ∧
      (result.isSome → ∃ last : Machine, last.Orderly ∧ pollOnce last = (some result, m')) := by
  induction fuel generalizing m result with
  | zero => cases ended
  | succ fuel ih =>
    obtain ⟨_, m₁, flagged, ended⟩ := Effect.of_bind ended
    cases flagged
    have rested : Advances engine false [] m { m with woken := false } := .rest m false
    have orderly₁ := (rested.outcome h orderly).1
    obtain ⟨given, m₂, polled, ended⟩ := Effect.of_bind ended
    obtain ⟨started, advances⟩ := polls orderly₁ polled
    have advances := rested.trans advances
    have orderly₂ := (advances.outcome h orderly).1
    cases given with
    | some given =>
      cases ended
      exact ⟨⟨_, advances⟩, fun _ => ⟨_, orderly₁, polled⟩⟩
    | none =>
      dsimp only at ended
      -- Another round follows if somebody was woken, or else if an input was found to be lost.
      rw [Effect.get_bind_apply] at ended
      split at ended
      · obtain ⟨⟨more, advances'⟩, last⟩ := ih orderly₂ ended
        exact ⟨⟨_, advances.trans advances'⟩, last⟩
      · rw [Effect.get_bind_apply] at ended
        obtain ⟨lost, m₃, abandoned, ended⟩ := Effect.of_bind ended
        have advances := advances.trans (advances_abandonLost abandoned)
        split at ended
        · obtain ⟨⟨more, advances'⟩, last⟩ := ih (advances.outcome h orderly).1 ended
          exact ⟨⟨_, advances.trans advances'⟩, last⟩
        · cases ended
          exact ⟨⟨_, advances⟩, nofun⟩

theorem advances_drive (fuel : Nat) {outside : List Thing} {ref : Ref .task} {m m' : Machine}
    {driven : Driven} (orderly : m.Orderly)
    (ended : drive engine fuel outside ref m = (some driven, m')) :
    ∃ started, Advances engine false started m m' := by
  obtain ⟨given, m₁, polled, ended⟩ := Effect.of_bind ended
  have polls {m m' : Machine} {result : Option Result} (orderly : m.Orderly)
      (ended : poll engine fuel ref m = (some result, m')) :
      ∃ started, Advances engine false started m m' :=
    (polled_poll h fuel orderly ended).advances
  have advances := (advances_driveUntil h polls fuel orderly polled).1
  cases given <;> cases ended <;> exact advances

/-- One round of polling a batch. -/
abbrev pollBatch (engine : Engine) (fuel : Nat) (batch : List (Ref .task)) :
    Effect Machine (Option (List Result)) := do
  pure (allResults? (← pollAll engine fuel batch))

theorem advances_pollBatch (fuel : Nat) {batch : List (Ref .task)} {m m' : Machine}
    {results : Option (List Result)} (orderly : m.Orderly)
    (ended : pollBatch engine fuel batch m = (some results, m')) :
    ∃ started, Advances engine false started m m' := by
  obtain ⟨given, m₁, polled, ended⟩ := Effect.of_bind ended
  cases ended
  exact advances_pollAll h fuel orderly polled

theorem advances_settleBatches (pollFuel : Nat) {outside : List Thing} (fuel : Nat)
    {failure : Option Failure} {m m' : Machine} {driven : Driven} (orderly : m.Orderly)
    (ended : settleBatches engine pollFuel outside fuel failure m = (some driven, m')) :
    ∃ started, Advances engine true started m m' := by
  induction fuel generalizing m failure with
  | zero => cases ended
  | succ fuel ih =>
    obtain ⟨_, _, looked, ended⟩ := Effect.of_bind ended
    cases looked
    obtain ⟨_, m₁, emptied, ended⟩ := Effect.of_bind ended
    cases emptied
    -- The list is emptied before the batch is driven, so that it can fill again meanwhile.
    have cleared : Advances engine true [] m { m with pending := [] } := .clear m rfl
    have orderly₁ := (cleared.outcome h orderly).1
    split at ended
    · split at ended <;> cases ended <;> exact ⟨_, cleared⟩
    · obtain ⟨given, m₂, polled, ended⟩ := Effect.of_bind ended
      obtain ⟨⟨started, advances⟩, _⟩ :=
        advances_driveUntil h (advances_pollBatch h pollFuel) pollFuel orderly₁ polled
      have advances := cleared.trans advances.settle
      cases given with
      | none =>
        cases ended
        exact ⟨_, advances⟩
      | some results =>
        obtain ⟨more, advances'⟩ := ih (advances.outcome h orderly).1 ended
        exact ⟨_, advances.trans advances'⟩

end Polling

end Wordstream
