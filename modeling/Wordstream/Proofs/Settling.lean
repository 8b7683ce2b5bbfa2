import Mathlib.Data.List.Forall2
import Wordstream.Proofs.Lives

/-!
# Settling

Settling drives the tasks that are pending in batches. While a batch is driven its tasks may use
further suspensions, whose tasks are enlisted for the next batch. If settling comes to an end, no
task is pending: the batches together are the tasks that were pending and those that were enlisted
on the way, in that order, and each of them has its result. The answer is the first failure in
that order, and a failure keeps no other task from its end.

## Main results

* `enlisting` — evaluation makes tasks by the use of suspensions only, and enlists each of them
* `Advances.enlists` — what is made while tasks are driven is enlisted, or is a side of a pipe
* `finished_pollAll` — a batch that is settled leaves each of its tasks finished
* `Course.settle_complete` — settling is complete
-/

namespace Wordstream

/-! ## Enlisting -/

theorem surroundings_of_resume {ref : Ref .suspension} {input : Option (Ref .channel)}
    {result : Option (Except Failure (Ref .task))} {m m' : Machine}
    (ended : resume ref input m = (result, m')) : m'.surroundings = m.surroundings := by
  have same := surroundings_resume ref input m
  rwa [ended] at same

/-- The only task that is made by resuming a suspension is its own. -/
theorem made_of_resume {ref : Ref .suspension} {input : Option (Ref .channel)}
    {result : Option (Except Failure (Ref .task))} {m m' : Machine}
    (ended : resume ref input m = (result, m')) {task : Ref .task} (has : m'.tasks.Has task) :
    m.tasks.Has task ∨ (m'.task task).suspension = ref := by
  rw [resume_apply] at ended
  split at ended
  · cases ended
    exact .inl has
  · split at ended
    · cases ended
      exact .inl has
    · cases pending : (m.suspension ref).work with
      | none =>
        rw [pending] at ended
        cases ended
        exact .inl has
      | some work =>
        rw [pending] at ended
        cases ended
        -- The task of this suspension is put behind all others, which stay.
        by_cases new : task = m.tasks.next
        · have made : (m.startTask ref work input).2.task task =
              ⟨ref, (m.suspension ref).out, .ready work input, ⟨work, input⟩⟩ :=
            (Arena.get_alloc ..).trans (if_pos new)
          exact .inr (congrArg TaskState.suspension made)
        · exact .inl (Arena.has_of_alloc has new)

section Pipes

variable {left right : Ref .suspension} {relay : Ref .channel} {input : Option (Ref .channel)}
  {given : Except Failure Progress} {m m' : Machine}
  (ended : startPipe left right relay input m = (some given, m'))

include ended

theorem surroundings_of_startPipe : m'.surroundings = m.surroundings := by
  rcases startPipe_cases ended with ⟨_, _, refused⟩ | ⟨_, m₁, resumed, rest⟩
  · exact surroundings_of_resume refused
  · rw [← surroundings_of_resume resumed]
    rcases rest with ⟨_, _, refused⟩ | ⟨_, _, resumed'⟩
    · exact surroundings_of_resume refused
    · exact surroundings_of_resume resumed'

/-- The tasks that are made by starting a pipe are those of its sides. -/
theorem made_of_startPipe {task : Ref .task} (has : m'.tasks.Has task) :
    m.tasks.Has task ∨ (m'.task task).suspension = left ∨ (m'.task task).suspension = right := by
  rcases startPipe_cases ended with ⟨_, _, refused⟩ | ⟨_, m₁, resumed, rest⟩
  · exact (made_of_resume refused has).imp_right .inl
  · obtain ⟨second, resumed'⟩ : ∃ second, resume right (some relay) m₁ = (second, m') := by
      rcases rest with ⟨_, _, refused⟩ | ⟨_, _, resumed'⟩
      · exact ⟨_, refused⟩
      · exact ⟨_, resumed'⟩
    have grows : m₁.Grows m' := grows_of_ended (resumes_growth right (some relay)) resumed'
    -- A task that the left side was resumed to is still of that side.
    rcases made_of_resume resumed' has with old | new
    · rw [(grows.follows.1.retains old).1]
      exact (made_of_resume resumed old).imp_right .inl
    · exact .inr (.inr new)

end Pipes

namespace Machine

/-- Suspensions are used, and the tasks that they are resumed to are enlisted in this order. Pipes
that are started resume their sides, whose tasks are not enlisted. Apart from that no task is
made, and nothing happens to the list of pending tasks. -/
inductive Enlists : Machine → List (Ref .task) → Machine → Prop
  | aside {m m' : Machine} (same : m'.pending = m.pending)
      (made : ∀ task, m'.tasks.Has task ↔ m.tasks.Has task) : Enlists m [] m'
  | use {m m' : Machine} {ref : Ref .suspension} {task : Ref .task}
      (used : autoResume (.suspension ref) m = (some (.ok (.task task)), m')) : Enlists m [task] m'
  | pipe {m m' : Machine} {ref : Ref .task} {left right : Ref .suspension} {relay : Ref .channel}
      {input : Option (Ref .channel)} {given : Except Failure Progress}
      (ready : (m.task ref).progress = .ready (.pipe left right relay) input)
      (started : startPipe left right relay input m = (some given, m')) : Enlists m [] m'
  | trans {m m' m'' : Machine} {tasks more : List (Ref .task)} (first : Enlists m tasks m')
      (second : Enlists m' more m'') : Enlists m (tasks ++ more) m''

namespace Enlists

variable {m m' : Machine} {tasks : List (Ref .task)}

/-- Tasks are enlisted behind those that are pending. -/
theorem pending (h : m.Enlists tasks m') : m'.pending = m.pending ++ tasks := by
  induction h with
  | aside same => rw [same, List.append_nil]
  | @use m m' ref task used =>
    obtain ⟨task, m₁, resumed, ended⟩ := Run.of_bind used
    cases ended
    have same : m₁.pending = m.pending := congrArg (·.2.2.pending) (surroundings_of_resume resumed)
    change m₁.pending ++ [task] = _
    rw [same]
  | pipe _ started =>
    rw [List.append_nil]
    exact congrArg (·.2.2.pending) (surroundings_of_startPipe started)
  | trans _ _ first second => rw [second, first, List.append_assoc]

/-- Tasks that are there stay. -/
theorem has (h : m.Enlists tasks m') {task : Ref .task} (known : m.tasks.Has task) :
    m'.tasks.Has task := by
  induction h with
  | aside _ made => exact (made task).2 known
  | @use m m' ref _ used =>
    have grows := grows_autoResume (.suspension ref) m
    rw [used] at grows
    exact grows.follows.1.task known
  | pipe _ started =>
    have grows := grows_of_ended (Modest.allows_startPipe resumes_growth _ _ _ _) started
    exact grows.follows.1.task known
  | trans _ _ first second => exact second (first known)

/-- What is enlisted has been made on the way. -/
theorem made (h : m.Enlists tasks m') {task : Ref .task} (member : task ∈ tasks) :
    ¬ m.tasks.Has task ∧ m'.tasks.Has task := by
  induction h with
  | aside | pipe => cases member
  | use used =>
    obtain ⟨made, m₁, resumed, ended⟩ := Run.of_bind used
    cases ended
    obtain ⟨_, work, _, rfl, rfl⟩ := of_resume resumed
    rw [List.mem_singleton.1 member]
    exact ⟨fun known => known.ne_next rfl, Arena.has_alloc_next ..⟩
  | trans first second ih ih' =>
    rcases List.mem_append.1 member with member | member
    · -- What is made by the first part stays during the second, and the other way round.
      exact ⟨(ih member).1, second.has (ih member).2⟩
    · exact ⟨fun known => (ih' member).1 (first.has known), (ih' member).2⟩

/-- No task is made by taking one further. -/
theorem of_set {ref : Ref .task} {task : TaskState} (has : m.tasks.Has ref)
    (pending : m'.pending = m.pending) (tasks : m'.tasks = m.tasks.set ref task) :
    m.Enlists [] m' :=
  .aside pending fun _ =>
    ⟨fun has' => Arena.has_of_set has (tasks ▸ has'), fun has' => tasks ▸ has'.set ref task⟩

end Enlists

/-- A task that a pipe has resumed one of its sides to when it was started. -/
def IsSide (m : Machine) (task : Ref .task) : Prop :=
  ∃ pipe left right relay, m.tasks.Has pipe ∧ (m.task pipe).errand.work = .pipe left right relay ∧
    (m.task pipe).progress.isReady = false ∧
    ((m.task task).suspension = left ∨ (m.task task).suspension = right)

/-- Sides of pipes remain so. -/
theorem IsSide.follows {m m' : Machine} {task : Ref .task} (side : m.IsSide task)
    (has : m.tasks.Has task) (follows : m.Follows m') : m'.IsSide task := by
  obtain ⟨pipe, left, right, relay, has_pipe, pipes, started, of_pipe⟩ := side
  obtain ⟨_, errand⟩ := follows.retains has_pipe
  obtain ⟨origin, _⟩ := follows.retains has
  refine ⟨pipe, left, right, relay, follows.task has_pipe, errand ▸ pipes,
    Bool.eq_false_iff.2 fun ready => ?_, origin ▸ of_pipe⟩
  rw [follows.ready has_pipe ready] at started
  cases started

/-- Every task that is made on the way is enlisted. -/
def Enrols (m m' : Machine) : Prop :=
  ∃ tasks, m.Enlists tasks m' ∧ ∀ task, m'.tasks.Has task → m.tasks.Has task ∨ task ∈ tasks

theorem Enrols.aside {m m' : Machine} (pending : m'.pending = m.pending)
    (tasks : m'.tasks = m.tasks) : m.Enrols m' :=
  ⟨[], .aside pending fun _ => tasks ▸ .rfl, fun _ has => .inl (tasks ▸ has)⟩

theorem Enrols.trans {m m' m'' : Machine} (first : m.Enrols m') (second : m'.Enrols m'') :
    m.Enrols m'' := by
  obtain ⟨tasks, enlists, made⟩ := first
  obtain ⟨more, enlists', made'⟩ := second
  refine ⟨tasks ++ more, enlists.trans enlists', fun task has => ?_⟩
  rcases made' task has with old | new
  · exact (made task old).imp_right (List.mem_append_left more)
  · exact .inr (List.mem_append_right tasks new)

/-- Every task that is made on the way is enlisted, or looked after by a pipe. -/
def Attributes (m : Machine) (tasks : List (Ref .task)) (m' : Machine) : Prop :=
  ∀ task, m'.tasks.Has task → m.tasks.Has task ∨ task ∈ tasks ∨ m'.IsSide task

theorem Attributes.trans {m m' m'' : Machine} {tasks more : List (Ref .task)}
    (first : m.Attributes tasks m') (second : m'.Attributes more m'') (follows : m'.Follows m'') :
    m.Attributes (tasks ++ more) m'' := by
  intro task has
  rcases second task has with old | new | side
  · rcases first task old with older | new | side
    · exact .inl older
    · exact .inr (.inl (List.mem_append_left more new))
    · exact .inr (.inr (side.follows old follows))
  · exact .inr (.inl (List.mem_append_right tasks new))
  · exact .inr (.inr side)

/-! ## Batches -/

/-- Batches are driven until no task is pending: each consists of the tasks that are pending when
its turn comes, and is driven until all of them have their results; what is enlisted meanwhile
makes up the next one. -/
inductive Settles (engine : Engine) (fuel : Nat) (outside : List Thing) :
    Machine → List (List (Ref .task)) → List (Ref .task) → Machine → Prop
  | done {m : Machine} (empty : m.pending = []) : Settles engine fuel outside m [] [] m
  | drive {m m₁ m' : Machine} {batches : List (List (Ref .task))} {tasks more : List (Ref .task)}
      {results : List Result} (waiting : m.pending ≠ [])
      (driven : driveUntil (pollBatch engine fuel m.pending) m.pending outside fuel
        { m with pending := [] } = (some (some results), m₁))
      (enlists : Enlists { m with pending := [] } tasks m₁)
      (rest : Settles engine fuel outside m₁ batches more m') :
      Settles engine fuel outside m (m.pending :: batches) (tasks ++ more) m'

namespace Settles

variable {engine : Engine} {fuel : Nat} {outside : List Thing} {m m' : Machine}
  {batches : List (List (Ref .task))} {enlisted : List (Ref .task)}

/-- What is driven is what was pending and what was enlisted, in that order. -/
theorem flatten_eq (h : m.Settles engine fuel outside batches enlisted m') :
    batches.flatten = m.pending ++ enlisted := by
  induction h with
  | done empty => rw [empty]; rfl
  | @drive m m₁ m' batches tasks more _ waiting driven enlists rest ih =>
    have pending : m₁.pending = tasks := enlists.pending
    rw [List.flatten_cons, ih, pending]

/-- What is enlisted has been made meanwhile. -/
theorem not_has (h : m.Settles engine fuel outside batches enlisted m') {task : Ref .task}
    (member : task ∈ enlisted) : ¬ m.tasks.Has task := by
  induction h with
  | done => cases member
  | drive _ _ enlists _ ih =>
    rcases List.mem_append.1 member with member | member
    · exact (enlists.made member).1
    · exact fun known => ih member (enlists.has known)

theorem pending_eq (h : m.Settles engine fuel outside batches enlisted m') : m'.pending = [] := by
  induction h with
  | done empty => exact empty
  | drive _ _ _ _ ih => exact ih

end Settles

/-! ## Results -/

/-- The results that tasks have. -/
def results (m : Machine) (tasks : List (Ref .task)) : List Result :=
  tasks.filterMap fun task => (m.task task).result?

/-- The failure of the first task that has failed, in the first batch that has one. -/
def failed? (m : Machine) (batches : List (List (Ref .task))) : Option Failure :=
  batches.findSome? fun batch => firstFailure? (m.results batch)

/-- What settling some batches has come to. -/
def settledResult (m : Machine) (batches : List (List (Ref .task))) : Result :=
  match m.failed? batches with
  | some failure => .error failure
  | none => .ok ()

/-- Tasks have finished, with these results. -/
abbrev Finished (m : Machine) (tasks : List (Ref .task)) (results : List Result) : Prop :=
  List.Forall₂ (fun task result => (m.task task).progress = .finished result) tasks results

namespace Finished

variable {m m' : Machine} {tasks : List (Ref .task)} {results : List Result}

theorem results_eq (h : m.Finished tasks results) : m.results tasks = results := by
  induction h with
  | nil => rfl
  | cons finished _ ih =>
    unfold Machine.results at ih ⊢
    rw [List.filterMap_cons, result?_eq_some.2 finished, ih]

theorem isSome (h : m.Finished tasks results) {task : Ref .task} (member : task ∈ tasks) :
    (m.task task).result?.isSome := by
  induction h with
  | nil => cases member
  | cons finished _ ih =>
    rcases List.mem_cons.1 member with rfl | member
    · rw [result?_eq_some.2 finished]
      rfl
    · exact ih member

/-- Tasks that have finished stay so while others are driven. -/
theorem advances {engine : Engine} (engaged : growth.discipline.Relates engine engine)
    {started : List (Ref .task)} (h : m.Finished tasks results) (orderly : m.Orderly)
    {settling : Bool} (advances : Advances engine settling started m m') :
    m'.Finished tasks results :=
  h.imp fun _ _ finished => advances.finished engaged orderly finished

end Finished

/-- There is no failure exactly if all results are good. -/
theorem firstFailure?_eq_none {results : List Result} :
    firstFailure? results = none ↔ ∀ result ∈ results, result = .ok () := by
  unfold firstFailure?
  rw [List.findSome?_eq_none_iff]
  refine forall₂_congr fun result _ => ?_
  cases result <;> simp

/-- Where every task has a result, settling has come to a good end exactly if all tasks have. -/
theorem settledResult_eq_ok {m : Machine} {batches : List (List (Ref .task))}
    (all : ∀ task ∈ batches.flatten, (m.task task).result?.isSome) :
    m.settledResult batches = .ok () ↔
      ∀ task ∈ batches.flatten, (m.task task).result? = some (.ok ()) := by
  have none_iff : m.settledResult batches = .ok () ↔ m.failed? batches = none := by
    unfold settledResult
    cases m.failed? batches <;> simp
  rw [none_iff, failed?, List.findSome?_eq_none_iff]
  constructor
  · intro good task member
    obtain ⟨batch, member_batch, member_task⟩ := List.mem_flatten.1 member
    obtain ⟨result, given⟩ := Option.isSome_iff_exists.1 (all task member)
    have ok := firstFailure?_eq_none.1 (good batch member_batch) result
      (List.mem_filterMap.2 ⟨task, member_task, given⟩)
    rw [given, ok]
  · intro good batch member_batch
    refine firstFailure?_eq_none.2 fun result member => ?_
    obtain ⟨task, member_task, given⟩ := List.mem_filterMap.1 member
    have ok := good task (List.mem_flatten.2 ⟨batch, member_batch, member_task⟩)
    exact Option.some.inj (given.symm.trans ok)

end Machine

/-- Evaluation makes tasks by the use of suspensions only and enlists each of them, wherever it
stops. -/
def enlisting : Trend where
  Holds := Machine.Enrols
  trans := .trans
  stir h := .aside (congrArg Machine.Agenda.pending h.agenda_eq)
    (congrArg Machine.Plumbing.tasks h.plumbing_eq)
  arrange same makes := .aside (congrArg (·.2.2.pending) same) makes.tasks_eq
  enlist value m := by
    rcases of_autoResume value m with same | ⟨ref, task, m', rfl, resumed, used⟩
    · rw [same]
      exact .aside rfl rfl
    · rw [used]
      obtain ⟨_, work, _, rfl, rfl⟩ := of_resume resumed
      refine ⟨[m.tasks.next], .use used, fun task has => ?_⟩
      by_cases new : task = m.tasks.next
      · exact .inr (List.mem_singleton.2 new)
      · exact .inl (Arena.has_of_alloc has new)
  enter _ _ _ := .aside rfl rfl
  leave m := by
    unfold Machine.leave
    cases m.calls <;> exact .aside rfl rfl
  mount _ _ _ := .aside rfl rfl
  dismount _ _ _ _ := .aside rfl rfl

section Enlistment

variable {engine : Engine} (h : growth.discipline.Relates engine engine)
  (enrolled : enlisting.modest.discipline.Relates engine engine)

include h enrolled

/-- The tasks that are made while a task is pursued are enlisted. -/
theorem Pursues.enrols {ref : Ref .task} {m m' : Machine} {result : Option Result}
    (has : m.tasks.Has ref) (pursues : Pursues engine ref m result m') : m.Enrols m' := by
  have further {m₁ : Machine} (tends : engine.Tends m m₁) {task : TaskState}
      (pending : m'.pending = m₁.pending) (tasks : m'.tasks = m₁.tasks.set ref task) :
      m.Enrols m' := by
    have grows : m.Grows m₁ := tends growing h
    have has₁ : m₁.tasks.Has ref := grows.follows.1.task has
    have enrols : m.Enrols m₁ := tends enlisting enrolled
    exact enrols.trans ⟨[], .of_set has₁ pending tasks, fun _ has' =>
      .inl (Arena.has_of_set has₁ (tasks ▸ has'))⟩
  cases pursues with
  | @finish m₁ tends given =>
    rw [finishTask_apply] at further ⊢
    exact further tends rfl rfl
  | proceed tends => exact further tends rfl rfl

omit h enrolled in
/-- The tasks that are made when a pipe is started are those of its sides. -/
theorem enlists_startPipe {ref : Ref .task} {left right : Ref .suspension} {relay : Ref .channel}
    {input : Option (Ref .channel)} {result : Option Result} {m m' : Machine} (orderly : m.Orderly)
    (ready : (m.task ref).progress = .ready (.pipe left right relay) input)
    (started : startWork engine ref (.pipe left right relay) input m = (some result, m')) :
    m.Enlists [] m' ∧ m.Attributes [] m' := by
  have has : m.tasks.Has ref := Machine.has_of_progress (by simp [ready])
  have attends := attends_startPipe orderly has (by rw [ready]; rfl) started
  obtain ⟨given, m₁, resumed, ended⟩ := Effect.of_bind started
  have grows : m.Grows m₁ :=
    grows_of_ended (Modest.allows_startPipe resumes_growth left right relay input) resumed
  have has₁ : m₁.tasks.Has ref := grows.follows.1.task has
  obtain ⟨task, pending, tasks, origin⟩ : ∃ task, m'.pending = m₁.pending ∧
      m'.tasks = m₁.tasks.set ref task ∧ task.suspension = (m₁.task ref).suspension := by
    cases given with
    | ok progress =>
      cases ended
      exact ⟨_, rfl, rfl, rfl⟩
    | error failure =>
      dsimp only at ended
      rw [finishTask_apply] at ended
      cases ended
      exact ⟨_, rfl, rfl, rfl⟩
  have origin_eq (other : Ref .task) : (m'.task other).suspension = (m₁.task other).suspension := by
    rw [Machine.task, tasks, Arena.get_set]
    split
    · next same => rw [same, origin]
    · rfl
  refine ⟨(Machine.Enlists.pipe ready resumed).trans (.of_set has₁ pending tasks),
    fun other has' => ?_⟩
  -- The pipe is for what it was made for, and has been started.
  have errand : (m.task ref).errand.work = .pipe left right relay := by
    have isNew := orderly.fresh has (by rw [ready]; rfl)
    rw [TaskState.IsNew, ready] at isNew
    exact (Progress.ready.inj isNew).1.symm
  refine (made_of_startPipe resumed (Arena.has_of_set has₁ (tasks ▸ has'))).imp_right fun side =>
    .inr ⟨ref, left, right, relay, attends.follows.task has, ?_, attends.started, ?_⟩
  · rw [attends.errand, errand]
  · rwa [origin_eq]

/-- What is made while tasks are driven is enlisted by that, or is a side of a pipe. -/
theorem Advances.enlists {started : List (Ref .task)} {m m' : Machine}
    (advances : Advances engine false started m m') (orderly : m.Orderly) :
    ∃ tasks, m.Enlists tasks m' ∧ m.Attributes tasks m' := by
  have aside {m m' : Machine} (pending : m'.pending = m.pending) (tasks : m'.tasks = m.tasks) :
      ∃ tasks, m.Enlists tasks m' ∧ m.Attributes tasks m' :=
    ⟨[], .aside pending fun _ => tasks ▸ .rfl, fun _ has => .inl (tasks ▸ has)⟩
  have pursued {m m' : Machine} {ref : Ref .task} {result : Option Result}
      (has : m.tasks.Has ref) (pursues : Pursues engine ref m result m') :
      ∃ tasks, m.Enlists tasks m' ∧ m.Attributes tasks m' := by
    obtain ⟨tasks, enlists, made⟩ := pursues.enrols h enrolled has
    exact ⟨tasks, enlists, fun task has => (made task has).imp_right .inl⟩
  induction advances with
  | rest | abandon => exact aside rfl rfl
  | clear _ settles => cases settles
  | @start m m' ref work input result ready started =>
    cases work with
    | pipe left right relay => exact ⟨[], enlists_startPipe orderly ready started⟩
    | _ =>
      exact pursued (Machine.has_of_progress (by simp [ready])) (pursues_startWork rfl started)
  | write writing written =>
    exact pursued (Machine.has_of_progress (by simp [writing])) (pursues_continueSource written)
  | hear waiting =>
    exact pursued (Machine.has_of_progress (by simp [waiting])) (.finish (.refl engine _) _)
  | join joining =>
    exact pursued (Machine.has_of_progress (by simp [joining])) (.finish (.refl engine _) _)
  | trans earlier later first second =>
    obtain ⟨orderly₁, _, _⟩ := earlier.outcome h orderly
    obtain ⟨tasks, enlists, made⟩ := first orderly
    obtain ⟨more, enlists', made'⟩ := second orderly₁
    exact ⟨tasks ++ more, enlists.trans enlists',
      made.trans made' (later.outcome h orderly₁).2.1⟩

end Enlistment

/-! ## Rounds -/

/-- Results are those of all. -/
theorem of_allResults? {given : List (Option Result)} {results : List Result}
    (h : allResults? given = some results) : given = results.map some := by
  induction given generalizing results with
  | nil =>
    cases h
    rfl
  | cons first rest ih =>
    cases first with
    | none => cases h
    | some result =>
      obtain ⟨others, all, rfl⟩ := Option.map_eq_some_iff.1 h
      rw [ih all]
      rfl

section Rounds

variable {engine : Engine} (h : growth.discipline.Relates engine engine)

include h

/-- If polling in turn gives all results, all tasks have finished with these. -/
theorem finished_pollAll (fuel : Nat) {tasks : List (Ref .task)} {results : List Result}
    {m m' : Machine} (orderly : m.Orderly)
    (ended : pollAll engine fuel tasks m = (some (results.map some), m')) :
    m'.Finished tasks results := by
  induction tasks generalizing m results with
  | nil =>
    obtain ⟨none, _⟩ := Prod.mk.inj ended
    rw [List.map_eq_nil_iff.1 (Option.some.inj none).symm]
    exact .nil
  | cons task rest ih =>
    obtain ⟨first, m₁, polled, ended⟩ := Effect.of_bind ended
    obtain ⟨others, m₂, polled', ended⟩ := Effect.of_bind ended
    cases results with
    | nil => cases ended
    | cons result results =>
      cases ended
      obtain ⟨⟨started, advances⟩, _, finished⟩ := polled_poll h fuel orderly polled
      have orderly₁ := (advances.outcome h orderly).1
      obtain ⟨more, advances'⟩ := advances_pollAll h fuel orderly₁ polled'
      -- The first task has finished before the others are polled, and stays so.
      exact .cons (advances'.finished h orderly₁ (finished result rfl)) (ih orderly₁ polled')

/-- A batch that is driven until there are all results leaves its tasks finished with these. -/
theorem finished_driveUntil {batch : List (Ref .task)} {outside : List Thing} (pollFuel fuel : Nat)
    {m m' : Machine} {results : List Result} (orderly : m.Orderly)
    (ended : driveUntil (pollBatch engine pollFuel batch) batch outside fuel m =
      (some (some results), m')) :
    (∃ started, Advances engine false started m m') ∧ m'.Finished batch results := by
  obtain ⟨advances, last⟩ :=
    advances_driveUntil h (advances_pollBatch h pollFuel) fuel orderly ended
  obtain ⟨_, orderly_last, polled⟩ := last rfl
  obtain ⟨given, m₁, inTurn, answered⟩ := Effect.of_bind polled
  obtain ⟨all, rfl⟩ := Prod.mk.inj answered
  rw [of_allResults? (Option.some.inj all)] at inTurn
  exact ⟨advances, finished_pollAll h pollFuel orderly_last inTurn⟩

/-- Settling that comes to an end has settled batch after batch, and its answer is the failure
that it began with or the first one that it found. -/
theorem of_settleBatches (enlists : enlisting.modest.discipline.Relates engine engine)
    (pollFuel : Nat) {outside : List Thing} (fuel : Nat) {failure : Option Failure}
    {m m' : Machine} {result : Result} (orderly : m.Orderly)
    (ended : settleBatches engine pollFuel outside fuel failure m = (some (.finished result), m')) :
    ∃ batches enlisted, m.Settles engine pollFuel outside batches enlisted m' ∧
      m.Attributes enlisted m' ∧ (∀ task ∈ batches.flatten, (m'.task task).result?.isSome) ∧
      result = match failure <|> m'.failed? batches with
        | some failure => .error failure
        | none => .ok () := by
  induction fuel generalizing m failure with
  | zero => cases ended
  | succ fuel ih =>
    obtain ⟨_, _, looked, ended⟩ := Effect.of_bind ended
    cases looked
    obtain ⟨_, m₁, emptied, ended⟩ := Effect.of_bind ended
    cases emptied
    have orderly₁ : ({ m with pending := [] } : Machine).Orderly := orderly.of_eq rfl rfl
    split at ended
    · next empty =>
      have empty := List.isEmpty_iff.1 empty
      -- Nothing was pending, so that taking tasks off the list has changed nothing.
      have same : ({ m with pending := [] } : Machine) = m := by rw [← empty]
      have settled : m.Settles engine pollFuel outside [] [] { m with pending := [] } := by
        rw [same]
        exact .done empty
      cases failure <;> cases ended <;>
        exact ⟨[], [], settled, fun _ has => .inl has, nofun, rfl⟩
    · next waiting =>
      obtain ⟨given, m₂, driven, ended⟩ := Effect.of_bind ended
      cases given with
      | none => cases ended
      | some results =>
        obtain ⟨⟨started, advances⟩, finished⟩ :=
          finished_driveUntil h pollFuel pollFuel orderly₁ driven
        have orderly₂ := (advances.outcome h orderly₁).1
        -- What was enlisted while the batch was driven forms the next one.
        obtain ⟨tasks, enlisted, made⟩ := advances.enlists h enlists orderly₁
        obtain ⟨more, advances'⟩ := advances_settleBatches h pollFuel fuel orderly₂ ended
        obtain ⟨batches, later, settles, made', all, rfl⟩ := ih orderly₂ ended
        -- The results of this batch stay while later ones are driven.
        have finished := finished.advances h orderly₂ advances'
        refine ⟨m.pending :: batches, tasks ++ later,
          .drive (fun empty => waiting (List.isEmpty_iff.2 empty)) driven enlisted settles,
          made.trans made' (advances'.outcome h orderly₂).2.1, fun task member => ?_, ?_⟩
        · rcases List.mem_append.1 member with member | member
          · exact finished.isSome member
          · exact all task member
        · -- The failures of this batch come before those of later ones.
          have split : m'.failed? (m.pending :: batches) =
              (firstFailure? results <|> m'.failed? batches) := by
            unfold Machine.failed?
            rw [List.findSome?_cons, finished.results_eq]
            cases firstFailure? results <;> rfl
          rw [split]
          cases failure <;> rfl

end Rounds

/-- Settling is complete, whatever was asked of a machine before. If it comes to an end, no task
is pending. The tasks that were driven, batch by batch, are those that were pending and those that
were made and enlisted meanwhile; and every task that has been made meanwhile is one of these, or
a pipe that was started has resumed one of its sides to it. Each of the tasks that were driven has
its result, whether others have failed or not. The answer is the failure of the first task that has
failed in the first batch that has one, and it is good exactly if all those tasks have come to a
good end. -/
theorem Course.settle_complete {host : Host} (hosted : growth.discipline.Admits host)
    (enlists : enlisting.modest.discipline.Admits host) {m₀ m m' : Machine}
    (untouched : m₀.Untouched) (course : Course host m₀ m) {fuel : Nat} {outside : List Thing}
    {result : Result}
    (ended : settle (.ofFuel host fuel) fuel outside m = (some (.finished result), m')) :
    ∃ batches enlisted,
      m.Settles (.ofFuel host fuel) fuel outside batches enlisted m' ∧ m'.pending = [] ∧
      batches.flatten = m.pending ++ enlisted ∧ (∀ task ∈ enlisted, ¬ m.tasks.Has task) ∧
      (∀ task, m'.tasks.Has task → m.tasks.Has task ∨ task ∈ enlisted ∨ m'.IsSide task) ∧
      (∀ task ∈ m.pending ++ enlisted, (m'.task task).result?.isSome) ∧
      result = m'.settledResult batches ∧
      (result = .ok () ↔
        ∀ task ∈ m.pending ++ enlisted, (m'.task task).result? = some (.ok ())) := by
  have orderly := (course.orderly hosted untouched.orderly).1
  obtain ⟨batches, enlisted, settles, made, all, rfl⟩ :=
    of_settleBatches (Engine.grows_ofFuel hosted fuel) (Trend.relates_ofFuel enlists fuel) fuel fuel
      orderly ended
  have driven := settles.flatten_eq
  have good := Machine.settledResult_eq_ok all
  rw [driven] at all good
  exact ⟨batches, enlisted, settles, settles.pending_eq, driven, fun _ => settles.not_has, made,
    all, rfl, good⟩

deriving instance DecidableEq for Driven

/-- A streaming procedure that calls another one and then fails, and the other one fails too. -/
def failingText : String :=
  "proc: native [params body] :core/proc throw: native [message] :core/throw
  f: proc [/out] [throw \"late\"] g: proc [/out] [f throw \"early\"] g"

/-- The call within is enlisted for a batch of its own and driven to its end, though the body that
it comes from has failed; and it is the failure of that body which is the answer. -/
theorem Course.settle_complete_of_failures :
    let asked := (Demand.evaluate failingText).run (.ofFuel toolkit 20) 20 .stocked
    let settled := settle (.ofFuel toolkit 20) 20 [] asked.2
    asked.2.pending = [⟨0⟩] ∧ asked.2.tasks.cells.size = 1 ∧ settled.2.tasks.cells.size = 2 ∧
      settled.2.pending = [] ∧
      (settled.2.task ⟨0⟩).result? = some (.error (.thrown "early")) ∧
      (settled.2.task ⟨1⟩).result? = some (.error (.thrown "late")) ∧
      ∃ batches enlisted,
        asked.2.Settles (.ofFuel toolkit 20) 20 [] batches enlisted settled.2 ∧
        batches.flatten = ⟨0⟩ :: enlisted ∧ ⟨1⟩ ∈ enlisted ∧
        settled.2.settledResult batches = .error (.thrown "early") := by
  intro asked settled
  obtain ⟨done, pending, one, two, answer⟩ : asked.1.isSome ∧ asked.2.pending = [⟨0⟩] ∧
      asked.2.tasks.cells.size = 1 ∧ settled.2.tasks.cells.size = 2 ∧
      settled.1 = some (.finished (.error (.thrown "early"))) := by
    decide +kernel
  obtain ⟨early, late, works, works'⟩ :
      (settled.2.task ⟨0⟩).result? = some (.error (.thrown "early")) ∧
      (settled.2.task ⟨1⟩).result? = some (.error (.thrown "late")) ∧
      (settled.2.task ⟨0⟩).errand.work.tells ∧ (settled.2.task ⟨1⟩).errand.work.tells := by
    decide +kernel
  have course : Course toolkit .stocked asked.2 := Course.refl.ask (.evaluate failingText) 20 done
  obtain ⟨batches, enlisted, settles, none, driven, -, made, -, same, -⟩ := course.settle_complete
    (Discipline.admits_toolkit growth.practice.isLax)
    (Discipline.admits_toolkit enlisting.modest.practice.isLax) Machine.untouched_stocked
    (Prod.ext answer rfl)
  rw [pending] at driven
  have has : settled.2.tasks.Has ⟨1⟩ := by
    change 1 < settled.2.tasks.cells.size
    rw [two]
    decide
  -- The task was not there before, and no task is that of a pipe.
  have member : ⟨1⟩ ∈ enlisted := by
    rcases made ⟨1⟩ has with old | new | ⟨⟨i⟩, left, right, relay, has_pipe, pipes, -⟩
    · change 1 < asked.2.tasks.cells.size at old
      rw [one] at old
      exact absurd old (by decide)
    · exact new
    · change i < settled.2.tasks.cells.size at has_pipe
      rw [two] at has_pipe
      obtain rfl | rfl : i = 0 ∨ i = 1 := by omega
      · rw [pipes] at works
        cases works
      · rw [pipes] at works'
        cases works'
  exact ⟨pending, one, two, none, early, late, batches, enlisted, settles, driven, member,
    same.symm⟩

end Wordstream
