import Wordstream.Proofs.Discharge

/-!
# Tasks on their errands

Every task is accounted for. It has not been started, or it writes, or it waits for its stage or
for the two sides that it has resumed, or it has finished, and then what its output was told is
known. A task that takes steps has told its output its result, unless it found its input taken or
has lost it. So has a source of the host, unless it keeps quiet or has an input to relay. A pipe
has the first failure of its sides, unless one of them was resumed before.

## Main results

* `startPipe_feeds`, `startPipe_usurped` — a pipe that is started feeds its sides or has come too
  late
* `Machine.Accountable.startWork` — a task that is started is accounted for
* `Machine.Accountable.advance` — driving accounts for every task
-/

namespace Wordstream

/-- Whether work is a matter of steps: running a body, or making a call. -/
def Work.isStep : Work → Bool
  | .body _ | .call .. => true
  | _ => false

theorem Work.tells_of_isStep {work : Work} (step : work.isStep) : work.tells := by
  cases work with
  | body | call => rfl
  | pipe | source => cases step

namespace Machine

/-! ## Accounts of tasks -/

/-- A pipe has resumed both of its sides. The left one has the input of the pipe and is relayed to
the right one, which has the output of the pipe. -/
structure Feeds (m : Machine) (task : Ref .task) (left right : Ref .suspension)
    (relay : Ref .channel) (one other : Ref .task) : Prop where
  newer : task.index < one.index
  newer' : task.index < other.index
  has : m.tasks.Has one
  has' : m.tasks.Has other
  origin : (m.task one).suspension = left
  origin' : (m.task other).suspension = right
  input : (m.task one).errand.input = (m.task task).errand.input
  relays : (m.channel (m.task one).out).listener? = some (.forward relay)
  relayed : (m.task other).errand.input = some relay
  out : (m.task other).out = (m.task task).out

/-- Where a task is on its errand as long as it has no result: it has not been started, or it is a
source that pauses or hangs, or it waits for its stage or for the sides that it has resumed. -/
inductive Underway (m : Machine) (task : Ref .task) : Prop
  | fresh (isNew : (m.task task).IsNew)
  | writing {source rest : Source} (writes : (m.task task).errand.work = .source source)
      (alone : (m.task task).errand.input = none)
      (pauses : (m.task task).progress = .writing rest) (same : rest.ending = source.ending)
  | hanging (hangs : (m.task task).progress = .hanging)
  | waiting {stage : Ref .stage} {input : Ref .channel} (step : (m.task task).errand.work.isStep)
      (given : (m.task task).errand.input = some input)
      (waits : (m.task task).progress = .waiting stage input) (has : m.stages.Has stage)
      (out : (m.stages.get stage).out = (m.task task).out)
      (hears : (m.channel input).listener? = some (.stage stage))
  | joining {left right : Ref .suspension} {relay : Ref .channel} {one other : Ref .task}
      (pipes : (m.task task).errand.work = .pipe left right relay)
      (feeds : m.Feeds task left right relay one other)
      (joins : (m.task task).progress = .joining one other)

/-- Where a task is on its errand, and what its output was told if it has come to an end. -/
inductive Accounted (own : Ref .channel → Prop) (m : Machine) (task : Ref .task) : Prop
  | underway (underway : m.Underway task)
  | told {result : Result} (tells : (m.task task).errand.work.tells)
      (finished : (m.task task).progress = .finished result)
      (told : own (m.task task).out → (m.channel (m.task task).out).ending =
        some (.ofResult result))
      (whole : result = .ok () → ∀ input, (m.task task).errand.input = some input →
        (m.channel input).ending = some .complete)
  | mute {source : Source} {result : Result} (writes : (m.task task).errand.work = .source source)
      (mute : (m.task task).errand.input.isSome ∨ ∃ failure, source.ending = .quiet failure)
      (finished : (m.task task).progress = .finished result)
      (relays : result = .ok () → ∃ input, (m.task task).errand.input = some input ∧
        (m.channel input).listener? = some (.forward (m.task task).out))
  | refused {stage : Ref .stage} {input : Ref .channel} (step : (m.task task).errand.work.isStep)
      (given : (m.task task).errand.input = some input)
      (finished : (m.task task).progress = .finished (.error .alreadySubscribed))
      (taken : (m.channel input).listener?.isSome) (has : m.stages.Has stage)
      (out : (m.stages.get stage).out = (m.task task).out)
      (nowhere : ∀ x, (m.channel x).listener? ≠ some (.stage stage))
      (silent : own (m.task task).out → (m.channel (m.task task).out).ending = none)
  | lost {input : Ref .channel} (step : (m.task task).errand.work.isStep)
      (given : (m.task task).errand.input = some input)
      (finished : (m.task task).progress = .finished inputDropped)
      (abandoned : (m.channel input).abandoned)
  | joined {left right : Ref .suspension} {relay : Ref .channel} {one other : Ref .task}
      {first second : Result} (pipes : (m.task task).errand.work = .pipe left right relay)
      (feeds : m.Feeds task left right relay one other)
      (first_done : (m.task one).progress = .finished first)
      (second_done : (m.task other).progress = .finished second)
      (finished : (m.task task).progress = .finished (bothResults first second))
  | usurped {left right side : Ref .suspension} {relay : Ref .channel} {usurper : Ref .task}
      (pipes : (m.task task).errand.work = .pipe left right relay)
      (of_pipe : side = left ∨ side = right)
      (finished : (m.task task).progress = .finished (.error .alreadyResumed))
      (has : m.tasks.Has usurper) (resumed : (m.task usurper).suspension = side)

/-- A task that has no result is underway. -/
theorem Accounted.underway_of {own : Ref .channel → Prop} {m : Machine} {task : Ref .task}
    (h : m.Accounted own task) (unfinished : (m.task task).progress.phase = .resuming) :
    m.Underway task := by
  cases h with
  | underway underway => exact underway
  | told _ finished | mute _ _ finished | refused _ _ finished | lost _ _ finished
  | joined _ _ _ _ finished | usurped _ _ finished =>
    rw [finished] at unfinished
    exact absurd unfinished (Progress.phase_finished _)

/-- What is told of channels and stages stays true, tasks stay what they are, and results stay. -/
structure Upholds (own : Ref .channel → Prop) (m m' : Machine) : Prop where
  honours : m.Honours own m'
  has {task : Ref .task} (has : m.tasks.Has task) : m'.tasks.Has task
  origin {task : Ref .task} (has : m.tasks.Has task) :
    (m'.task task).suspension = (m.task task).suspension
  out {task : Ref .task} (has : m.tasks.Has task) : (m'.task task).out = (m.task task).out
  errand {task : Ref .task} (has : m.tasks.Has task) : (m'.task task).errand = (m.task task).errand
  finished {task : Ref .task} {result : Result}
    (finished : (m.task task).progress = .finished result) :
    (m'.task task).progress = .finished result

section Upholding

variable {own : Ref .channel → Prop} {m m' : Machine} {task : Ref .task}

theorem Grows.upholds (grows : m.Grows m') (orderly : m.Orderly) (honours : m.Honours own m') :
    m.Upholds own m' := by
  have same {task : Ref .task} (has : m.tasks.Has task) := grows.task_eq orderly has
  refine ⟨honours, fun has => ((grows.orderly orderly).2.2 _ has).1, fun has => by rw [same has],
    fun has => by rw [same has], fun has => by rw [same has], fun finished => ?_⟩
  rw [same (has_of_progress (by simp [finished])), finished]

theorem Attends.upholds {ref : Ref .task} (attends : m.Attends ref m')
    (unfinished : (m.task ref).progress.phase = .resuming) (honours : m.Honours own m') :
    m.Upholds own m' := by
  refine ⟨honours, attends.follows.task, fun {task} has => ?_, fun {task} has => ?_,
    fun {task} has => ?_, fun {task result} finished => ?_⟩
  · by_cases at_ref : task = ref
    · rw [at_ref, attends.origin]
    · rw [attends.others has at_ref]
  · by_cases at_ref : task = ref
    · rw [at_ref, attends.out]
    · rw [attends.others has at_ref]
  · by_cases at_ref : task = ref
    · rw [at_ref, attends.errand]
    · rw [attends.others has at_ref]
  · have apart : task ≠ ref := by
      rintro rfl
      rw [finished] at unfinished
      exact Progress.phase_finished result unfinished
    rw [attends.others (has_of_progress (by simp [finished])) apart, finished]

theorem Feeds.mono {left right : Ref .suspension} {relay : Ref .channel} {one other : Ref .task}
    (h : m.Feeds task left right relay one other) (has : m.tasks.Has task)
    (upholds : m.Upholds own m') : m'.Feeds task left right relay one other where
  newer := h.newer
  newer' := h.newer'
  has := upholds.has h.has
  has' := upholds.has h.has'
  origin := (upholds.origin h.has).trans h.origin
  origin' := (upholds.origin h.has').trans h.origin'
  input := by rw [upholds.errand h.has, upholds.errand has, h.input]
  relays := by
    rw [upholds.out h.has]
    exact upholds.honours.listener h.relays
  relayed := by rw [upholds.errand h.has', h.relayed]
  out := by rw [upholds.out h.has', upholds.out has, h.out]

theorem Underway.mono (h : m.Underway task) (has : m.tasks.Has task) (upholds : m.Upholds own m')
    (same : (m'.task task).progress = (m.task task).progress) : m'.Underway task := by
  have errand := upholds.errand has
  cases h with
  | fresh isNew =>
    refine .fresh ?_
    unfold TaskState.IsNew
    rw [same, errand]
    exact isNew
  | writing writes alone pauses ending =>
    exact .writing (errand ▸ writes) (errand ▸ alone) (same ▸ pauses) ending
  | hanging hangs => exact .hanging (same ▸ hangs)
  | waiting step given waits has_stage out hears =>
    obtain ⟨has_stage, stage_out⟩ := upholds.honours.stage has_stage
    exact .waiting (errand ▸ step) (errand ▸ given) (same ▸ waits) has_stage
      (by rw [stage_out, out, upholds.out has]) (upholds.honours.listener hears)
  | joining pipes feeds joins =>
    exact .joining (errand ▸ pipes) (feeds.mono has upholds) (same ▸ joins)

/-- The account of a task that is not attended to stays. -/
theorem Accounted.mono (h : m.Accounted own task) (has : m.tasks.Has task)
    (upholds : m.Upholds own m')
    (same : (m'.task task).progress = (m.task task).progress) : m'.Accounted own task := by
  have errand := upholds.errand has
  have out_eq := upholds.out has
  have honours := upholds.honours
  cases h with
  | underway underway => exact .underway (underway.mono has upholds same)
  | told tells finished told whole =>
    refine .told (errand ▸ tells) (same ▸ finished) (fun owned => ?_) fun ok input given => ?_
    · rw [out_eq] at owned ⊢
      exact honours.ending (told owned)
    · exact honours.ending (whole ok input (errand ▸ given))
  | mute writes mute finished relays =>
    refine .mute (errand ▸ writes) (errand ▸ mute) (same ▸ finished) fun ok => ?_
    obtain ⟨input, given, hears⟩ := relays ok
    exact ⟨input, errand ▸ given, by rw [out_eq]; exact honours.listener hears⟩
  | refused step given finished taken has_stage out nowhere silent =>
    -- The stage of this task listens nowhere, so that nothing can enter it.
    obtain ⟨_, ending⟩ := honours.shielded has_stage fun x hears => absurd hears (nowhere x)
    obtain ⟨listener, hears⟩ := Option.isSome_iff_exists.1 taken
    obtain ⟨known, stage_out⟩ := honours.stage has_stage
    refine .refused (errand ▸ step) (errand ▸ given) (same ▸ finished)
      (by rw [honours.listener hears]; rfl) known (by rw [stage_out, out, out_eq])
      (fun x hears => nowhere x (honours.attached has_stage hears)) fun owned => ?_
    rw [out_eq] at owned ⊢
    rw [out] at ending
    exact (ending owned).trans (silent owned)
  | lost step given finished abandoned =>
    exact .lost (errand ▸ step) (errand ▸ given) (same ▸ finished) (honours.abandoned abandoned)
  | joined pipes feeds first_done second_done finished =>
    exact .joined (errand ▸ pipes) (feeds.mono has upholds) (upholds.finished first_done)
      (upholds.finished second_done) (same ▸ finished)
  | usurped pipes of_pipe finished has_usurper resumed =>
    exact .usurped (errand ▸ pipes) of_pipe (same ▸ finished) (upholds.has has_usurper)
      ((upholds.origin has_usurper).trans resumed)

/-- A source without an input is accounted for by what it has written. -/
theorem Wrote.accounted {source : Source} (wrote : m.Wrote own task (m.task task).out source.ending)
    (writes : (m.task task).errand.work = .source source)
    (alone : (m.task task).errand.input = none) : m.Accounted own task := by
  cases wrote with
  | pausing pauses same => exact .underway (.writing writes alone pauses same)
  | hanging hangs => exact .underway (.hanging hangs)
  | told finished told =>
    refine .told (by rw [writes]; rfl) finished told fun _ input given => ?_
    cases alone.symm.trans given
  | quiet keeps finished => exact .mute writes (.inr ⟨_, keeps⟩) finished nofun

end Upholding

/-- Guard is kept and nobody is in the middle of something, and every task is accounted for. -/
structure Accountable (own : Ref .channel → Prop) (m : Machine) : Prop where
  guarded : m.Guarded own none
  orderly : m.Orderly
  free (x : Ref .channel) : (m.channel x).isBusy = false
  account {task : Ref .task} (has : m.tasks.Has task) : m.Accounted own task

namespace Accountable

variable {own : Ref .channel → Prop} {m m' : Machine} {ref : Ref .task}

/-- Tasks that are made meanwhile have not been started, and the others are as they were. -/
theorem grow (h : m.Accountable own) (grows : m.Grows m') (guarded : m'.Guarded own none)
    (honours : m.Honours own m') : m'.Accountable own := by
  refine ⟨guarded, (grows.orderly h.orderly).1, fun x => (honours.busy x).trans (h.free x),
    fun {task} has => ?_⟩
  rcases grows.isNew h.orderly has with known | new
  · exact (h.account known).mono known (grows.upholds h.orderly honours)
      (by rw [grows.task_eq h.orderly known])
  · exact .underway (.fresh new)

/-- A task that is attended to is accounted for anew. -/
theorem attend (h : m.Accountable own) (attends : m.Attends ref m')
    (unfinished : (m.task ref).progress.phase = .resuming) (guarded : m'.Guarded own none)
    (honours : m.Honours own m') (mine : m'.Accounted own ref) : m'.Accountable own := by
  refine ⟨guarded, attends.orderly, fun x => (honours.busy x).trans (h.free x),
    fun {task} has => ?_⟩
  by_cases at_ref : task = ref
  · exact at_ref ▸ mine
  · rcases attends.isNew has with known | new
    · exact (h.account known).mono known (attends.upholds unfinished honours)
        (by rw [attends.others known at_ref])
    · exact .underway (.fresh new)

end Accountable

end Machine

/-! ## Pipes -/

section Pipes

variable {m m' : Machine} {left right : Ref .suspension} {relay : Ref .channel} {task : Ref .task}

variable (orderly : m.Orderly) (has : m.tasks.Has task)
  (laid : m.Laid left right relay (m.task task).out (m.task task).errand.input.isSome)

include orderly laid

include has in
/-- A pipe that is started feeds its sides. -/
theorem startPipe_feeds {progress : Progress}
    (ended : startPipe left right relay (m.task task).errand.input m = (some (.ok progress), m')) :
    ∃ one other, progress = .joining one other ∧ m'.Feeds task left right relay one other := by
  obtain ⟨one, m₁, resumed, ended⟩ := Run.of_bind ended
  obtain ⟨other, m₂, resumed', ended⟩ := Run.of_bind ended
  cases ended
  obtain ⟨created, work, pending, rfl, rfl⟩ := of_resume resumed
  obtain ⟨created', work', pending', rfl, rfl⟩ := of_resume resumed'
  generalize m₁_def : (m.startTask left work (m.task task).errand.input).2 = m₁ at *
  have first : m.Grows m₁ := m₁_def ▸ .resume _ created pending
  have second : m₁.Grows (m₁.startTask right work' (some relay)).2 := .resume _ created' pending'
  have has_one : m₁.tasks.Has m.tasks.next := m₁_def ▸ Arena.has_alloc_next ..
  have one_eq : m₁.task m.tasks.next =
      ⟨left, (m.suspension left).out, .ready work (m.task task).errand.input,
      ⟨work, (m.task task).errand.input⟩⟩ := by
    rw [← m₁_def]
    change (m.tasks.alloc _).get m.tasks.next = _
    rw [Arena.get_alloc, if_pos rfl]
  have other_eq : (m₁.startTask right work' (some relay)).2.task m₁.tasks.next =
      ⟨right, (m₁.suspension right).out, .ready work' (some relay), ⟨work', some relay⟩⟩ := by
    change (m₁.tasks.alloc _).get m₁.tasks.next = _
    rw [Arena.get_alloc, if_pos rfl]
  obtain ⟨orderly₁, _, kept⟩ := first.orderly orderly
  -- Resuming the right side leaves the task of the left one and the pipe as they were.
  have one_later := second.task_eq orderly₁ has_one
  have task_later := (second.task_eq orderly₁ (kept task has).1).trans (kept task has).2
  have right_out := (first.keepsWork right laid.hasRight).2.1
  refine ⟨m.tasks.next, m₁.tasks.next, rfl, has, (kept task has).1, has_one.alloc _,
    Arena.has_alloc_next .., ?_, ?_, ?_, ?_, ?_, ?_⟩
  · rw [one_later, one_eq]
  · rw [other_eq]
  · rw [one_later, one_eq, task_later]
  · rw [one_later, one_eq, ← m₁_def]
    exact laid.relays
  · rw [other_eq]
  · rw [other_eq, task_later]
    exact right_out.trans laid.out

/-- A pipe fails to start only if one of its sides was resumed before. -/
theorem startPipe_usurped {failure : Failure}
    (ended : startPipe left right relay (m.task task).errand.input m =
      (some (.error failure), m')) :
    failure = .alreadyResumed ∧ ∃ side, (side = left ∨ side = right) ∧ m'.suspensions.Has side ∧
      (m'.suspension side).phase ≠ .created := by
  rcases startPipe_cases ended with ⟨failure, given, refused⟩ | ⟨_, m₁, resumed, further⟩
  · cases given
    -- The left side takes the input of the pipe, so that it cannot be refused for that.
    obtain ⟨rfl, rfl, late⟩ := of_resume_refused orderly laid.fed refused
    exact ⟨rfl, left, .inl rfl, laid.hasLeft, late⟩
  · obtain ⟨failure, given, refused⟩ | ⟨_, given, _⟩ := further
    · cases given
      have grown : m.Grows m₁ := by
        obtain ⟨created, work, pending, _, rfl⟩ := of_resume resumed
        exact .resume _ created pending
      obtain ⟨has_right, _, takes, _⟩ := grown.keepsWork right laid.hasRight
      obtain ⟨rfl, rfl, late⟩ := of_resume_refused (grown.orderly orderly).1
        (fun _ => takes.trans laid.takes) refused
      exact ⟨rfl, right, .inr rfl, has_right, late⟩
    · cases given

end Pipes

/-! ## Driving -/

namespace Machine.Accountable

section Starting

variable {own : Ref .channel → Prop} {engine : Engine} (h : (custody own).Relates engine engine)
  (grows : growth.discipline.Relates engine engine) {m m' : Machine}
  (accountable : m.Accountable own) {ref : Ref .task} (isNew : (m.task ref).IsNew)

include accountable isNew

/-- A pipe that is started waits for its sides, or has failed because one of them was resumed
before. -/
theorem startPipe {left right : Ref .suspension} {relay : Ref .channel}
    (pipes : (m.task ref).errand.work = .pipe left right relay) {result : Option Result}
    (ended : startWork engine ref (.pipe left right relay) (m.task ref).errand.input m =
      (some result, m')) :
    m'.Guarded own none ∧ m.Honours own m' ∧ m'.Accounted own ref := by
  have g := accountable.guarded
  have has : m.tasks.Has ref := has_of_progress (by rw [isNew]; nofun)
  -- The pipe was laid when it was made, and stays so.
  have laid := g.plumbed.task pipes
  have unfinished : (m.task ref).progress.phase = .resuming := by rw [isNew]; rfl
  obtain ⟨given, m₁, resumed, ended⟩ := Effect.of_bind ended
  have heeds : Heeds own (Wordstream.startPipe left right relay (m.task ref).errand.input) :=
    (Heeds.resume left _).andThen fun _ => (Heeds.resume right _).andThen fun _ =>
      (guarding own).allows_done _
  obtain ⟨g₁, honours⟩ := heeds.ended g resumed
  have grown := grows_of_ended (Modest.allows_startPipe resumes_growth left right relay _) resumed
  have same := grown.task_eq accountable.orderly has
  obtain ⟨orderly₁, _, kept⟩ := grown.orderly accountable.orderly
  have has₁ := (kept ref has).1
  rw [← same] at pipes unfinished
  cases given with
  | ok progress =>
    cases ended
    obtain ⟨one, other, rfl, feeds⟩ := startPipe_feeds accountable.orderly has laid resumed
    have attends : m₁.Attends ref (setProgress ref (.joining one other) m₁).2 :=
      (Machine.Grows.refl m₁).proceed orderly₁ has₁ unfinished (.joining one other) rfl rfl
        (fun _ _ joining => by cases joining; exact ⟨feeds.newer, feeds.newer'⟩) rfl rfl
    have silently := honours_setProgress own ref (.joining one other) m₁
    exact ⟨(g₁.pass ref).setProgress rfl, honours.trans silently, .underway (.joining
      (attends.errand ▸ pipes) (feeds.mono has₁ (attends.upholds unfinished silently))
      (progress_setProgress ref _ m₁))⟩
  | error failure =>
    obtain ⟨g', silently⟩ := (g₁.pass ref).conclude ended
    obtain ⟨rfl, side, of_pipe, has_side, late⟩ :=
      startPipe_usurped accountable.orderly laid resumed
    -- A side that was resumed before has a task already.
    obtain ⟨usurper, has_usurper, origin⟩ := orderly₁.task has_side late
    have attends := (Machine.Grows.refl m₁).attends_finishTask orderly₁ has₁ unfinished ended
    have upholds := attends.upholds unfinished silently
    exact ⟨g', honours.trans silently, .usurped (attends.errand ▸ pipes) of_pipe
      (of_finishTask ended).2 (upholds.has has_usurper)
      ((upholds.origin has_usurper).trans origin)⟩

include h grows

/-- A task that is started is accounted for. -/
theorem startWork {result : Option Result}
    (ended : Wordstream.startWork engine ref (m.task ref).errand.work (m.task ref).errand.input m =
      (some result, m')) :
    m'.Guarded own none ∧ m.Honours own m' ∧ m'.Accounted own ref := by
  have g := accountable.guarded
  have orderly := accountable.orderly
  have has : m.tasks.Has ref := has_of_progress (by rw [isNew]; nofun)
  have attends := attends_startWork orderly has (by rw [isNew]; rfl) grows ended
  rcases errand_def : (m.task ref).errand with ⟨work, input⟩
  have errand : (m'.task ref).errand = ⟨work, input⟩ := attends.errand.trans errand_def
  have progress : (m.task ref).progress = .ready work input := by rw [isNew, errand_def]
  have tells_of (telling : work.tells) : (m.task ref).progress.tells := by rwa [progress]
  -- With no input the task does its work once, otherwise it makes a stage.
  have once {action : Run Machine Unit} (absent : input = none)
      (telling : work.tells) (heeds : Heeds own action) (growing : growth.Fits action action)
      (ended : runOnce engine ref action m = (some result, m')) :
      m'.Guarded own none ∧ m.Honours own m' ∧ m'.Accounted own ref := by
    obtain ⟨g', honours, given, finished, told⟩ :=
      runOnce_tells h g orderly has (tells_of telling) heeds growing ended
    refine ⟨g', honours, .told (by rwa [errand]) finished (attends.out ▸ told)
      fun _ input given => ?_⟩
    rw [errand, absent] at given
    cases given
  have staged {step : Step} {source : Ref .channel} (steps : work.isStep)
      (given : input = some source) (telling : work.tells)
      (ended : startStage engine ref step source m = (some result, m')) :
      m'.Guarded own none ∧ m.Honours own m' ∧ m'.Accounted own ref := by
    have steps : (m'.task ref).errand.work.isStep := by rwa [errand]
    have given : (m'.task ref).errand.input = some source := by rw [errand, given]
    obtain ⟨g', honours, stage, has_stage, out,
        ⟨waits, hears⟩ | ⟨finished, taken, nowhere, silent⟩⟩ :=
      startStage_begins h g (tells_of telling) ended
    · exact ⟨g', honours,
        .underway (.waiting steps given waits has_stage (out.trans attends.out.symm) hears)⟩
    · exact ⟨g', honours, .refused steps given finished taken has_stage (out.trans attends.out.symm)
        nowhere (attends.out ▸ silent)⟩
  rw [errand_def] at ended
  cases work with
  | body activation =>
    cases input with
    | none => exact once rfl rfl (Heeds.runBody h _ _) (Modest.runBody grows _ _) ended
    | some input => exact staged rfl rfl rfl ended
  | call native args =>
    cases input with
    | none =>
      obtain ⟨_, _, looked, ended⟩ := Effect.of_bind ended
      cases looked
      exact once rfl rfl (Congruence.Practice.runCall h _ _ _)
        (Congruence.Practice.runCall grows _ _ _) ended
    | some input => exact staged rfl rfl rfl ended
  | pipe left right relay =>
    have given : (m.task ref).errand.input = input := by rw [errand_def]
    exact accountable.startPipe isNew (by rw [errand_def]) (given ▸ ended)
  | source source =>
    have writes : (m'.task ref).errand.work = .source source := by rw [errand]
    cases input with
    | none =>
      obtain ⟨g', honours, wrote⟩ := g.continueSource h grows orderly has (tells_of rfl) ended
      rw [← attends.out] at wrote
      exact ⟨g', honours, wrote.accounted writes (by rw [errand])⟩
    | some input =>
      have named : (m'.task ref).errand.input = some input := by rw [errand]
      obtain ⟨g', honours, given, finished, hears⟩ := g.relaySource h (tells_of rfl) ended
      rw [← attends.out] at hears
      exact ⟨g', honours, .mute writes (.inl (by rw [named]; rfl)) finished fun ok =>
        ⟨input, named, hears ok⟩⟩

end Starting

variable {own : Ref .channel → Prop} {m m' : Machine} {ref : Ref .task}

/-- A task that waits for its stage agrees with its output when it gets its result. -/
theorem hear (accountable : m.Accountable own) {stage : Ref .stage} {input : Ref .channel}
    {result : Result} (waiting : (m.task ref).progress = .waiting stage input)
    (heard : stageResult? m stage input = some result) :
    (finishTask ref result m).2.Accountable own := by
  have has : m.tasks.Has ref := has_of_progress (by simp [waiting])
  have unfinished : (m.task ref).progress.phase = .resuming := by rw [waiting]; rfl
  have attends := (Machine.Grows.refl m).finish accountable.orderly has unfinished result
  have finished : ((finishTask ref result m).2.task ref).progress = .finished result :=
    (of_finishTask (Prod.ext rfl rfl : finishTask ref result m = (some (some result), _))).2
  refine accountable.attend attends unfinished ((accountable.guarded.pass ref).finishTask result)
    (honours_finishTask own ref result m) ?_
  cases (accountable.account has).underway_of unfinished with
  | fresh isNew => cases waiting.symm.trans isNew
  | writing _ _ pauses => cases waiting.symm.trans pauses
  | hanging hangs => cases waiting.symm.trans hangs
  | joining _ _ joins => cases waiting.symm.trans joins
  | waiting step given waits has_stage out hears =>
    cases waiting.symm.trans waits
    have step := attends.errand.symm ▸ step
    have given := attends.errand.symm ▸ given
    unfold stageResult? at heard
    cases done : (m.stages.get stage).result with
    | none =>
      rw [done] at heard
      dsimp only at heard
      split at heard
      · next abandoned =>
        cases heard
        exact .lost step given finished (by rwa [channel_finishTask])
      · cases heard
    | some told =>
      rw [done] at heard
      cases heard
      -- Nobody is in the middle of something, so that the stage and its output agree.
      have idle : ¬ m.Engaged stage := fun ⟨x, _, busy⟩ => by
        rw [accountable.free] at busy
        cases busy
      refine .told (Work.tells_of_isStep step) finished (fun owned => ?_) fun ok source named => ?_
      · rw [attends.out, ← out] at owned ⊢
        have eased := accountable.guarded.atEase has_stage owned idle
        unfold AtEase at eased
        rw [channel_finishTask, eased, done]
        rfl
      · cases given.symm.trans named
        rw [channel_finishTask]
        exact accountable.guarded.completed hears (done.trans (congrArg some ok))

/-- A pipe whose sides have finished has the first failure of theirs. -/
theorem join (accountable : m.Accountable own) {one other : Ref .task} {first second : Result}
    (joining : (m.task ref).progress = .joining one other)
    (first_done : (m.task one).progress = .finished first)
    (second_done : (m.task other).progress = .finished second) :
    (finishTask ref (bothResults first second) m).2.Accountable own := by
  have has : m.tasks.Has ref := has_of_progress (by simp [joining])
  have unfinished : (m.task ref).progress.phase = .resuming := by rw [joining]; rfl
  generalize bothResults_def : bothResults first second = result
  have attends := (Machine.Grows.refl m).finish accountable.orderly has unfinished result
  have honours := honours_finishTask own ref result m
  have finished : ((finishTask ref result m).2.task ref).progress = .finished result :=
    (of_finishTask (Prod.ext rfl rfl : finishTask ref result m = (some (some result), _))).2
  have upholds := attends.upholds unfinished honours
  refine accountable.attend attends unfinished ((accountable.guarded.pass ref).finishTask result)
    honours ?_
  cases (accountable.account has).underway_of unfinished with
  | fresh isNew => cases joining.symm.trans isNew
  | writing _ _ pauses => cases joining.symm.trans pauses
  | hanging hangs => cases joining.symm.trans hangs
  | waiting _ _ waits => cases joining.symm.trans waits
  | joining pipes feeds joins =>
    cases joining.symm.trans joins
    exact .joined (attends.errand ▸ pipes) (feeds.mono has upholds) (upholds.finished first_done)
      (upholds.finished second_done) (bothResults_def ▸ finished)

/-- Driving accounts for every task. -/
theorem advance {engine : Engine} (h : (custody own).Relates engine engine)
    (grows : growth.discipline.Relates engine engine) {settling : Bool}
    {started : List (Ref .task)} (advances : Advances engine settling started m m')
    (accountable : m.Accountable own) :
    m'.Accountable own := by
  induction advances with
  | rest m woken =>
    obtain ⟨g, honours⟩ : Guarded own none { m with woken := woken } ∧ m.Honours own _ :=
      accountable.guarded.beside rfl rfl rfl rfl id
    exact accountable.grow (.aside rfl rfl) g honours
  | clear m =>
    obtain ⟨g, honours⟩ : Guarded own none { m with pending := [] } ∧ m.Honours own _ :=
      accountable.guarded.beside rfl rfl rfl rfl id
    exact accountable.grow (.aside rfl rfl) g honours
  | abandon m input =>
    have g : (m.setChannel input { m.channel input with abandoned := true }).Guarded own none :=
      accountable.guarded.rewrite rfl id rfl fun _ mem => mem
    have honours : m.Honours own (m.setChannel input { m.channel input with abandoned := true }) :=
      .setChannel (fun _ hears => hears) (fun _ _ hears => hears) rfl (fun _ => rfl)
        (fun _ ended => ended) fun changed => absurd rfl changed
    exact accountable.grow (.aside rfl rfl) g honours
  | @start m m' ref work input result ready started =>
    have has : m.tasks.Has ref := has_of_progress (by simp [ready])
    have unfinished : (m.task ref).progress.phase = .resuming := by rw [ready]; rfl
    cases (accountable.account has).underway_of unfinished with
    | fresh isNew =>
      have attends := attends_startWork accountable.orderly has unfinished grows started
      cases ready.symm.trans isNew
      obtain ⟨g, honours, account⟩ := accountable.startWork h grows isNew started
      exact accountable.attend attends unfinished g honours account
    | writing _ _ pauses => cases ready.symm.trans pauses
    | hanging hangs => cases ready.symm.trans hangs
    | waiting _ _ waits => cases ready.symm.trans waits
    | joining _ _ joins => cases ready.symm.trans joins
  | @write m m' ref source result writing written =>
    have has : m.tasks.Has ref := has_of_progress (by simp [writing])
    have unfinished : (m.task ref).progress.phase = .resuming := by rw [writing]; rfl
    have attends :=
      (pursues_continueSource written).attends grows accountable.orderly has unfinished
    obtain ⟨g, honours, wrote⟩ := accountable.guarded.continueSource h grows accountable.orderly has
      (by rw [writing]; rfl) written
    refine accountable.attend attends unfinished g honours ?_
    cases (accountable.account has).underway_of unfinished with
    | writing writes alone pauses same =>
      -- What is left of the source ends as the source does.
      cases writing.symm.trans pauses
      rw [← attends.out, same] at wrote
      exact wrote.accounted (attends.errand ▸ writes) (attends.errand ▸ alone)
    | hanging hangs => cases writing.symm.trans hangs
    | fresh isNew => cases writing.symm.trans isNew
    | waiting _ _ waits => cases writing.symm.trans waits
    | joining _ _ joins => cases writing.symm.trans joins
  | hear waiting heard => exact accountable.hear waiting heard
  | join joining one other => exact accountable.join joining one other
  | trans _ _ first second => exact second (first accountable)

end Machine.Accountable

end Wordstream
