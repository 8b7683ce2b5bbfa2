import Wordstream.Proofs.Driving

/-!
# The lives of suspensions

A suspension is created, resumed, and comes to an end with the task that it is resumed to.
Whatever is asked of a machine, in whatever order, its suspensions go through these phases in
order and each at most once.

## Main results

* `Course.passage` — what is asked of a machine comes down to growth and driving
* `Course.lifeCycle` — suspensions live by the rules, whatever is asked of a machine
-/

namespace Wordstream

/-! ## Courses of demands -/

/-- Driving on demand goes step by step. -/
theorem Demand.advances_of_ended {engine : Engine} (h : growth.discipline.Relates engine engine)
    (fuel : Nat) {α : Type} {demand : Demand α} (driving : demand.drives) {m m' : Machine}
    {answer : α} (orderly : m.Orderly) (ended : demand.run engine fuel m = (some answer, m')) :
    ∃ started, Advances engine true started m m' := by
  cases demand with
  | drive outside ref =>
    obtain ⟨started, advances⟩ := advances_drive h fuel orderly ended
    exact ⟨started, advances.settle⟩
  | settle outside => exact advances_settleBatches h fuel fuel orderly ended
  | _ => cases driving

/-- What is asked of a machine, one thing after the other, each coming to an end. In between the
host may make suspensions, and do whatever does not concern suspensions and tasks. -/
inductive Course (host : Host) (m : Machine) : Machine → Prop
  | refl : Course host m m
  | prepare {m' m'' : Machine} (before : Course host m m')
      (suspensions : m''.suspensions = m'.suspensions) (tasks : m''.tasks = m'.tasks) :
      Course host m m''
  | suspend {m' : Machine} (before : Course host m m') (work : Work) (acceptsInput : Bool)
      (mime : Option String) : Course host m (suspend work acceptsInput mime m').2
  | demand {m' m'' : Machine} {α : Type} {answer : α} (before : Course host m m')
      (demand : Demand α) (fuel : Nat)
      (ended : demand.run (.ofFuel host fuel) fuel m' = (some answer, m'')) : Course host m m''

/-- A demand that has come to an end. -/
theorem Course.ask {host : Host} {m m' : Machine} (before : Course host m m') {α : Type}
    (demand : Demand α) (fuel : Nat) (done : (demand.run (.ofFuel host fuel) fuel m').1.isSome) :
    Course host m (demand.run (.ofFuel host fuel) fuel m').2 := by
  obtain ⟨answer, given⟩ := Option.isSome_iff_exists.1 done
  exact before.demand demand fuel (Prod.ext given rfl)

/-- What happens to a machine, be it between demands or in the middle of one: suspensions are made
and resumed, and tasks are driven. In the middle of a step, a task that is attended to may yet
have to be put down as one that waits, or as finished. -/
inductive Passage (host : Host) (m : Machine) : Machine → Prop
  | refl : Passage host m m
  | grow {m' m'' : Machine} (before : Passage host m m') (grows : m'.Grows m'') : Passage host m m''
  | advance {m' m'' : Machine} {fuel : Nat} {started : List (Ref .task)}
      (before : Passage host m m')
      (advances : Advances (.ofFuel host fuel) true started m' m'') : Passage host m m''
  | proceed {m' : Machine} {ref : Ref .task} (before : Passage host m m') (has : m'.tasks.Has ref)
      (unfinished : (m'.task ref).progress.phase = .resuming) (progress : Progress)
      (started : progress.isReady = false) (phase : progress.phase = .resuming)
      (older : ∀ left right, progress = .joining left right →
        ref.index < left.index ∧ ref.index < right.index) :
      Passage host m (setProgress ref progress m').2
  | finish {m' : Machine} {ref : Ref .task} (before : Passage host m m') (has : m'.tasks.Has ref)
      (unfinished : (m'.task ref).progress.phase = .resuming) (result : Result) :
      Passage host m (finishTask ref result m').2

/-- Whatever happens, order is kept, and what is left alone stays as it is. -/
theorem Passage.bides {host : Host} (hosted : growth.discipline.Admits host) {m m' : Machine}
    (orderly : m.Orderly) (passage : Passage host m m') : m'.Orderly ∧ m.Bides m' := by
  induction passage with
  | refl => exact ⟨orderly, .refl m⟩
  | grow _ grows ih => exact ⟨(grows.orderly ih.1).1, ih.2.trans (grows.bides ih.1)⟩
  | @advance _ _ fuel _ _ advances ih =>
    have engine := Engine.grows_ofFuel hosted fuel
    exact ⟨(advances.outcome engine ih.1).1, ih.2.trans (advances.bides engine ih.1)⟩
  | @proceed m' ref _ has unfinished progress started phase older ih =>
    have attends : m'.Attends ref (setProgress ref progress m').2 :=
      (Machine.Grows.refl m').proceed ih.1 has unfinished progress started phase older rfl rfl
    exact ⟨attends.orderly, ih.2.trans attends.bides⟩
  | @finish m' _ _ has unfinished result ih =>
    have attends := (Machine.Grows.refl m').finish ih.1 has unfinished result
    exact ⟨attends.orderly, ih.2.trans attends.bides⟩

/-- What is asked of a machine comes down to growth and driving. -/
theorem Course.passage {host : Host} (hosted : growth.discipline.Admits host) {m m' : Machine}
    (orderly : m.Orderly) (course : Course host m m') : Passage host m m' := by
  induction course with
  | refl => exact .refl
  | prepare _ suspensions tasks ih => exact ih.grow (.aside suspensions tasks)
  | suspend _ work acceptsInput mime ih => exact ih.grow (grows_suspend work acceptsInput mime _)
  | demand _ demand fuel ended ih =>
    have engine := Engine.grows_ofFuel hosted fuel
    cases driving : demand.drives with
    | true =>
      obtain ⟨_, advances⟩ :=
        demand.advances_of_ended engine fuel driving (ih.bides hosted orderly).1 ended
      exact ih.advance advances
    | false =>
      exact ih.grow (grows_of_ended
        (demand.fits_of_not_drives engine fuel resumes_growth (fun _ => tracks_growth) driving)
        ended)

/-- Whatever is asked of a machine, order is kept and suspensions and tasks come further. -/
theorem Course.orderly {host : Host} (hosted : growth.discipline.Admits host) {m m' : Machine}
    (orderly : m.Orderly) (course : Course host m m') : m'.Orderly ∧ m.Follows m' := by
  obtain ⟨orderly, bides⟩ := (course.passage hosted orderly).bides hosted orderly
  exact ⟨orderly, bides.toFollows⟩

/-- A suspension that was not resumed can be resumed without input. -/
theorem Machine.Orderly.resumes {m : Machine} (orderly : m.Orderly) {ref : Ref .suspension}
    (created : (m.suspension ref).phase = .created) :
    ∃ task m', resume ref none m = (some (.ok task), m') := by
  obtain ⟨work, pending⟩ := Option.isSome_iff_exists.1 (orderly.work created)
  rw [resume_apply, if_neg (by simp [created]), if_neg (by simp), pending]
  exact ⟨_, _, rfl⟩

/-- Who is refused to resume a suspension that takes the input has come too late. -/
theorem of_resume_refused {ref : Ref .suspension} {input : Option (Ref .channel)}
    {failure : Failure}
    {m m' : Machine} (orderly : m.Orderly)
    (accepts : input.isSome → (m.suspension ref).acceptsInput)
    (ended : resume ref input m = (some (.error failure), m')) :
    m' = m ∧ failure = .alreadyResumed ∧ (m.suspension ref).phase ≠ .created := by
  rw [resume_apply] at ended
  split at ended
  · next resumed =>
    cases ended
    exact ⟨rfl, rfl, resumed⟩
  · next created =>
    split at ended
    · next refused =>
      simp only [Bool.and_eq_true] at refused
      rw [accepts refused.1] at refused
      cases refused.2
    · obtain ⟨work, pending⟩ :=
        Option.isSome_iff_exists.1 (orderly.work (Decidable.not_not.1 created))
      rw [pending] at ended
      cases ended

/-- A machine none of whose suspensions has been resumed. -/
structure Machine.Untouched (m : Machine) : Prop where
  created {ref : Ref .suspension} (has : m.suspensions.Has ref) :
    (m.suspension ref).phase = .created ∧ (m.suspension ref).work.isSome
  taskless (task : Ref .task) : ¬ m.tasks.Has task

theorem Machine.Untouched.orderly {m : Machine} (h : m.Untouched) : m.Orderly where
  work created := (h.created (has_of_created created)).2
  task has resumed := absurd (h.created has).1 resumed
  origin has := absurd has (h.taskless _)
  phase has := absurd has (h.taskless _)
  unique has := absurd has (h.taskless _)
  fresh has := absurd has (h.taskless _)
  older has := absurd has (h.taskless _)

/-- A machine that has the library has no suspensions yet. -/
theorem Machine.untouched_stocked : Machine.stocked.Untouched := by
  have plumbing : Machine.stocked.plumbing = (Machine.ofConfig .standard).plumbing :=
    plumbing_of_bearings (bearings_installLibrary _)
  have suspensions : Machine.stocked.suspensions = .empty := congrArg Plumbing.suspensions plumbing
  have tasks : Machine.stocked.tasks = .empty := congrArg Plumbing.tasks plumbing
  refine ⟨fun has => ?_, fun task has => ?_⟩
  · rw [suspensions] at has
    exact absurd has (Nat.not_lt_zero _)
  · rw [tasks] at has
    exact absurd has (Nat.not_lt_zero _)

/-- The rules by which suspensions live, as they are seen between the demands on a machine. -/
structure LifeCycle (host : Host) (m : Machine) : Prop where
  /-- A suspension has a task exactly if it has been resumed, -/
  resumed {ref : Ref .suspension} (has : m.suspensions.Has ref) :
    (m.suspension ref).phase ≠ .created ↔ ∃ task, m.tasks.Has task ∧ (m.task task).suspension = ref
  /-- and never two. -/
  unique {task other : Ref .task} (has : m.tasks.Has task) (has' : m.tasks.Has other)
    (same : (m.task task).suspension = (m.task other).suspension) : task = other
  /-- It is completed exactly if its task has come to a good end, -/
  completed {task : Ref .task} (has : m.tasks.Has task) :
    (m.suspension (m.task task).suspension).phase = .completed ↔
      (m.task task).result? = some (.ok ())
  /-- and has failed exactly if its task has failed. -/
  failed {task : Ref .task} (has : m.tasks.Has task) :
    (m.suspension (m.task task).suspension).phase = .failed ↔
      ∃ failure, (m.task task).result? = some (.error failure)
  /-- Phases move from creation to resumption and on to one of the two ends. -/
  leads {m' : Machine} {ref : Ref .suspension} (course : Course host m m')
    (has : m.suspensions.Has ref) : (m.suspension ref).phase.Leads (m'.suspension ref).phase
  /-- Only a suspension that was not resumed is resumed, and it is refused ever after. -/
  once {m' : Machine} {ref : Ref .suspension} {input : Option (Ref .channel)} {task : Ref .task}
    (resumed : resume ref input m = (some (.ok task), m')) :
    (m.suspension ref).phase = .created ∧ (m'.suspension ref).phase = .resuming ∧
      (m'.task task).suspension = ref ∧
      ∀ {m'' : Machine}, Course host m' m'' → ∀ input,
        resume ref input m'' = (some (.error .alreadyResumed), m'')
  /-- Driving is a matter of starting tasks that are ready, none of them twice, and taking started
  ones further, -/
  starts {α : Type} {demand : Demand α} {fuel : Nat} {answer : α} {m' : Machine}
    (driving : demand.drives)
    (ended : demand.run (.ofFuel host fuel) fuel m = (some answer, m')) :
    ∃ started, Advances (.ofFuel host fuel) true started m m' ∧ Advances.Once m started m'
  /-- and what was started is never ready again. -/
  started {m' : Machine} {task : Ref .task} (course : Course host m m') (has : m.tasks.Has task)
    (underway : (m.task task).progress.isReady = false) : (m'.task task).progress.isReady = false
  /-- Who refuses to resume a suspension leaves everything as it was, so that one which was refused
  for its input can be resumed without. -/
  refused {m' : Machine} {ref : Ref .suspension} {input : Option (Ref .channel)} {failure : Failure}
    (refused : resume ref input m = (some (.error failure), m')) :
    m' = m ∧ (failure = .missingInputCapability →
      ∃ task m'', resume ref none m' = (some (.ok task), m''))
  /-- Who refuses to pipe suspensions leaves all suspensions, tasks and channels as they were, so
  that what could be resumed still can. -/
  unpiped {engine : Engine} {m' : Machine} {left right : Ref .suspension} {failure : Failure}
    (refused : pipe engine left right m = (some (.error failure), m')) :
    m'.suspensions = m.suspensions ∧ m'.tasks = m.tasks ∧
      (∀ ref, m'.channel ref = m.channel ref) ∧
      ∀ ref, (m.suspension ref).phase = .created →
        ∃ task m'', resume ref none m' = (some (.ok task), m'')

/-- Where there is order, suspensions live by the rules. -/
theorem Machine.Orderly.lives {host : Host} (hosted : growth.discipline.Admits host) {m : Machine}
    (orderly : m.Orderly) : LifeCycle host m where
  resumed {ref} has := by
    refine ⟨orderly.task has, ?_⟩
    rintro ⟨task, has_task, rfl⟩
    rw [orderly.phase has_task]
    exact Progress.phase_ne_created _
  unique := orderly.unique
  completed {task} has := by
    rw [orderly.phase has]
    unfold TaskState.result?
    cases (m.task task).progress with
    | finished result => cases result <;> simp [Progress.phase, Phase.ofResult]
    | _ => simp [Progress.phase]
  failed {task} has := by
    rw [orderly.phase has]
    unfold TaskState.result?
    cases (m.task task).progress with
    | finished result => cases result <;> simp [Progress.phase, Phase.ofResult]
    | _ => simp [Progress.phase]
  leads course has := (course.orderly hosted orderly).2.leads has
  once {m' ref input task} resumed := by
    obtain ⟨created, work, pending, rfl, rfl⟩ := of_resume resumed
    have grown : m.Grows (m.startTask ref work input).2 := .resume input created pending
    have orderly' := (grown.orderly orderly).1
    have phase : ((m.startTask ref work input).2.suspension ref).phase = .resuming := by
      change ((m.suspensions.set ref _).get ref).phase = _
      rw [Arena.get_set, if_pos rfl]
    have origin : ((m.startTask ref work input).2.task m.tasks.next).suspension = ref := by
      change ((m.tasks.alloc _).get m.tasks.next).suspension = _
      rw [Arena.get_alloc, if_pos rfl]
    have has : (m.startTask ref work input).2.suspensions.Has ref := Arena.has_set ..
    refine ⟨created, phase, origin, fun {m''} course input => ?_⟩
    -- Nothing leads back to the beginning from the phase that it has now.
    have leads := (course.orderly hosted orderly').2.leads has
    rw [resume_apply, if_pos (leads.ne_created (by rw [phase]; nofun))]
  starts {_ _ fuel _ _} driving ended := by
    have engine := Engine.grows_ofFuel hosted fuel
    obtain ⟨started, advances⟩ := Demand.advances_of_ended engine _ driving orderly ended
    exact ⟨started, advances, (advances.outcome engine orderly).2.2⟩
  started course has underway := Bool.eq_false_iff.2 fun ready => by
    rw [(course.orderly hosted orderly).2.ready has ready] at underway
    cases underway
  refused {m' ref input failure} refused := by
    rw [resume_apply] at refused
    -- It was resumed before, or the input is not wanted, or its work is gone.
    split at refused
    · cases refused
      exact ⟨rfl, nofun⟩
    · next created =>
      split at refused
      · cases refused
        exact ⟨rfl, fun _ => orderly.resumes (Decidable.not_not.1 created)⟩
      · cases pending : (m.suspension ref).work with
        | none =>
          rw [pending] at refused
          cases refused
          exact ⟨rfl, nofun⟩
        | some work =>
          rw [pending] at refused
          cases refused
  unpiped {engine m' left right failure} refused := by
    obtain rfl | rfl := of_pipe_refused refused
    · exact ⟨rfl, rfl, fun _ => rfl, fun _ => orderly.resumes⟩
    · have aside : m.Grows m.newChannel.2 := .aside rfl rfl
      refine ⟨rfl, rfl, fun ref => ?_, fun ref created =>
        (aside.orderly orderly).1.resumes (m := m.newChannel.2) created⟩
      change (m.channels.alloc .fresh).get ref = _
      rw [Arena.get_alloc]
      split
      · next new => exact new ▸ m.channels.get_next.symm
      · rfl

/-- Suspensions live by the rules, however many there are, whatever is asked of a machine and in
whatever order: each is created, resumed once, and ends as its task does; its work is started at
most once; and what is refused leaves it as it was. -/
theorem Course.lifeCycle {host : Host} (hosted : growth.discipline.Admits host) {m m' : Machine}
    (untouched : m.Untouched) (course : Course host m m') : LifeCycle host m' :=
  (course.orderly hosted untouched.orderly).1.lives hosted

/-- Two streaming procedures, and a pipe of a call of each, which is resumed as it is in use. -/
def relayingText : String :=
  "proc: native [params body] :core/proc
  f: proc [/out] [out \"a\"] g: proc [/in /out] [out in] pipe f g"

/-- When the pipe has been settled it is completed and so are both of its sides, which its task has
resumed. -/
theorem Course.lifeCycle_of_pipe :
    let asked := (Demand.evaluate relayingText).run (.ofFuel toolkit 20) 20 .stocked
    let settled := (Demand.settle []).run (.ofFuel toolkit 20) 20 asked.2
    (asked.2.suspension ⟨0⟩).phase = .created ∧ (asked.2.suspension ⟨2⟩).phase = .resuming ∧
      (∀ i < 3, (settled.2.suspension ⟨i⟩).phase = .completed) ∧ LifeCycle toolkit settled.2 := by
  intro asked settled
  refine ⟨by decide +kernel, by decide +kernel, by decide +kernel, ?_⟩
  have first : Course toolkit .stocked asked.2 := Course.refl.ask (.evaluate relayingText) 20
    (by decide +kernel)
  exact (first.ask (.settle []) 20 (by decide +kernel)).lifeCycle
    (Discipline.admits_toolkit growth.practice.isLax) Machine.untouched_stocked

end Wordstream
