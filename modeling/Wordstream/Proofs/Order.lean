import Mathlib.Logic.Relation
import Wordstream.Proofs.Custody
import Wordstream.Proofs.Demand

/-!
# Order among suspensions and tasks

Suspensions and tasks go together: a suspension that was resumed has one task, and its phase says
how far the task has come. Evaluation and handing over make and resume suspensions and do nothing
else to them (`Machine.Grows`), which keeps this order; and so does attending to one task, which
leaves the others as they were.

## Main results

* `Machine.Grows.orderly` — growth keeps order
* `Machine.Grows.attend` — a task that comes further, after some growth, is attended to
* `growth` — evaluation makes and resumes suspensions and does nothing else to them
-/

namespace Wordstream

open HasMachine (machine)

/-! ## Phases -/

/-- One step in the life of a suspension. -/
inductive Phase.Step : Phase → Phase → Prop
  | resume : Step .created .resuming
  | finish (result : Result) : Step .resuming (.ofResult result)

/-- One phase leads to another by some steps. -/
abbrev Phase.Leads : Phase → Phase → Prop := Relation.ReflTransGen Phase.Step

/-- Nothing leads back to the beginning. -/
theorem Phase.Leads.ne_created {phase phase' : Phase} (h : phase.Leads phase')
    (resumed : phase ≠ .created) : phase' ≠ .created := by
  -- Either there is no step, or the last one leads to another phase.
  cases Relation.ReflTransGen.cases_tail h with
  | inl same => exact same ▸ resumed
  | inr last =>
    obtain ⟨_, _, step⟩ := last
    cases step with
    | resume => nofun
    | finish result => cases result <;> nofun

/-- Whether a task has not been started. -/
def Progress.isReady : Progress → Bool
  | .ready _ _ => true
  | _ => false

theorem Progress.phase_ne_created (progress : Progress) : progress.phase ≠ .created := by
  cases progress with
  | finished result => cases result <;> nofun
  | _ => nofun

theorem Progress.phase_finished (result : Result) : (finished result).phase ≠ .resuming := by
  cases result <;> nofun

/-- A task that has not been started is to do what it is for. -/
def TaskState.IsNew (task : TaskState) : Prop :=
  task.progress = .ready task.errand.work task.errand.input

namespace Machine

/-! ## Order -/

/-- Suspensions and tasks go together: a suspension that was not resumed has its work, one that was
resumed has one task, and its phase says how far the task has come. A task that has not been started
is to do what it is for, and one that waits for two others is older than they are. -/
structure Orderly (m : Machine) : Prop where
  work {ref : Ref .suspension} (created : (m.suspension ref).phase = .created) :
    (m.suspension ref).work.isSome
  task {ref : Ref .suspension} (has : m.suspensions.Has ref)
    (resumed : (m.suspension ref).phase ≠ .created) :
    ∃ task, m.tasks.Has task ∧ (m.task task).suspension = ref
  origin {task : Ref .task} (has : m.tasks.Has task) : m.suspensions.Has (m.task task).suspension
  phase {task : Ref .task} (has : m.tasks.Has task) :
    (m.suspension (m.task task).suspension).phase = (m.task task).progress.phase
  unique {task other : Ref .task} (has : m.tasks.Has task) (has' : m.tasks.Has other)
    (same : (m.task task).suspension = (m.task other).suspension) : task = other
  fresh {task : Ref .task} (has : m.tasks.Has task) (ready : (m.task task).progress.isReady) :
    (m.task task).IsNew
  older {task left right : Ref .task} (has : m.tasks.Has task)
    (joining : (m.task task).progress = .joining left right) :
    task.index < left.index ∧ task.index < right.index

/-- Suspensions and tasks have come further: phases have moved on, what was started is started,
and a task is for what it was for. -/
structure Follows (m m' : Machine) : Prop where
  suspension {ref : Ref .suspension} (has : m.suspensions.Has ref) : m'.suspensions.Has ref
  leads {ref : Ref .suspension} (has : m.suspensions.Has ref) :
    (m.suspension ref).phase.Leads (m'.suspension ref).phase
  task {task : Ref .task} (has : m.tasks.Has task) : m'.tasks.Has task
  ready {task : Ref .task} (has : m.tasks.Has task)
    (ready : (m'.task task).progress.isReady) : (m.task task).progress.isReady
  retains {task : Ref .task} (has : m.tasks.Has task) :
    (m'.task task).suspension = (m.task task).suspension ∧
      (m'.task task).errand = (m.task task).errand

namespace Follows

variable {m m' m'' : Machine}

theorem refl (m : Machine) : m.Follows m :=
  ⟨id, fun _ => .refl, id, fun _ ready => ready, fun _ => ⟨rfl, rfl⟩⟩

theorem trans (first : m.Follows m') (second : m'.Follows m'') : m.Follows m'' where
  suspension has := second.suspension (first.suspension has)
  leads has := (first.leads has).trans (second.leads (first.suspension has))
  task has := second.task (first.task has)
  ready has ready := first.ready has (second.ready (first.task has) ready)
  retains has := by
    obtain ⟨origin, errand⟩ := second.retains (first.task has)
    rw [origin, errand]
    exact first.retains has

/-- Suspensions and tasks come further where nothing is done to them. -/
theorem of_eq (suspensions : m'.suspensions = m.suspensions) (tasks : m'.tasks = m.tasks) :
    m.Follows m' := by
  have suspension_eq : m'.suspension = m.suspension := congrArg Arena.get suspensions
  have task_eq : m'.task = m.task := congrArg Arena.get tasks
  refine ⟨fun has => suspensions ▸ has, fun _ => ?_, fun has => tasks ▸ has, fun _ ready => ?_,
    fun _ => ?_⟩
  · rw [suspension_eq]
  · rwa [task_eq] at ready
  · rw [task_eq]
    exact ⟨rfl, rfl⟩

end Follows

namespace Orderly

variable {m m' : Machine}

/-- Order is a matter of suspensions and tasks. -/
theorem of_eq (orderly : m.Orderly) (suspensions : m'.suspensions = m.suspensions)
    (tasks : m'.tasks = m.tasks) : m'.Orderly := by
  have suspension_eq : m'.suspension = m.suspension := congrArg Arena.get suspensions
  have task_eq : m'.task = m.task := congrArg Arena.get tasks
  constructor <;> simp only [suspensions, tasks, suspension_eq, task_eq]
  · exact orderly.work
  · exact orderly.task
  · exact orderly.origin
  · exact orderly.phase
  · exact orderly.unique
  · exact orderly.fresh
  · exact orderly.older

/-- A suspension that is new has its work and no task. -/
theorem newSuspension (orderly : m.Orderly) {made : Suspension} (created : made.phase = .created)
    (work : made.work.isSome) : (m.newSuspension made).2.Orderly := by
  have suspension_eq (ref : Ref .suspension) : (m.newSuspension made).2.suspension ref =
      if ref = m.suspensions.next then made else m.suspension ref := Arena.get_alloc ..
  have old {task : Ref .task} (has : m.tasks.Has task) :
      (m.newSuspension made).2.suspension (m.task task).suspension =
        m.suspension (m.task task).suspension := by
    rw [suspension_eq, if_neg (orderly.origin has).ne_next]
  exact {
    work := fun {ref} h => by
      rw [suspension_eq] at h ⊢
      split at h
      · next new =>
        rw [if_pos new]
        exact work
      · next other =>
        rw [if_neg other]
        exact orderly.work h
    task := fun {ref} has resumed => by
      rw [suspension_eq] at resumed
      split at resumed
      · exact absurd created resumed
      · next other => exact orderly.task (Arena.has_of_alloc has other) resumed
    origin := fun has => (orderly.origin has).alloc made
    phase := fun has => (congrArg Suspension.phase (old has)).trans (orderly.phase has)
    unique := orderly.unique
    fresh := orderly.fresh
    older := orderly.older }

/-- A suspension that is resumed gets a task of its own, which is ready. -/
theorem startTask (orderly : m.Orderly) {ref : Ref .suspension}
    (created : (m.suspension ref).phase = .created) (work : Work) (input : Option (Ref .channel)) :
    (m.startTask ref work input).2.Orderly := by
  let m' := (m.startTask ref work input).2
  let started : Suspension := { m.suspension ref with phase := .resuming, work := none }
  let new : TaskState := ⟨ref, (m.suspension ref).out, .ready work input, ⟨work, input⟩⟩
  have suspension_eq (other : Ref .suspension) : m'.suspension other =
      if other = ref then started else m.suspension other := Arena.get_set ..
  have task_eq (task : Ref .task) : m'.task task =
      if task = m.tasks.next then new else m.task task := Arena.get_alloc ..
  have old {task : Ref .task} (has : m.tasks.Has task) : m'.task task = m.task task := by
    rw [task_eq, if_neg has.ne_next]
  have new_eq : m'.task m.tasks.next = new := by rw [task_eq, if_pos rfl]
  -- No task has come from this suspension yet.
  have none {task : Ref .task} (has : m.tasks.Has task) : (m.task task).suspension ≠ ref :=
    fun same => (m.task task).progress.phase_ne_created (by rw [← orderly.phase has, same, created])
  have has_ref := has_of_created created
  have cases_task {task : Ref .task} (has : m'.tasks.Has task) :
      task = m.tasks.next ∨ m.tasks.Has task :=
    (Decidable.em _).imp_right fun other => Arena.has_of_alloc has other
  exact {
    work := fun {other} h => by
      rw [suspension_eq] at h ⊢
      split at h
      · cases h
      · next other =>
        rw [if_neg other]
        exact orderly.work h
    task := fun {other} has h => by
      rw [suspension_eq] at h
      split at h
      · next same => exact ⟨m.tasks.next, Arena.has_alloc_next .., by rw [new_eq, same]⟩
      · next apart =>
        obtain ⟨task, has_task, from_other⟩ := orderly.task (Arena.has_of_set has_ref has) h
        exact ⟨task, has_task.alloc new, by rw [old has_task, from_other]⟩
    origin := fun {task} has => by
      obtain rfl | has := cases_task has
      · rw [new_eq]
        exact Arena.has_set ..
      · rw [old has]
        exact (orderly.origin has).set ref started
    phase := fun {task} has => by
      obtain rfl | has := cases_task has
      · rw [new_eq, suspension_eq, if_pos rfl]
        rfl
      · rw [old has, suspension_eq, if_neg (none has)]
        exact orderly.phase has
    unique := fun {task other} has has' same => by
      -- The new task shares its suspension with nobody, as none has come from it before.
      obtain rfl | has := cases_task has <;> obtain rfl | has' := cases_task has'
      · rfl
      · rw [new_eq, old has'] at same
        exact absurd same.symm (none has')
      · rw [new_eq, old has] at same
        exact absurd same (none has)
      · rw [old has, old has'] at same
        exact orderly.unique has has' same
    fresh := fun {task} has ready => by
      obtain rfl | has := cases_task has
      · rw [new_eq]
        rfl
      · rw [old has] at ready ⊢
        exact orderly.fresh has ready
    older := fun {task left right} has joining => by
      obtain rfl | has := cases_task has
      · rw [new_eq] at joining
        cases joining
      · rw [old has] at joining
        exact orderly.older has joining }

end Orderly

/-- Growth moves phases on, and leaves the tasks that there are as they are. -/
theorem Grows.follows {m m' : Machine} (h : m.Grows m') :
    m.Follows m' ∧ ∀ task, m.tasks.Has task → m'.tasks.Has task ∧ m'.task task = m.task task := by
  induction h with
  | aside suspensions tasks =>
    exact ⟨.of_eq suspensions tasks, fun _ has => ⟨tasks ▸ has, by rw [task, task, tasks]⟩⟩
  | suspend m work out acceptsInput mime =>
    let made : Suspension := ⟨.created, some work, out, acceptsInput, mime⟩
    have old {ref : Ref .suspension} (has : m.suspensions.Has ref) :
        (m.newSuspension made).2.suspension ref = m.suspension ref :=
      (Arena.get_alloc ..).trans (if_neg has.ne_next)
    exact ⟨⟨fun has => has.alloc made, fun has => by rw [old has], id, fun _ ready => ready,
      fun _ => ⟨rfl, rfl⟩⟩, fun _ has => ⟨has, rfl⟩⟩
  | @resume m ref work input created pending =>
    let started : Suspension := { m.suspension ref with phase := .resuming, work := none }
    let new : TaskState := ⟨ref, (m.suspension ref).out, .ready work input, ⟨work, input⟩⟩
    have suspension_eq (other : Ref .suspension) : (m.startTask ref work input).2.suspension other =
        if other = ref then started else m.suspension other := Arena.get_set ..
    have old {task : Ref .task} (has : m.tasks.Has task) :
        (m.startTask ref work input).2.task task = m.task task :=
      (Arena.get_alloc ..).trans (if_neg has.ne_next)
    refine ⟨⟨fun has => has.set ref started, fun {other} has => ?_, fun has => has.alloc new,
      fun {task} has ready => ?_, fun has => by rw [old has]; exact ⟨rfl, rfl⟩⟩,
      fun task has => ⟨has.alloc new, old has⟩⟩
    · -- Only the suspension that is resumed moves on.
      rw [suspension_eq]
      split
      · next same =>
        rw [same, created]
        exact .single .resume
      · exact .refl
    · rwa [old has] at ready
  | trans _ _ first second =>
    obtain ⟨follows, same⟩ := first
    obtain ⟨follows', same'⟩ := second
    refine ⟨follows.trans follows', fun task has => ?_⟩
    obtain ⟨has, eq⟩ := same task has
    obtain ⟨has, eq'⟩ := same' task has
    exact ⟨has, eq'.trans eq⟩

/-- Growth keeps order, and leaves the tasks that there are as they are. -/
theorem Grows.orderly {m m' : Machine} (h : m.Grows m') (orderly : m.Orderly) :
    m'.Orderly ∧ m.Follows m' ∧
      ∀ task, m.tasks.Has task → m'.tasks.Has task ∧ m'.task task = m.task task := by
  refine ⟨?_, h.follows⟩
  induction h with
  | aside suspensions tasks => exact orderly.of_eq suspensions tasks
  | suspend => exact orderly.newSuspension rfl rfl
  | resume input created => exact orderly.startTask created _ input
  | trans _ _ first second => exact second (first orderly)

/-- Tasks that have been made meanwhile have not been started. -/
theorem Grows.isNew {m m' : Machine} (h : m.Grows m') (orderly : m.Orderly) {task : Ref .task}
    (has : m'.tasks.Has task) : m.tasks.Has task ∨ (m'.task task).IsNew := by
  induction h with
  | aside _ tasks => exact .inl (tasks ▸ has)
  | suspend => exact .inl has
  | @resume m ref work input =>
    have task_eq : (m.startTask ref work input).2.task task = if task = m.tasks.next then
        ⟨ref, (m.suspension ref).out, .ready work input, ⟨work, input⟩⟩ else m.task task :=
          Arena.get_alloc ..
    by_cases new : task = m.tasks.next
    · rw [task_eq, if_pos new]
      exact .inr rfl
    · exact .inl (Arena.has_of_alloc has new)
  | trans earlier later first second =>
    obtain ⟨orderly', _, _⟩ := earlier.orderly orderly
    -- What was made by the first growth is left as it is by the second.
    rcases second orderly' has with known | new
    · rw [((later.orderly orderly').2.2 task known).2]
      exact first orderly known
    · exact .inr new

/-! ## Work that is not resumed -/

/-- Growth resumes work and changes none. -/
theorem Grows.keepsWork {m m' : Machine} (h : m.Grows m') : m.KeepsWork m' := by
  induction h with
  | aside suspensions => exact .of_eq suspensions
  | suspend => exact .of_alloc rfl
  | resume => exact .of_set rfl rfl rfl Phase.noConfusion
  | trans _ _ first second => exact first.trans second

/-! ## Attending to a task -/

/-- One task is attended to: it has been started behind that, and the others are as they were. -/
structure Attends (m : Machine) (ref : Ref .task) (m' : Machine) : Prop where
  orderly : m'.Orderly
  follows : m.Follows m'
  started : (m'.task ref).progress.isReady = false
  others {other : Ref .task} (has : m.tasks.Has other) (apart : other ≠ ref) :
    m'.task other = m.task other
  out : (m'.task ref).out = (m.task ref).out
  origin : (m'.task ref).suspension = (m.task ref).suspension
  errand : (m'.task ref).errand = (m.task ref).errand
  isNew {task : Ref .task} (has : m'.tasks.Has task) : m.tasks.Has task ∨ (m'.task task).IsNew
  keeps : m.KeepsWork m'

/-- A task that has not finished comes further, and its suspension with it. -/
theorem Orderly.progress {m m' : Machine} (orderly : m.Orderly) {ref : Ref .task}
    (has : m.tasks.Has ref) {progress : Progress} (started : progress.isReady = false)
    (older : ∀ left right, progress = .joining left right →
      ref.index < left.index ∧ ref.index < right.index)
    (tasks : m'.tasks = m.tasks.set ref { m.task ref with progress := progress })
    (suspensions : m'.suspensions = m.suspensions.set (m.task ref).suspension
      { m.suspension (m.task ref).suspension with phase := progress.phase }) : m'.Orderly := by
  have has_origin := orderly.origin has
  have task_eq (task : Ref .task) : m'.task task =
      if task = ref then { m.task ref with progress := progress } else m.task task := by
    rw [Machine.task, tasks, Arena.get_set]
    rfl
  have suspension_eq (other : Ref .suspension) : m'.suspension other =
      if other = (m.task ref).suspension then
        { m.suspension (m.task ref).suspension with phase := progress.phase }
      else m.suspension other := by
    rw [suspension, suspensions, Arena.get_set]
    rfl
  have origin_eq (task : Ref .task) : (m'.task task).suspension = (m.task task).suspension := by
    rw [task_eq]
    split
    · next at_ref => rw [at_ref]
    · rfl
  have old {task : Ref .task} (h : m'.tasks.Has task) : m.tasks.Has task :=
    Arena.has_of_set has (tasks ▸ h)
  have still {task : Ref .task} (h : m.tasks.Has task) : m'.tasks.Has task := tasks ▸ h.set ref _
  exact {
    work := fun {other} created => by
      rw [suspension_eq] at created ⊢
      split at created
      · exact absurd created progress.phase_ne_created
      · next other =>
        rw [if_neg other]
        exact orderly.work created
    task := fun {other} h resumed => by
      rw [suspension_eq] at resumed
      split at resumed
      · next same => exact ⟨ref, still has, by rw [origin_eq, same]⟩
      · have h : m.suspensions.Has other := Arena.has_of_set has_origin (suspensions ▸ h)
        obtain ⟨task, has_task, from_other⟩ := orderly.task h resumed
        exact ⟨task, still has_task, by rw [origin_eq, from_other]⟩
    origin := fun h => by
      rw [origin_eq, suspensions]
      exact (orderly.origin (old h)).set _ _
    phase := fun {task} h => by
      rw [origin_eq, suspension_eq, task_eq]
      by_cases at_ref : task = ref
      · rw [if_pos at_ref, if_pos (by rw [at_ref])]
      · -- No other task has come from the same suspension.
        rw [if_neg at_ref, if_neg fun same => at_ref (orderly.unique (old h) has same)]
        exact orderly.phase (old h)
    unique := fun h h' same => by
      rw [origin_eq, origin_eq] at same
      exact orderly.unique (old h) (old h') same
    fresh := fun {task} h ready => by
      rw [task_eq] at ready ⊢
      split at ready
      · -- The task that has come further is not ready.
        rw [started] at ready
        cases ready
      · next other =>
        rw [if_neg other]
        exact orderly.fresh (old h) ready
    older := fun {task left right} h joining => by
      rw [task_eq] at joining
      split at joining
      · next at_ref => exact at_ref ▸ older left right joining
      · exact orderly.older (old h) joining }

/-- A task that has not finished comes further, and its suspension with it, after some growth. -/
theorem Grows.attend {m m' m'' : Machine} (h : m.Grows m') (orderly : m.Orderly) {ref : Ref .task}
    (has : m.tasks.Has ref) (unfinished : (m.task ref).progress.phase = .resuming)
    {progress : Progress} (started : progress.isReady = false)
    (older : ∀ left right, progress = .joining left right →
      ref.index < left.index ∧ ref.index < right.index)
    (tasks : m''.tasks = m'.tasks.set ref { m'.task ref with progress := progress })
    (suspensions : m''.suspensions = m'.suspensions.set (m'.task ref).suspension
      { m'.suspension (m'.task ref).suspension with phase := progress.phase }) :
    m.Attends ref m'' := by
  obtain ⟨orderly', follows, same⟩ := h.orderly orderly
  obtain ⟨has', task_ref⟩ := same ref has
  have task_eq (task : Ref .task) : m''.task task =
      if task = ref then { m.task ref with progress := progress } else m'.task task := by
    rw [Machine.task, tasks, Arena.get_set, task_ref]
    rfl
  have suspension_eq (other : Ref .suspension) : m''.suspension other =
      if other = (m'.task ref).suspension then
        { m'.suspension (m'.task ref).suspension with phase := progress.phase }
      else m'.suspension other := by
    rw [suspension, suspensions, Arena.get_set]
    rfl
  have at_ref : m''.task ref =
      { m.task ref with progress := progress } := by rw [task_eq, if_pos rfl]
  have further : m'.Follows m'' := {
    suspension := fun h => suspensions ▸ h.set _ _
    leads := fun {other} _ => by
      rw [suspension_eq]
      split
      · next same =>
        -- Until now the suspension was being resumed, as its task has not finished.
        rw [same, orderly'.phase has', task_ref, unfinished]
        cases progress with
        | finished result => exact .single (.finish result)
        | _ => exact .refl
      · exact .refl
    task := fun h => tasks ▸ h.set ref _
    ready := fun {task} _ ready => by
      rw [task_eq] at ready
      split at ready
      · exact absurd ready (by simp [started])
      · exact ready
    retains := fun {task} _ => by
      rw [task_eq]
      split
      · next same =>
        rw [same, task_ref]
        exact ⟨rfl, rfl⟩
      · exact ⟨rfl, rfl⟩ }
  exact {
    orderly := orderly'.progress has' started older tasks suspensions
    follows := follows.trans further
    started := at_ref ▸ started
    others := fun {other} h apart => by
      rw [task_eq, if_neg apart]
      exact (same other h).2
    out := by rw [at_ref]
    origin := by rw [at_ref]
    errand := by rw [at_ref]
    isNew := fun {task} h' => by
      by_cases here : task = ref
      · exact .inl (here ▸ has)
      · rw [task_eq, if_neg here]
        exact h.isNew orderly (Arena.has_of_set has' (tasks ▸ h'))
    keeps := h.keepsWork.trans (.of_set suspensions rfl rfl progress.phase_ne_created) }

/-- A task that has not finished waits for something else, after some growth. -/
theorem Grows.proceed {m m' m'' : Machine} (h : m.Grows m') (orderly : m.Orderly) {ref : Ref .task}
    (has : m.tasks.Has ref) (unfinished : (m.task ref).progress.phase = .resuming)
    (progress : Progress) (started : progress.isReady = false) (phase : progress.phase = .resuming)
    (older : ∀ left right, progress = .joining left right →
      ref.index < left.index ∧ ref.index < right.index)
    (tasks : m''.tasks = m'.tasks.set ref { m'.task ref with progress := progress })
    (suspensions : m''.suspensions = m'.suspensions) : m.Attends ref m'' := by
  refine h.attend orderly has unfinished started older tasks (suspensions.trans ?_)
  -- The suspension is in the phase of being resumed already, so that nothing is done to it.
  obtain ⟨orderly, _, same⟩ := h.orderly orderly
  obtain ⟨has, task_ref⟩ := same ref has
  have resuming : (m'.suspension (m'.task ref).suspension).phase = progress.phase := by
    rw [orderly.phase has, task_ref, unfinished, phase]
  rw [← resuming]
  exact ((orderly.origin has).set_get).symm

/-- A task gets its result, after some growth. -/
theorem Grows.finish {m m' : Machine} (h : m.Grows m') (orderly : m.Orderly) {ref : Ref .task}
    (has : m.tasks.Has ref) (unfinished : (m.task ref).progress.phase = .resuming)
    (result : Result) : m.Attends ref (finishTask ref result m').2 := by
  rw [finishTask_apply]
  exact h.attend orderly has unfinished rfl (fun _ _ joining => by cases joining) rfl rfl

/-! ## What is left alone -/

/-- Suspensions and tasks have come further, and those that have been left alone are as they were: a
suspension that was not resumed has its work, and a task that was not started is the same. -/
structure Bides (m m' : Machine) : Prop extends m.Follows m' where
  keeps : m.KeepsWork m'
  same {task : Ref .task} (has : m.tasks.Has task) (ready : (m'.task task).progress.isReady) :
    m'.task task = m.task task

theorem Bides.refl (m : Machine) : m.Bides m := ⟨.refl m, .of_eq rfl, fun _ _ => rfl⟩

theorem Bides.trans {m m' m'' : Machine} (first : m.Bides m') (second : m'.Bides m'') :
    m.Bides m'' where
  toFollows := first.toFollows.trans second.toFollows
  keeps := first.keeps.trans second.keeps
  same has ready := by
    -- What is ready in the end was so all the time.
    have later := second.same (first.task has) ready
    rw [later] at ready ⊢
    exact first.same has ready

theorem Grows.bides {m m' : Machine} (h : m.Grows m') (orderly : m.Orderly) : m.Bides m' where
  toFollows := (h.orderly orderly).2.1
  keeps := h.keepsWork
  same {task} has _ := ((h.orderly orderly).2.2 task has).2

/-- The task that is attended to has been started, so that it is not one of those that were left
alone. -/
theorem Attends.bides {m m' : Machine} {ref : Ref .task} (h : m.Attends ref m') : m.Bides m' where
  toFollows := h.follows
  keeps := h.keeps
  same {task} has ready := by
    refine h.others has ?_
    rintro rfl
    rw [h.started] at ready
    cases ready

end Machine

/-! ## Growth in evaluation -/

/-- Suspensions are made and resumed and nothing else is done to them, wherever evaluation stops. -/
def growing : Trend where
  Holds := Machine.Grows
  trans := .trans
  stir h := .aside (congrArg Machine.Plumbing.suspensions h.plumbing_eq)
    (congrArg Machine.Plumbing.tasks h.plumbing_eq)
  arrange _ makes := makes.grows
  enlist := grows_autoResume
  enter _ _ _ := .aside rfl rfl
  leave m := by
    unfold Machine.leave
    cases m.calls <;> exact .aside rfl rfl
  mount _ _ _ := .aside rfl rfl
  dismount _ _ _ _ := .aside rfl rfl

/-- Evaluation makes and resumes suspensions and does nothing else to them. -/
def growth : Modest := growing.modest

/-- Evaluation with some fuel makes and resumes suspensions and does nothing else to them. -/
theorem Engine.grows_ofFuel {host : Host} (hosted : growth.discipline.Admits host) (fuel : Nat) :
    growth.discipline.Relates (ofFuel host fuel) (ofFuel host fuel) :=
  Trend.relates_ofFuel hosted fuel

theorem resumes_growth : growth.Resumes := grows_resume

/-- Growth has nothing to do with backings. -/
theorem tracks_growth : growth.discipline.Tracks where
  track _ _ _ := .aside rfl rfl
  untrack _ _ := .aside rfl rfl
  markStopped _ _ := .aside rfl rfl

/-- What a computation has done when it has ended. -/
theorem grows_of_ended {α : Type} {action : Effect Machine α} (h : growth.Allows action)
    {m m' : Machine} {result : Option α} (ended : action m = (result, m')) : m.Grows m' :=
  Trend.of_run h ended

end Wordstream
