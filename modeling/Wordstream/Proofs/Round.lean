import Wordstream.Proofs.Conduct

/-!
# Rounds of polls

The task of a pipe polls the tasks of both sides, so a poll of the task of nested pipes is a round
in which the tasks of all parts are polled in order. It does not matter how the pipes are nested,
except for the tasks in between, and these only put results together.

What a poll does to the machine apart from tasks and suspensions is described by assertions, one for
each moment between two parts.

## Main results

* `Plan.Begun.polls` — the first round
* `Plan.Stands.polls` — every further round
-/

namespace Wordstream

/-! ## Polling -/

/-- Polling comes to an end, which is the same for all fuel from some bound on, that for evaluation
and that for polling itself. -/
def Polls {α : Type} (engine : Nat → Engine) (run : Engine → Nat → Effect Machine α) (m : Machine)
    (result : α) (m' : Machine) : Prop :=
  ∃ bound, ∀ fuel depth, bound ≤ fuel → bound ≤ depth →
    run (engine fuel) depth m = (some result, m')

namespace Polls

variable {α β : Type} {engine : Nat → Engine} {m middle m' : Machine}

theorem of_ends {run : Engine → Effect Machine α} {result : α}
    (h : Ends (fun fuel => run (engine fuel)) m result m') :
    Polls engine (fun e _ => run e) m result m' := by
  obtain ⟨bound, h⟩ := h
  exact ⟨bound, fun fuel _ enough _ => h fuel enough⟩

theorem of_eq {run : Engine → Nat → Effect Machine α} {result : α}
    (h : ∀ fuel depth, run (engine fuel) depth m = (some result, m')) :
    Polls engine run m result m' :=
  ⟨0, fun fuel depth _ _ => h fuel depth⟩

theorem congr {run run' : Engine → Nat → Effect Machine α} {result : α}
    (same : ∀ fuel depth, run (engine fuel) depth m = run' (engine fuel) depth middle)
    (h : Polls engine run' middle result m') : Polls engine run m result m' := by
  obtain ⟨bound, h⟩ := h
  exact ⟨bound, fun fuel depth enough deep => (same fuel depth).trans (h fuel depth enough deep)⟩

/-- Polling once takes one unit of fuel; the rest is as it goes on. -/
theorem of_succ {run run' : Engine → Nat → Effect Machine α} {result : α}
    (same : ∀ fuel depth, run (engine fuel) (depth + 1) m = run' (engine fuel) depth middle)
    (h : Polls engine run' middle result m') : Polls engine run m result m' := by
  obtain ⟨bound, h⟩ := h
  refine ⟨bound + 1, fun fuel depth enough deep => ?_⟩
  obtain ⟨depth, rfl⟩ : ∃ rest, depth = rest + 1 := ⟨depth - 1, by omega⟩
  rw [same]
  exact h fuel depth (by omega) (by omega)

theorem bind {first : Engine → Nat → Effect Machine α} {next : Engine → Nat → α → Effect Machine β}
    {given : α} {result : β} (before : Polls engine first m given middle)
    (after : Polls engine (fun e depth => next e depth given) middle result m') :
    Polls engine (fun e depth => first e depth >>= next e depth) m result m' := by
  obtain ⟨bound, before⟩ := before
  obtain ⟨bound', after⟩ := after
  refine ⟨max bound bound', fun fuel depth enough deep => ?_⟩
  refine (Effect.bind_apply _ _ _).trans ?_
  rw [before fuel depth (by omega) (by omega)]
  exact after fuel depth (by omega) (by omega)

/-- With one fuel for both, polling comes to an end. -/
theorem ends {run : Engine → Nat → Effect Machine α} {result : α}
    (h : Polls engine run m result m') : Ends (fun fuel => run (engine fuel) fuel) m result m' := by
  obtain ⟨bound, h⟩ := h
  exact ⟨bound, fun fuel enough => h fuel fuel enough enough⟩

/-- There is one end only. -/
theorem unique {run : Engine → Nat → Effect Machine α} {result other : α} {m'' : Machine}
    (h : Polls engine run m result m') (h' : Polls engine run m other m'') :
    result = other ∧ m' = m'' := by
  obtain ⟨bound, h⟩ := h
  obtain ⟨bound', h'⟩ := h'
  have same := (h (max bound bound') (max bound bound') (by omega) (by omega)).symm.trans
    (h' (max bound bound') (max bound bound') (by omega) (by omega))
  exact ⟨Option.some.inj (congrArg Prod.fst same), congrArg Prod.snd same⟩

end Polls

namespace Progress

/-- The result of a task that has finished. -/
def result? : Progress → Option Result
  | finished result => some result
  | _ => none

end Progress

/-! ## Suspensions and tasks -/

namespace Machine

/-- A task of a suspension has come so far. -/
structure Stands (m : Machine) (t : Ref .task) (ref : Ref .suspension) (out : Ref .channel)
    (progress : Progress) : Prop where
  has : m.tasks.Has t
  task : m.task t = ⟨ref, out, progress, (m.task t).errand⟩
  phase : (m.suspension ref).phase = progress.phase

/-- A suspension that can be resumed with an input or without. -/
structure Offers (m : Machine) (ref : Ref .suspension) (out : Ref .channel) (work : Work)
    (input : Option (Ref .channel)) : Prop where
  phase : (m.suspension ref).phase = .created
  work : (m.suspension ref).work = some work
  out : (m.suspension ref).out = out
  accepts : input.isSome → (m.suspension ref).acceptsInput

/-- Only some suspensions and their tasks are changed, and tasks are added. -/
structure Works (m : Machine) (refs : List (Ref .suspension)) (m' : Machine) : Prop where
  suspension (ref : Ref .suspension) : ref ∉ refs → m'.suspension ref = m.suspension ref
  task (t : Ref .task) : m.tasks.Has t → (m.task t).suspension ∉ refs → m'.task t = m.task t
  has (t : Ref .task) : m.tasks.Has t → m'.tasks.Has t

/-- Nothing but suspensions and tasks is changed. -/
def SameBeyondTasks (m m' : Machine) : Prop :=
  { m' with suspensions := m.suspensions, tasks := m.tasks } = m

theorem SameBeyondTasks.trans {m m' m'' : Machine} (first : m.SameBeyondTasks m')
    (second : m'.SameBeyondTasks m'') : m.SameBeyondTasks m'' := by
  unfold SameBeyondTasks at *
  rw [← first, ← second]

namespace Works

variable {m m' m'' : Machine} {refs more : List (Ref .suspension)}

theorem refl (m : Machine) (refs : List (Ref .suspension)) : m.Works refs m :=
  ⟨fun _ _ => rfl, fun _ _ _ => rfl, fun _ has => has⟩

theorem trans (first : m.Works refs m') (second : m'.Works refs m'') : m.Works refs m'' where
  suspension ref apart := (second.suspension ref apart).trans (first.suspension ref apart)
  task t has apart := by
    have same := first.task t has apart
    rw [second.task t (first.has t has) (by rwa [same]), same]
  has t has := second.has t (first.has t has)

theorem mono (h : m.Works refs m') (subset : refs ⊆ more) : m.Works more m' where
  suspension ref apart := h.suspension ref fun member => apart (subset member)
  task t has apart := h.task t has fun member => apart (subset member)
  has := h.has

end Works

variable {m m' : Machine} {t : Ref .task} {ref : Ref .suspension} {out : Ref .channel}

/-- A task stands where it stood until its suspension is worked on. -/
theorem Stands.works {progress : Progress} {refs : List (Ref .suspension)}
    (stands : m.Stands t ref out progress) (works : m.Works refs m') (apart : ref ∉ refs) :
    m'.Stands t ref out progress where
  has := works.has t stands.has
  task := by rw [works.task t stands.has (by rw [stands.task]; exact apart), stands.task]
  phase := by rw [works.suspension ref apart, stands.phase]

theorem Offers.of_eq {work : Work} {input : Option (Ref .channel)}
    (offers : m.Offers ref out work input) (same : m'.suspension ref = m.suspension ref) :
    m'.Offers ref out work input :=
  ⟨same ▸ offers.phase, same ▸ offers.work, same ▸ offers.out, same ▸ offers.accepts⟩

/-- A task comes further. -/
theorem Stands.setProgress {progress further : Progress} (stands : m.Stands t ref out progress)
    (same : further.phase = progress.phase) :
    ∃ m', Wordstream.setProgress t further m = (some (), m') ∧ m'.Stands t ref out further ∧
      m.Works [ref] m' ∧ m.SameBeyondTasks m' := by
  refine ⟨{ m with tasks := m.tasks.set t { m.task t with progress := further } }, rfl,
    ⟨stands.has.set t _, ?_, stands.phase.trans same.symm⟩, ⟨fun _ _ => rfl, ?_, ?_⟩, rfl⟩
  · change (m.tasks.set t _).get t = ⟨_, _, _, ((m.tasks.set t _).get t).errand⟩
    rw [Arena.get_set, if_pos rfl, stands.task]
  · intro other has apart
    change (m.tasks.set t _).get other = _
    rw [Arena.get_set, if_neg]
    · rfl
    · rintro rfl
      exact apart (by rw [stands.task]; exact List.mem_singleton_self _)
  · exact fun _ has => has.set t _

/-- A task gets its result. -/
theorem Stands.finishTask {progress : Progress} (stands : m.Stands t ref out progress)
    (result : Result) :
    ∃ m', Wordstream.finishTask t result m = (some (some result), m') ∧
      m'.Stands t ref out (.finished result) ∧ m.Works [ref] m' ∧ m.SameBeyondTasks m' := by
  -- The task gets its result first, and then its suspension the phase that belongs to it.
  let m₁ : Machine :=
    { m with tasks := m.tasks.set t { m.task t with progress := .finished result } }
  have task₁ : m₁.task t = ⟨ref, out, .finished result, (m₁.task t).errand⟩ := by
    change (m.tasks.set t _).get t = ⟨_, _, _, ((m.tasks.set t _).get t).errand⟩
    rw [Arena.get_set, if_pos rfl, stands.task]
  have origin₁ : (m₁.task t).suspension = ref := by rw [task₁]
  let ended : Suspension := { m.suspension ref with phase := .ofResult result }
  refine ⟨{ m₁ with suspensions := m.suspensions.set ref ended }, ?_,
    ⟨stands.has.set t _, task₁, ?_⟩, ⟨?_, ?_, fun _ has => has.set t _⟩, rfl⟩
  · change (some (some result), _) = _
    refine Prod.ext rfl ?_
    change { m₁ with
      suspensions := m.suspensions.set (m₁.task t).suspension
        { m₁.suspension (m₁.task t).suspension with phase := .ofResult result } } = _
    rw [origin₁]
    rfl
  · change ((m.suspensions.set ref ended).get ref).phase = _
    rw [Arena.get_set, if_pos rfl]
    rfl
  · intro other apart
    change (m.suspensions.set ref ended).get other = _
    rw [Arena.get_set, if_neg (fun same => apart (by simp [same]))]
    rfl
  · intro other has apart
    change (m.tasks.set t _).get other = _
    rw [Arena.get_set, if_neg]
    · rfl
    · rintro rfl
      exact apart (by rw [stands.task]; exact List.mem_singleton_self _)

/-- A suspension that can be resumed is resumed. -/
theorem Offers.resume {work : Work} {input : Option (Ref .channel)}
    (offers : m.Offers ref out work input) :
    ∃ m', Wordstream.resume ref input m = (some (.ok m.tasks.next), m') ∧
      m'.Stands m.tasks.next ref out (.ready work input) ∧ m.Works [ref] m' ∧
      m.SameBeyondTasks m' := by
  have accepts : ¬ (input.isSome && !(m.suspension ref).acceptsInput) := by
    cases h : input.isSome with
    | false => simp
    | true => simp [offers.accepts h]
  refine ⟨(m.startTask ref work input).2, ?_, ⟨Arena.has_alloc_next .., ?_, ?_⟩, ⟨?_, ?_, ?_⟩, rfl⟩
  · -- Nothing speaks against it: it is not resumed yet, takes the input and has its work.
    rw [resume_apply, if_neg (by simp [offers.phase]), if_neg accepts, offers.work]
    rfl
  · change (m.tasks.alloc _).get m.tasks.next =
      ⟨_, _, _, ((m.tasks.alloc _).get m.tasks.next).errand⟩
    rw [Arena.get_alloc, if_pos rfl, offers.out]
  · change ((m.suspensions.set ref _).get ref).phase = _
    rw [Arena.get_set, if_pos rfl]
    rfl
  · intro other apart
    change (m.suspensions.set ref _).get other = _
    rw [Arena.get_set, if_neg (fun same => apart (by simp [same]))]
    rfl
  · intro other has _
    change (m.tasks.alloc _).get other = _
    rw [Arena.get_alloc, if_neg has.ne_next]
    rfl
  · exact fun _ has => has.alloc _

end Machine

/-! ## Plans -/

/-- A suspension that is a part of pipes, with its output and its work. -/
structure Part where
  ref : Ref .suspension
  out : Ref .channel
  work : Work

/-- How parts were piped: a part, or a pipe by its suspension, both sides, and the relay that feeds
the right one. -/
inductive Plan where
  | part (part : Part)
  | pipe (ref : Ref .suspension) (left right : Plan) (relay : Ref .channel)

namespace Plan

/-- The suspension of a plan. -/
def ref : Plan → Ref .suspension
  | part x => x.ref
  | pipe ref _ _ _ => ref

/-- The output of a plan. -/
def out : Plan → Ref .channel
  | part x => x.out
  | pipe _ _ right _ => right.out

/-- The parts of a plan, in order. -/
def parts : Plan → List Part
  | part x => [x]
  | pipe _ left right _ => left.parts ++ right.parts

/-- How many parts there are. -/
def size : Plan → Nat
  | part _ => 1
  | pipe _ left right _ => left.size + right.size

theorem length_parts (plan : Plan) : plan.parts.length = plan.size := by
  induction plan with
  | part x => rfl
  | pipe ref left right relay left_ih right_ih =>
    rw [parts, List.length_append, left_ih, right_ih, size]

theorem parts_ne_nil (plan : Plan) : plan.parts ≠ [] := by
  induction plan with
  | part x => exact List.cons_ne_nil _ _
  | pipe ref left right relay left_ih => exact List.append_ne_nil_of_left_ne_nil left_ih _

/-- The output of a plan is that of its last part. -/
theorem out_of_getLast? (plan : Plan) {x : Part} (last : x ∈ plan.parts.getLast?) :
    x.out = plan.out := by
  induction plan with
  | part y => exact congrArg Part.out (Option.some.inj last).symm
  | pipe ref left right relay _ right_ih =>
    refine right_ih ?_
    have some_last := List.getLast?_eq_some_getLast right.parts_ne_nil
    rwa [parts, List.getLast?_append, some_last, Option.some_or, ← some_last] at last

/-- All suspensions of a plan. -/
def refs : Plan → List (Ref .suspension)
  | part x => [x.ref]
  | pipe ref left right _ => ref :: (left.refs ++ right.refs)

theorem ref_mem (plan : Plan) : plan.ref ∈ plan.refs := by
  cases plan <;> simp [ref, refs]

/-- Something is true of each part and its place. -/
def Each (P : Nat → Part → Prop) : Plan → Nat → Prop
  | part x, i => P i x
  | pipe _ left right _, i => left.Each P i ∧ right.Each P (i + left.size)

/-- What is true of all parts, with their places, is true of each part of a plan. -/
theorem each_of_parts {P : Nat → Part → Prop} {plan : Plan} {i : Nat}
    (h : ∀ j x, plan.parts[j]? = some x → P (i + j) x) : plan.Each P i := by
  induction plan generalizing i with
  | part x => exact h 0 x rfl
  | pipe ref left right relay left_ih right_ih =>
    refine ⟨left_ih fun j x there => h j x ?_, right_ih fun j x there => ?_⟩
    · rw [parts, List.getElem?_append_left (List.getElem?_eq_some_iff.1 there).1, there]
    · rw [Nat.add_assoc]
      refine h _ x ?_
      rw [parts, left.length_parts.symm, List.getElem?_append_right (Nat.le_add_right _ _),
        Nat.add_sub_cancel_left, there]

/-- The result of two sides together, if both have one. -/
def bothResults? : Option Result → Option Result → Option Result
  | some left, some right => some (bothResults left right)
  | _, _ => none

theorem bothResults?_eq_some {left right : Option Result} {result : Result}
    (h : bothResults? left right = some result) :
    ∃ one two, left = some one ∧ right = some two ∧ bothResults one two = result := by
  cases left with
  | none => cases h
  | some one =>
    cases right with
    | none => cases h
    | some two => exact ⟨one, two, rfl, rfl, Option.some.inj h⟩

/-- The result of a plan when its parts have come so far. -/
def result? (progress : Nat → Progress) : Plan → Nat → Option Result
  | part _, i => (progress i).result?
  | pipe _ left right _, i =>
    bothResults? (left.result? progress i) (right.result? progress (i + left.size))

/-- A plan has no result before its first part has one. -/
theorem result?_of_first {progress : Nat → Progress} (plan : Plan) {i : Nat}
    (unfinished : (progress i).result? = none) : plan.result? progress i = none := by
  induction plan generalizing i with
  | part x => exact unfinished
  | pipe ref left right relay left_ih =>
    rw [result?, left_ih unfinished]
    rfl

/-- When all parts have finished the plan has, whatever its shape. -/
theorem result?_of_finished {progress : Nat → Progress} (plan : Plan) {i : Nat}
    {results : List Result} (all : results.length = plan.size)
    (finished : ∀ j result, results[j]? = some result → progress (i + j) = .finished result) :
    plan.result? progress i = some (Result.together results) := by
  induction plan generalizing i results with
  | part x =>
    obtain ⟨result, rfl⟩ := List.length_eq_one_iff.1 all
    rw [result?, ← Nat.add_zero i, finished 0 result rfl]
    exact congrArg some (bothResults_ok result).symm
  | pipe ref left right relay left_ih right_ih =>
    -- The first results belong to the left side, and those behind them to the right one.
    have split : results = results.take left.size ++ results.drop left.size :=
      (List.take_append_drop _ _).symm
    rw [size] at all
    have taken : (results.take left.size).length = left.size := by
      rw [List.length_take]
      omega
    have dropped : (results.drop left.size).length = right.size := by
      rw [List.length_drop]
      omega
    have on_left := left_ih taken fun j result there => finished j result (by
      rw [split, List.getElem?_append_left (List.getElem?_eq_some_iff.1 there).1, there])
    have on_right := right_ih dropped fun j result there => by
      rw [Nat.add_assoc]
      exact finished _ result (by rw [← there, List.getElem?_drop])
    rw [result?, on_left, on_right, bothResults?, ← Result.together_append, ← split]

/-- How far the task of a pipe has come. -/
def joint (left right : Ref .task) : Option Result → Progress
  | some result => .finished result
  | none => .joining left right

/-- The tasks of a plan when its parts have come so far. -/
def Stands (progress : Nat → Progress) : Plan → Nat → Ref .task → Machine → Prop
  | part x, i, t, m => m.Stands t x.ref x.out (progress i)
  | pipe ref left right relay, i, t, m =>
    ∃ first second, m.Stands t ref right.out
        (joint first second ((pipe ref left right relay).result? progress i)) ∧
      left.Stands progress i first m ∧ right.Stands progress (i + left.size) second m

/-- A plan that can be resumed with an input or without, with how its parts will begin. -/
def Ready (begins : Nat → Progress) : Plan → Nat → Option (Ref .channel) → Machine → Prop
  | part x, i, input, m => begins i = .ready x.work input ∧ m.Offers x.ref x.out x.work input
  | pipe ref left right relay, i, input, m =>
    m.Offers ref right.out (.pipe left.ref right.ref relay) input ∧
      left.Ready begins i input m ∧ right.Ready begins (i + left.size) (some relay) m

/-- A plan that was resumed and not polled. -/
def Begun (begins : Nat → Progress) :
    Plan → Nat → Option (Ref .channel) → Ref .task → Machine → Prop
  | part x, i, _, t, m => m.Stands t x.ref x.out (begins i)
  | pipe ref left right relay, i, input, t, m =>
    m.Stands t ref right.out (.ready (.pipe left.ref right.ref relay) input) ∧
      left.Ready begins i input m ∧ right.Ready begins (i + left.size) (some relay) m

/-- The task of a plan writes to the output of the plan. -/
theorem Stands.out_eq {progress : Nat → Progress} {plan : Plan} {i : Nat} {t : Ref .task}
    {m : Machine} (stands : plan.Stands progress i t m) : (m.task t).out = plan.out := by
  cases plan with
  | part x => exact congrArg TaskState.out (Machine.Stands.task stands)
  | pipe ref left right relay =>
    obtain ⟨first, second, node, -, -⟩ := stands
    exact congrArg TaskState.out node.task

/-- The phases of the suspensions of all parts. -/
theorem Stands.phase_eq {progress : Nat → Progress} {plan : Plan} {i j : Nat} {t : Ref .task}
    {m : Machine} (stands : plan.Stands progress i t m) {x : Part}
    (there : plan.parts[j]? = some x) :
    (m.suspension x.ref).phase = (progress (i + j)).phase := by
  induction plan generalizing i j t with
  | part y =>
    cases j with
    | zero =>
      obtain rfl := Option.some.inj there
      exact Machine.Stands.phase stands
    | succ j => cases there
  | pipe ref left right relay left_ih right_ih =>
    obtain ⟨first, second, -, stands_left, stands_right⟩ := stands
    rw [parts] at there
    by_cases inside : j < left.parts.length
    · rw [List.getElem?_append_left inside] at there
      exact left_ih stands_left there
    · rw [List.getElem?_append_right (by omega), left.length_parts] at there
      rw [left.length_parts] at inside
      rw [right_ih stands_right there, show i + left.size + (j - left.size) = i + j by omega]

theorem Begun.out_eq {begins : Nat → Progress} {plan : Plan} {i : Nat}
    {input : Option (Ref .channel)} {t : Ref .task} {m : Machine}
    (begun : plan.Begun begins i input t m) : (m.task t).out = plan.out := by
  cases plan with
  | part x => exact congrArg TaskState.out (Machine.Stands.task begun)
  | pipe ref left right relay => exact congrArg TaskState.out begun.1.task

section Works

variable {progress : Nat → Progress} {plan : Plan} {i : Nat} {t : Ref .task}
  {input : Option (Ref .channel)} {m m' : Machine} {others : List (Ref .suspension)}

/-- The tasks of a plan stand where they stood until the plan is worked on. -/
theorem Stands.works (stands : plan.Stands progress i t m) (works : m.Works others m')
    (apart : ∀ ref ∈ plan.refs, ref ∉ others) : plan.Stands progress i t m' := by
  induction plan generalizing i t with
  | part x => exact Machine.Stands.works stands works (apart x.ref (by simp [refs]))
  | pipe ref left right relay left_ih right_ih =>
    obtain ⟨first, second, node, stands_left, stands_right⟩ := stands
    exact ⟨first, second, node.works works (apart ref (by simp [refs])),
      left_ih stands_left fun other member => apart other (by simp [refs, member]),
      right_ih stands_right fun other member => apart other (by simp [refs, member])⟩

/-- A plan is ready until something is done to its suspensions. -/
theorem Ready.of_eq (ready : plan.Ready progress i input m)
    (same : ∀ ref ∈ plan.refs, m'.suspension ref = m.suspension ref) :
    plan.Ready progress i input m' := by
  induction plan generalizing i input with
  | part x => exact ⟨ready.1, ready.2.of_eq (same x.ref (by simp [refs]))⟩
  | pipe ref left right relay left_ih right_ih =>
    obtain ⟨offers, ready_left, ready_right⟩ := ready
    exact ⟨offers.of_eq (same ref (by simp [refs])),
      left_ih ready_left fun other member => same other (by simp [refs, member]),
      right_ih ready_right fun other member => same other (by simp [refs, member])⟩

theorem Ready.works (ready : plan.Ready progress i input m) (works : m.Works others m')
    (apart : ∀ ref ∈ plan.refs, ref ∉ others) : plan.Ready progress i input m' :=
  ready.of_eq fun ref member => works.suspension ref (apart ref member)

theorem Begun.works (begun : plan.Begun progress i input t m) (works : m.Works others m')
    (apart : ∀ ref ∈ plan.refs, ref ∉ others) : plan.Begun progress i input t m' := by
  cases plan with
  | part x => exact Machine.Stands.works begun works (apart x.ref (by simp [refs]))
  | pipe ref left right relay =>
    obtain ⟨node, ready_left, ready_right⟩ := begun
    exact ⟨node.works works (apart ref (by simp [refs])),
      ready_left.works works fun other member => apart other (by simp [refs, member]),
      ready_right.works works fun other member => apart other (by simp [refs, member])⟩

/-- A plan that can be resumed is resumed. -/
theorem Ready.resume (ready : plan.Ready progress i input m) (apart : plan.refs.Nodup) :
    ∃ m', Wordstream.resume plan.ref input m = (some (.ok m.tasks.next), m') ∧
      plan.Begun progress i input m.tasks.next m' ∧ m.Works [plan.ref] m' ∧
      m.SameBeyondTasks m' := by
  cases plan with
  | part x =>
    obtain ⟨begins, offers⟩ := ready
    obtain ⟨m', resumed, stands, works, same⟩ := offers.resume
    exact ⟨m', resumed, by rw [Begun, begins]; exact stands, works, same⟩
  | pipe ref left right relay =>
    obtain ⟨offers, ready_left, ready_right⟩ := ready
    obtain ⟨m', resumed, stands, works, same⟩ := offers.resume
    have ref_apart : ref ∉ left.refs ++ right.refs := (List.nodup_cons.1 apart).1
    refine ⟨m', resumed, ⟨stands, ready_left.works works ?_, ready_right.works works ?_⟩,
      works, same⟩
    · intro other member same
      exact ref_apart (List.mem_singleton.1 same ▸ List.mem_append_left _ member)
    · intro other member same
      exact ref_apart (List.mem_singleton.1 same ▸ List.mem_append_right _ member)

end Works

/-- Starting the work of a pipe resumes both sides and waits for them. -/
theorem startWork_pipe (engine : Engine) {t first second : Ref .task}
    {left right : Ref .suspension} {relay : Ref .channel} {input : Option (Ref .channel)}
    {m m₁ m₂ m₃ : Machine} (resumed_left : resume left input m = (some (.ok first), m₁))
    (resumed_right : resume right (some relay) m₁ = (some (.ok second), m₂))
    (waits : setProgress t (.joining first second) m₂ = (some (), m₃)) :
    startWork engine t (.pipe left right relay) input m = (some none, m₃) := by
  have started : startPipe left right relay input m = (some (.ok (.joining first second)), m₂) := by
    rw [startPipe, Run.bind_apply, resumed_left]
    dsimp only
    rw [Run.bind_apply, resumed_right]
    rfl
  rw [startWork, Effect.bind_apply, outcome_apply, started]
  dsimp only
  rw [Effect.bind_apply, waits]
  rfl

/-- Polling the task of a pipe for the first time resumes both sides, and then polls it again. -/
theorem Begun.poll_pipe {begins : Nat → Progress} {ref : Ref .suspension} {left right : Plan}
    {relay : Ref .channel} (apart : (pipe ref left right relay).refs.Nodup) {i : Nat}
    {input : Option (Ref .channel)} {t : Ref .task} {m : Machine}
    (begun : (pipe ref left right relay).Begun begins i input t m) :
    ∃ first second m', (∀ engine fuel, poll engine (fuel + 1) t m = poll engine fuel t m') ∧
      m'.Stands t ref right.out (.joining first second) ∧ left.Begun begins i input first m' ∧
      right.Begun begins (i + left.size) (some relay) second m' ∧
      m.Works (pipe ref left right relay).refs m' ∧ m.SameBeyondTasks m' := by
  obtain ⟨node, ready_left, ready_right⟩ := begun
  obtain ⟨ref_apart, both_apart⟩ := List.nodup_cons.1 apart
  obtain ⟨left_apart, right_apart, sides_apart⟩ := List.nodup_append.1 both_apart
  have left_mem : left.ref ∈ left.refs ++ right.refs := List.mem_append_left _ left.ref_mem
  have right_mem : right.ref ∈ left.refs ++ right.refs := List.mem_append_right _ right.ref_mem
  obtain ⟨m₁, resumed_left, begun_left, works₁, same₁⟩ := ready_left.resume left_apart
  -- The sides have no part in common, so the right one is as ready as it was.
  have ready_right := ready_right.works works₁ fun other member same =>
    sides_apart other (List.mem_singleton.1 same ▸ left.ref_mem) other member rfl
  obtain ⟨m₂, resumed_right, begun_right, works₂, same₂⟩ := ready_right.resume right_apart
  -- The pipe itself belongs to neither side.
  have node₂ :=
    (node.works works₁ fun same => ref_apart (List.mem_singleton.1 same ▸ left_mem)).works
    works₂ fun same => ref_apart (List.mem_singleton.1 same ▸ right_mem)
  obtain ⟨m₃, waits, node₃, works₃, same₃⟩ := node₂.setProgress
    (show (Progress.joining m.tasks.next m₁.tasks.next).phase = _ from rfl)
  refine ⟨_, _, m₃, fun engine fuel => ?_, node₃, ?_, begun_right.works works₃ ?_, ?_,
    (same₁.trans same₂).trans same₃⟩
  · rw [poll_of_ready _ _ (by rw [node.task]), Effect.bind_apply,
      startWork_pipe engine resumed_left resumed_right waits]
    dsimp only
    rw [goOn, Effect.get_bind_apply, node₃.task]
  · refine (begun_left.works works₂ fun other member same => ?_).works works₃
      fun other member same => ?_
    · exact sides_apart other member other (List.mem_singleton.1 same ▸ right.ref_mem) rfl
    · exact ref_apart (List.mem_append_left _ (List.mem_singleton.1 same ▸ member))
  · intro other member same
    exact ref_apart (List.mem_append_right _ (List.mem_singleton.1 same ▸ member))
  · refine ((works₁.mono ?_).trans (works₂.mono ?_)).trans (works₃.mono ?_)
    all_goals rintro other member; obtain rfl := List.mem_singleton.1 member
    · exact List.mem_cons_of_mem _ left_mem
    · exact List.mem_cons_of_mem _ right_mem
    · exact List.mem_cons_self ..

/-! ## Rounds -/

section Rounds

variable {engine : Nat → Engine} {J : Nat → Machine → Prop}
  (stable : ∀ i m m', J i m → m.SameBeyondTasks m' → J i m') {before after : Nat → Progress}

/-- Polling a part at its place in a round takes it from how far it had come to how far it has come
then, and one assertion to the next. -/
def PartPolls (engine : Nat → Engine) (J : Nat → Machine → Prop) (before after : Nat → Progress)
    (i : Nat) (x : Part) : Prop :=
  ∀ (t : Ref .task) (m : Machine), J i m → m.Stands t x.ref x.out (before i) →
    ∃ m', Polls engine (fun e depth => poll e depth t) m (after i).result? m' ∧ J (i + 1) m' ∧
      m'.Stands t x.ref x.out (after i) ∧ m.Works [x.ref] m'

/-- A poll that needs no more polls. -/
theorem polls_of_poll {t : Ref .task} {m m' : Machine} {result : Option Result}
    (h : ∀ fuel depth, poll (engine fuel) (depth + 1) t m = (some result, m')) :
    Polls engine (fun e depth => poll e depth t) m result m' := by
  refine ⟨1, fun fuel depth _ deep => ?_⟩
  obtain ⟨depth, rfl⟩ : ∃ rest, depth = rest + 1 := ⟨depth - 1, by omega⟩
  exact h fuel depth

/-- A task that has finished is polled to no effect. -/
theorem polls_of_result {t : Ref .task} {ref : Ref .suspension} {out : Ref .channel}
    {progress : Progress} {result : Result} {m : Machine} (stands : m.Stands t ref out progress)
    (finished : progress.result? = some result) :
    Polls engine (fun e depth => poll e depth t) m (some result) m := by
  have finished : (m.task t).progress = .finished result := by
    rw [stands.task]
    cases progress with
    | finished other => exact congrArg Progress.finished (Option.some.inj finished)
    | _ => cases finished
  exact polls_of_poll fun _ _ => poll_of_finished _ _ finished

/-- Polling a task for the first time starts its work and goes on from there. -/
theorem polls_of_ready {t : Ref .task} {work : Work} {input : Option (Ref .channel)}
    {m m₁ m' : Machine} {started result : Option Result}
    (ready : (m.task t).progress = .ready work input)
    (starts : Ends (fun fuel => startWork (engine fuel) t work input) m started m₁)
    (goes_on : Polls engine (fun e depth => goOn (poll e depth t) t started) m₁ result m') :
    Polls engine (fun e depth => poll e depth t) m result m' := by
  have both : Polls engine (fun e depth => startWork e t work input >>= goOn (poll e depth t) t) m
      result m' := (Polls.of_ends starts).bind goes_on
  exact .of_succ (fun _ _ => poll_of_ready _ _ ready) both

/-- Polling the task of a pipe polls both sides and puts their results together. -/
theorem polls_joint {t first second : Ref .task} {ref : Ref .suspension} {out : Ref .channel}
    {left right : Option Result} {m m₁ m₂ : Machine}
    (stands : m.Stands t ref out (.joining first second))
    (polled_left : Polls engine (fun e depth => poll e depth first) m left m₁)
    (polled_right : Polls engine (fun e depth => poll e depth second) m₁ right m₂)
    (still : m₂.Stands t ref out (.joining first second)) :
    ∃ m', Polls engine (fun e depth => poll e depth t) m (bothResults? left right) m' ∧
      m'.Stands t ref out (joint first second (bothResults? left right)) ∧ m₂.Works [ref] m' ∧
      m₂.SameBeyondTasks m' := by
  obtain ⟨m', finished, stands', works, same⟩ : ∃ m', finishJoint t left right m₂ =
        (some (bothResults? left right), m') ∧
      m'.Stands t ref out (joint first second (bothResults? left right)) ∧ m₂.Works [ref] m' ∧
      m₂.SameBeyondTasks m' := by
    -- As long as one of the results is missing nothing is done.
    cases left with
    | none => exact ⟨m₂, rfl, still, .refl _ _, rfl⟩
    | some left =>
      cases right with
      | none => exact ⟨m₂, rfl, still, .refl _ _, rfl⟩
      | some right => exact still.finishTask (bothResults left right)
  have both : Polls engine (fun e depth => poll e depth first >>= fun left =>
      poll e depth second >>= fun right => finishJoint t left right) m
      (bothResults? left right) m' :=
    polled_left.bind (polled_right.bind (.of_eq fun _ _ => finished))
  exact ⟨m', .of_succ (fun _ _ => poll_of_joining _ _ (by rw [stands.task])) both, stands', works,
    same⟩

/-- A round through a pipe is a round through both sides. -/
theorem polls_pipe (stable : ∀ i m m', J i m → m.SameBeyondTasks m' → J i m')
    {ref : Ref .suspension} {left right : Plan} {relay : Ref .channel}
    (apart : (pipe ref left right relay).refs.Nodup) {i : Nat} {t first second : Ref .task}
    {m m₁ m₂ : Machine} (node : m.Stands t ref right.out (.joining first second))
    (polled_left : Polls engine (fun e depth => poll e depth first) m (left.result? after i) m₁)
    (stands_left : left.Stands after i first m₁) (works_left : m.Works left.refs m₁)
    (polled_right : Polls engine (fun e depth => poll e depth second) m₁
      (right.result? after (i + left.size)) m₂)
    (stands_right : right.Stands after (i + left.size) second m₂)
    (works_right : m₁.Works right.refs m₂) (j : J (i + left.size + right.size) m₂) :
    ∃ m', Polls engine (fun e depth => poll e depth t) m
        ((pipe ref left right relay).result? after i) m' ∧
      J (i + (left.size + right.size)) m' ∧ (pipe ref left right relay).Stands after i t m' ∧
      m.Works (pipe ref left right relay).refs m' := by
  obtain ⟨ref_apart, both_apart⟩ := List.nodup_cons.1 apart
  have sides_apart := (List.nodup_append.1 both_apart).2.2
  -- The sides are apart from each other and from the pipe: each stands as its own round has left
  -- it.
  have works : m.Works (left.refs ++ right.refs) m₂ :=
    (works_left.mono (List.subset_append_left _ _)).trans
      (works_right.mono (List.subset_append_right _ _))
  obtain ⟨m', polled, node', works', same⟩ :=
    polls_joint node polled_left polled_right (node.works works ref_apart)
  have not_ref : ∀ other ∈ left.refs ++ right.refs, other ∉ [ref] := fun other member same =>
    ref_apart (List.mem_singleton.1 same ▸ member)
  refine ⟨m', polled, Nat.add_assoc .. ▸ stable _ _ _ j same, ⟨first, second, node', ?_, ?_⟩,
    (works.mono (List.subset_cons_self _ _)).trans (works'.mono (by simp))⟩
  · refine (stands_left.works works_right fun other member same => ?_).works works'
      fun other member =>
      not_ref other (List.mem_append_left _ member)
    exact sides_apart other member other same rfl
  · exact stands_right.works works' fun other member =>
      not_ref other (List.mem_append_right _ member)

/-- A plan that has finished is polled to no effect. -/
theorem Stands.polls_of_result? {plan : Plan} {progress : Nat → Progress} {i : Nat} {t : Ref .task}
    {m : Machine} {result : Result} (stands : plan.Stands progress i t m)
    (finished : plan.result? progress i = some result) :
    Polls engine (fun e depth => poll e depth t) m (some result) m := by
  cases plan with
  | part x => exact polls_of_result stands finished
  | pipe ref left right relay =>
    obtain ⟨first, second, node, -, -⟩ := stands
    exact polls_of_result node (by rw [finished]; rfl)

include stable

/-- Every round but the first. -/
theorem Stands.polls {plan : Plan} {i : Nat} (each : plan.Each (PartPolls engine J before after) i)
    (apart : plan.refs.Nodup) {t : Ref .task} {m : Machine} (stands : plan.Stands before i t m)
    (j : J i m) :
    ∃ m', Polls engine (fun e depth => poll e depth t) m (plan.result? after i) m' ∧
      J (i + plan.size) m' ∧ plan.Stands after i t m' ∧ m.Works plan.refs m' := by
  induction plan generalizing i t m with
  | part x => exact each t m j stands
  | pipe ref left right relay left_ih right_ih =>
    obtain ⟨first, second, node, stands_left, stands_right⟩ := stands
    obtain ⟨-, both_apart⟩ := List.nodup_cons.1 apart
    obtain ⟨left_apart, right_apart, sides_apart⟩ := List.nodup_append.1 both_apart
    obtain ⟨m₁, polled_left, j₁, stands_left₁, works_left⟩ :=
      left_ih each.1 left_apart stands_left j
    have stands_right₁ := stands_right.works works_left fun other member same =>
      sides_apart other same other member rfl
    obtain ⟨m₂, polled_right, j₂, stands_right₂, works_right⟩ :=
      right_ih each.2 right_apart stands_right₁ j₁
    cases results : (pipe ref left right relay).result? before i with
    | none =>
      rw [results] at node
      exact polls_pipe (J := J) stable apart node polled_left stands_left₁ works_left polled_right
        stands_right₂ works_right j₂
    | some result =>
      -- Both sides had finished, and so nothing has happened to them.
      obtain ⟨one, two, was_left, was_right, rfl⟩ := bothResults?_eq_some results
      obtain ⟨still_left, rfl⟩ := polled_left.unique (stands_left.polls_of_result? was_left)
      obtain ⟨still_right, rfl⟩ := polled_right.unique (stands_right₁.polls_of_result? was_right)
      have still : (pipe ref left right relay).result? after i = some (bothResults one two) := by
        rw [result?, still_left, still_right, bothResults?]
      rw [results] at node
      rw [still]
      refine ⟨_, polls_of_result node rfl, Nat.add_assoc .. ▸ j₂,
        ⟨first, second, ?_, stands_left₁, stands_right₂⟩, .refl _ _⟩
      rw [still]
      exact node

/-- The first round. -/
theorem Begun.polls {plan : Plan} {i : Nat} (each : plan.Each (PartPolls engine J before after) i)
    (apart : plan.refs.Nodup) {input : Option (Ref .channel)} {t : Ref .task} {m : Machine}
    (begun : plan.Begun before i input t m) (j : J i m) :
    ∃ m', Polls engine (fun e depth => poll e depth t) m (plan.result? after i) m' ∧
      J (i + plan.size) m' ∧ plan.Stands after i t m' ∧ m.Works plan.refs m' := by
  induction plan generalizing i t m input with
  | part x => exact each t m j begun
  | pipe ref left right relay left_ih right_ih =>
    obtain ⟨-, both_apart⟩ := List.nodup_cons.1 apart
    obtain ⟨left_apart, right_apart, sides_apart⟩ := List.nodup_append.1 both_apart
    obtain ⟨first, second, m₁, waits, node, begun_left, begun_right, works₁, same₁⟩ :=
      begun.poll_pipe apart
    obtain ⟨m₂, polled_left, j₂, stands_left, works_left⟩ :=
      left_ih each.1 left_apart begun_left (stable _ _ _ j same₁)
    have begun_right := begun_right.works works_left fun other member same =>
      sides_apart other same other member rfl
    obtain ⟨m₃, polled_right, j₃, stands_right, works_right⟩ :=
      right_ih each.2 right_apart begun_right j₂
    obtain ⟨m', polled, j', stands', works'⟩ := polls_pipe (J := J) stable apart node polled_left
      stands_left works_left polled_right stands_right works_right j₃
    exact ⟨m', .of_succ (fun _ _ => waits _ _) polled, j', stands', works₁.trans works'⟩

end Rounds

end Plan

end Wordstream
