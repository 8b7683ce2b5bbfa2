import Wordstream.Proofs.Discipline

/-!
# Sound machines

A program handles suspensions without ever using one as a value: it is to store none, to publish
none and to pass none to a function. A machine is sound if that is so in all its places, those
included that hold what is to be done later, and if nothing in it has failed by using a suspension
or a channel a second time. Here it is shown what may be done to a sound machine.

## Main results

* `Machine.Stirs.stores` — a strict evaluation stores no suspension by itself
-/

namespace Wordstream

/-! ## Values in use -/

/-- A signal that carries no suspension, and no failure of using one twice. -/
def Signal.IsFree : Signal → Prop
  | .next value => value.isSuspension = false
  | .failed failure => failure.isOrdinary
  | .complete => True

/-- A result that is no suspension, and no failure of using one twice. -/
def Decent {α : Type} [Graded α] : Except Failure α → Prop
  | .ok value => Graded.IsFree value
  | .error failure => failure.isOrdinary

/-- What suspensions and tasks of programs do: no suspension is among the arguments of a call. -/
def Work.IsUsual : Work → Prop
  | .body _ | .pipe .. => True
  | .call _ args => ∀ value ∈ args, value.isSuspension = false
  | .source _ => False

/-- What is not a pipe is usual. -/
theorem Work.IsFree.isUsual {work : Work} (free : work.IsFree) : work.IsUsual := by
  cases work with
  | body | call => exact free
  | pipe | source => cases free

/-- What stages of programs do: no suspension is among the arguments of a call. -/
def Step.IsUsual : Step → Prop
  | .body _ => True
  | .call _ args => ∀ value ∈ args, value.isSuspension = false

namespace Machine

/-- No suspension is stored, is published or is an argument of what waits to be called, each was
resumed at most once, and nothing has failed by using one twice. There are no sources and no
probes. -/
structure Sound (m : Machine) : Prop where
  stores : m.Stores
  backlog (ref : Ref .channel) : ∀ signal ∈ (m.channel ref).backlog, signal.IsFree
  listener (ref : Ref .channel) (probe : Ref .probe) (busy : Bool) :
    (m.channel ref).attachment ≠ .listening (.probe probe) busy
  step (ref : Ref .stage) : (m.stages.get ref).step.IsUsual
  heard {ref : Ref .stage} {result : Result} (h : (m.stages.get ref).result = some result) :
    Decent result
  work {ref : Ref .suspension} {work : Work} (h : (m.suspension ref).work = some work) :
    work.IsUsual
  ready {ref : Ref .task} {work : Work} {input : Option (Ref .channel)}
    (h : (m.task ref).progress = .ready work input) : work.IsUsual
  writing (ref : Ref .task) (source : Source) : (m.task ref).progress ≠ .writing source
  finished {ref : Ref .task} {result : Result} (h : (m.task ref).progress = .finished result) :
    Decent result
  resumed {ref : Ref .task} (has : m.tasks.Has ref) :
    m.suspensions.Has (m.task ref).suspension ∧
      (m.suspension (m.task ref).suspension).phase ≠ .created
  unique {ref other : Ref .task} (has : m.tasks.Has ref) (has' : m.tasks.Has other)
    (same : (m.task ref).suspension = (m.task other).suspension) : ref = other

section Stores

variable {m m' : Machine}

theorem Stores.of_eq (h : m.Stores) (stack : m'.stack = m.stack)
    (holdings : m'.holdings = m.holdings) : m'.Stores := by
  have dictionaries : m'.dictionaries = m.dictionaries := congrArg Prod.fst holdings
  have activations : m'.activations = m.activations := congrArg Prod.snd holdings
  refine ⟨fun ref => ?_, fun found => ?_, fun found => ?_, fun ref => ?_⟩
  · rw [Machine.dictionary, dictionaries]
    exact h.entry ref
  · exact h.stack (stack ▸ found)
  · exact h.cell (activations ▸ found)
  · rw [activations]
    exact h.input ref

/-- A dictionary may change if no suspension comes into it. -/
theorem Stores.setDictionary (h : m.Stores) (ref : Ref .dictionary) {table : Dictionary}
    (free : ∀ entry ∈ table.entries, entry.2.isSuspension = false) :
    Stores { m with dictionaries := m.dictionaries.set ref table } := by
  refine ⟨fun other => ?_, h.stack, h.cell, h.input⟩
  change ∀ entry ∈ ((m.dictionaries.set ref table).get other).entries, _
  rw [Arena.get_set]
  split
  · exact free
  · exact h.entry other

/-- An activation may change if no suspension comes into it. -/
theorem Stores.setActivation (h : m.Stores) (ref : Ref .activation) {activation : Activation}
    (cell : ∀ value ∈ activation.slots, value.isSuspension = false)
    (input : activation.input.isSuspension = false) :
    Stores { m with activations := m.activations.set ref activation } := by
  refine ⟨h.entry, h.stack, fun {other _ _} found => ?_, fun other => ?_⟩
  · rw [Arena.get_set] at found
    split at found
    · exact cell _ (List.mem_of_getElem? found)
    · exact h.cell found
  · rw [Arena.get_set]
    split
    · exact input
    · exact h.input other

/-- A new activation is to have no suspension in its slots. -/
theorem Stores.newActivation (h : m.Stores) {activation : Activation}
    (cell : ∀ value ∈ activation.slots, value.isSuspension = false)
    (input : activation.input.isSuspension = false) :
    Stores { m with activations := m.activations.alloc activation } := by
  refine ⟨h.entry, h.stack, fun {other _ _} found => ?_, fun other => ?_⟩
  · rw [Arena.get_alloc] at found
    split at found
    · exact cell _ (List.mem_of_getElem? found)
    · exact h.cell found
  · rw [Arena.get_alloc]
    split
    · exact input
    · exact h.input other

/-- The slots of an activation are no suspensions. -/
theorem Stores.slots (h : m.Stores) (ref : Ref .activation) :
    ∀ value ∈ (m.activations.get ref).slots, value.isSuspension = false := by
  intro value mem
  obtain ⟨index, found⟩ := List.getElem?_of_mem mem
  exact h.cell found

/-- Nothing new is stored when the body of an activation has been run. -/
theorem Stores.dismount (h : m.Stores) (scene : Ref .scene) (activation : Ref .activation)
    (previous : Option (Ref .activation)) : (m.dismount scene activation previous).Stores := by
  have rested : Stores { m with
      activations := m.activations.set activation (m.activations.get activation).rest } :=
    h.setActivation activation (h.slots activation) (h.input activation)
  exact rested.of_eq rfl rfl

/-- A strict evaluation stores no suspension by itself. -/
theorem Stirs.stores (stirred : m.Stirs True m') (h : m.Stores) : m'.Stores := by
  induction stirred with
  | @aside m m' bearings holdings _ =>
    exact h.of_eq (congrArg Footing.stack (footing_of_bearings bearings)) holdings
  | assign m ref name value free =>
    refine h.setDictionary ref fun entry mem => ?_
    rcases Table.mem_entries_insert mem with rfl | mem
    · exact free trivial
    · exact h.entry ref entry mem
  | dictionary m table slots free _ =>
    refine ⟨fun other => ?_, h.stack, h.cell, h.input⟩
    change ∀ entry ∈ ((m.dictionaries.alloc table).get other).entries, _
    rw [Arena.get_alloc]
    split
    · exact free trivial
    · exact h.entry other
  | @cell m _ ref _ index value free =>
    refine h.setActivation ref (fun other mem => ?_) (h.input ref)
    -- A value in the slots was there before or is the one written.
    rcases List.mem_or_eq_of_mem_set mem with mem | rfl
    · exact h.slots ref other mem
    · exact free trivial
  | define | scene => exact h.of_eq rfl rfl
  | store m place value free =>
    refine ⟨h.entry, fun {other _} found => ?_, h.cell, h.input⟩
    rw [Array.getElem?_setIfInBounds] at found
    split at found
    · split at found
      · cases found
        exact free trivial
      · cases found
    · exact h.stack found
  | trans _ _ first second => exact second (first h)

/-- The slots of a call hold its arguments and nothing else. -/
theorem isSuspension_of_mem_padded {width : Nat} {args : List Value}
    (free : ∀ value ∈ args, value.isSuspension = false) :
    ∀ value ∈ padded width args, value.isSuspension = false := by
  intro value mem
  rcases List.mem_append.1 (List.mem_of_mem_take mem) with mem | mem
  · exact free value mem
  · rw [(List.mem_replicate.1 mem).2]
    rfl

theorem Stores.onStack (h : m.Stores) : ∀ value ∈ m.stack.toList, value.isSuspension = false := by
  intro value mem
  obtain ⟨place, found⟩ := List.getElem?_of_mem mem
  rw [Array.getElem?_toList] at found
  exact h.stack found

theorem Stores.enter (h : m.Stores) (ref : Ref .frame) {args : List Value}
    (free : ∀ value ∈ args, value.isSuspension = false) : (m.enter ref args).Stores := by
  refine ⟨h.entry, fun {place _} found => ?_, h.cell, h.input⟩
  change (m.stack ++ padded (m.width ref) args)[place]? = _ at found
  rw [← Array.getElem?_toList, Array.toList_appendList] at found
  rcases List.mem_append.1 (List.mem_of_getElem? found) with mem | mem
  · exact h.onStack _ mem
  · exact isSuspension_of_mem_padded free _ mem

theorem Stores.leave (h : m.Stores) : m.leave.Stores := by
  unfold Machine.leave
  cases m.calls with
  | nil => exact h
  | cons call calls =>
    refine ⟨h.entry, fun {place _} found => ?_, h.cell, h.input⟩
    change (m.stack.shrink call.start)[place]? = _ at found
    rw [← Array.getElem?_toList, Array.toList_shrink] at found
    exact h.onStack _ (List.mem_of_mem_take (List.mem_of_getElem? found))

end Stores

namespace Sound

variable {m m' : Machine}

/-- What concerns neither signals nor tasks leaves a machine sound if it stores no suspension. -/
theorem of_stores (sound : m.Sound) (stores : m'.Stores) (plumbing : m'.plumbing = m.plumbing) :
    m'.Sound := by
  have channels : m'.channels = m.channels := congrArg Plumbing.channels plumbing
  have stages : m'.stages = m.stages := congrArg Plumbing.stages plumbing
  have suspensions : m'.suspensions = m.suspensions := congrArg Plumbing.suspensions plumbing
  have tasks : m'.tasks = m.tasks := congrArg Plumbing.tasks plumbing
  refine ⟨stores, fun ref => ?_, fun ref => ?_, fun ref => ?_, fun heard => ?_, fun pending => ?_,
    fun ready => ?_, fun ref => ?_, fun finished => ?_, fun has => ?_, fun has has' same => ?_⟩
  · rw [channel, channels]
    exact sound.backlog ref
  · rw [channel, channels]
    exact sound.listener ref
  · rw [stages]
    exact sound.step ref
  · exact sound.heard (stages ▸ heard)
  · rw [suspension, suspensions] at pending
    exact sound.work pending
  · rw [task, tasks] at ready
    exact sound.ready ready
  · rw [task, tasks]
    exact sound.writing ref
  · rw [task, tasks] at finished
    exact sound.finished finished
  · rw [tasks] at has
    simpa only [suspension, suspensions, task, tasks] using sound.resumed has
  · rw [tasks] at has has'
    rw [task, task, tasks] at same
    exact sound.unique has has' same

/-- What evaluation does by itself leaves a machine sound. -/
theorem stirs (sound : m.Sound) (stirred : m.Stirs True m') : m'.Sound :=
  sound.of_stores (stirred.stores sound.stores) stirred.plumbing_eq

/-- A channel may change if no suspension is published by that and no probe comes to listen. -/
theorem setChannel (sound : m.Sound) (ref : Ref .channel) {channel : Channel}
    (backlog : ∀ signal ∈ channel.backlog, signal.IsFree)
    (listener : ∀ probe busy, channel.attachment ≠ .listening (.probe probe) busy) :
    (m.setChannel ref channel).Sound where
  stores := sound.stores.of_eq rfl rfl
  backlog other := by
    rw [channel_setChannel]
    split
    · exact backlog
    · exact sound.backlog other
  listener other := by
    rw [channel_setChannel]
    split
    · exact listener
    · exact sound.listener other
  step := sound.step
  heard := sound.heard
  work := sound.work
  ready := sound.ready
  writing := sound.writing
  finished := sound.finished
  resumed := sound.resumed
  unique := sound.unique

/-- A new channel has no signals. -/
theorem newChannel (sound : m.Sound) : m.newChannel.2.Sound where
  stores := sound.stores.of_eq rfl rfl
  backlog other := by
    change ∀ signal ∈ ((m.channels.alloc .fresh).get other).backlog, _
    rw [Arena.get_alloc]
    split
    · nofun
    · exact sound.backlog other
  listener other := by
    change ∀ probe busy, ((m.channels.alloc .fresh).get other).attachment ≠ _
    rw [Arena.get_alloc]
    split
    · nofun
    · exact sound.listener other
  step := sound.step
  heard := sound.heard
  work := sound.work
  ready := sound.ready
  writing := sound.writing
  finished := sound.finished
  resumed := sound.resumed
  unique := sound.unique

/-- A new suspension is to do what is usual. -/
theorem newSuspension (sound : m.Sound) {suspension : Suspension}
    (usual : ∀ work, suspension.work = some work → work.IsUsual) :
    (m.newSuspension suspension).2.Sound where
  stores := sound.stores.of_eq rfl rfl
  backlog := sound.backlog
  listener := sound.listener
  step := sound.step
  heard := sound.heard
  work {ref work} pending := by
    change ((m.suspensions.alloc suspension).get ref).work = _ at pending
    rw [Arena.get_alloc] at pending
    split at pending
    · exact usual work pending
    · exact sound.work pending
  ready := sound.ready
  writing := sound.writing
  finished := sound.finished
  resumed {ref} has := by
    obtain ⟨origin, started⟩ := sound.resumed has
    have same : (m.suspensions.alloc suspension).get (m.task ref).suspension =
        m.suspension (m.task ref).suspension := (Arena.get_alloc ..).trans (if_neg origin.ne_next)
    exact ⟨origin.alloc _, fun created => started ((congrArg _ same).symm.trans created)⟩
  unique := sound.unique

/-- What was resumed may change as long as it does no other work. -/
theorem setSuspension (sound : m.Sound) (ref : Ref .suspension) {suspension : Suspension}
    (usual : ∀ work, suspension.work = some work → work.IsUsual)
    (started : suspension.phase ≠ .created) :
    Sound { m with suspensions := m.suspensions.set ref suspension } where
  stores := sound.stores.of_eq rfl rfl
  backlog := sound.backlog
  listener := sound.listener
  step := sound.step
  heard := sound.heard
  work {other work} pending := by
    change ((m.suspensions.set ref suspension).get other).work = _ at pending
    rw [Arena.get_set] at pending
    split at pending
    · exact usual work pending
    · exact sound.work pending
  ready := sound.ready
  writing := sound.writing
  finished := sound.finished
  resumed {task} has := by
    obtain ⟨origin, resumed⟩ := sound.resumed has
    refine ⟨origin.set _ _, ?_⟩
    change ((m.suspensions.set ref suspension).get (m.task task).suspension).phase ≠ .created
    rw [Arena.get_set]
    split
    · exact started
    · exact resumed
  unique := sound.unique

/-- The work of a suspension that was not resumed can be handed to a task. -/
theorem startTask (sound : m.Sound) {ref : Ref .suspension} {work : Work}
    (created : (m.suspension ref).phase = .created)
    (pending : (m.suspension ref).work = some work) (input : Option (Ref .channel)) :
    (m.startTask ref work input).2.Sound := by
  have resumed : Sound { m with
      suspensions :=
        m.suspensions.set ref { m.suspension ref with phase := .resuming, work := none } } :=
    sound.setSuspension ref nofun nofun
  have has := has_of_created created
  -- Nobody else was started from a suspension that was not resumed.
  have other_origin {other : Ref .task} (has : m.tasks.Has other) :
      (m.task other).suspension ≠ ref :=
    fun same => (sound.resumed has).2 (same ▸ created)
  have task (other : Ref .task) : (m.startTask ref work input).2.task other =
      if other = m.tasks.next then ⟨ref, (m.suspension ref).out, .ready work input, ⟨work, input⟩⟩
      else m.task other := Arena.get_alloc ..
  refine ⟨sound.stores.of_eq rfl rfl, sound.backlog, sound.listener, sound.step, sound.heard,
    resumed.work, fun {other _ _} ready => ?_, fun other source => ?_, fun {other _} finished => ?_,
    fun {other} new => ?_, fun {first second} hasFirst hasSecond same => ?_⟩
  · rw [task] at ready
    split at ready
    · cases ready
      exact sound.work pending
    · exact sound.ready ready
  · rw [task]
    split
    · nofun
    · exact sound.writing other source
  · rw [task] at finished
    split at finished
    · cases finished
    · exact sound.finished finished
  · rw [task]
    split
    · refine ⟨has.set _ _, ?_⟩
      change ((m.suspensions.set ref _).get ref).phase ≠ _
      rw [Arena.get_set, if_pos rfl]
      nofun
    · next old => exact resumed.resumed (Arena.has_of_alloc new old)
  · rw [task, task] at same
    split at same
    · next new =>
      split at same
      · next new' => rw [new, new']
      · next old => exact absurd same.symm (other_origin (Arena.has_of_alloc hasSecond old))
    · next old =>
      split at same
      · exact absurd same (other_origin (Arena.has_of_alloc hasFirst old))
      · next old' =>
        exact sound.unique (Arena.has_of_alloc hasFirst old)
          (Arena.has_of_alloc hasSecond old') same

/-- A task may go on, and end with a result that is no failure of using a suspension twice. -/
theorem setTask (sound : m.Sound) {ref : Ref .task} (has : m.tasks.Has ref) {task : TaskState}
    (origin : task.suspension = (m.task ref).suspension)
    (ready : ∀ work input, task.progress = .ready work input → work.IsUsual)
    (writing : ∀ source, task.progress ≠ .writing source)
    (finished : ∀ result, task.progress = .finished result → Decent result) :
    Sound { m with tasks := m.tasks.set ref task } := by
  have cell (other : Ref .task) : (m.tasks.set ref task).get other =
      if other = ref then task else m.task other := Arena.get_set ..
  -- No task changes the suspension it came from, on which the last two facts rest.
  have kept (other : Ref .task) :
      ((m.tasks.set ref task).get other).suspension = (m.task other).suspension := by
    rw [cell]
    split
    · next same => rw [same, origin]
    · rfl
  refine ⟨sound.stores.of_eq rfl rfl, sound.backlog, sound.listener, sound.step, sound.heard,
    sound.work, fun {other work input} h => ?_, fun other source h => ?_,
    fun {other result} h => ?_,
    fun {other} new => ?_, fun {first second} hasFirst hasSecond same => ?_⟩
  · change ((m.tasks.set ref task).get other).progress = _ at h
    rw [cell] at h
    split at h
    · exact ready work input h
    · exact sound.ready h
  · change ((m.tasks.set ref task).get other).progress = _ at h
    rw [cell] at h
    split at h
    · exact writing source h
    · exact sound.writing other source h
  · change ((m.tasks.set ref task).get other).progress = _ at h
    rw [cell] at h
    split at h
    · exact finished result h
    · exact sound.finished h
  · change m.suspensions.Has ((m.tasks.set ref task).get other).suspension ∧
      (m.suspension ((m.tasks.set ref task).get other).suspension).phase ≠ .created
    rw [kept]
    exact sound.resumed (Arena.has_of_set has new)
  · change ((m.tasks.set ref task).get first).suspension =
      ((m.tasks.set ref task).get second).suspension at same
    rw [kept, kept] at same
    exact sound.unique (Arena.has_of_set has hasFirst) (Arena.has_of_set has hasSecond) same

/-- A new stage is to do what is usual. -/
theorem addStage (sound : m.Sound) {stage : Stage} (usual : stage.step.IsUsual)
    (new : stage.result = none) : (m.addStage stage).Sound := by
  have cell (ref : Ref .stage) : (m.stages.alloc stage).get ref =
      if ref = m.stages.next then stage else m.stages.get ref := Arena.get_alloc ..
  refine ⟨sound.stores.of_eq rfl rfl, sound.backlog, sound.listener, fun ref => ?_,
    fun {ref _} heard => ?_, sound.work, sound.ready, sound.writing, sound.finished, sound.resumed,
    sound.unique⟩
  · change ((m.stages.alloc stage).get ref).step.IsUsual
    rw [cell]
    split
    · exact usual
    · exact sound.step ref
  · change ((m.stages.alloc stage).get ref).result = _ at heard
    rw [cell] at heard
    split at heard
    · rw [new] at heard
      cases heard
    · exact sound.heard heard

/-- A stage may get a result that is no failure of using a suspension twice. -/
theorem setStage (sound : m.Sound) (ref : Ref .stage) {result : Result} (decent : Decent result) :
    Sound
      { m with stages := m.stages.set ref { m.stages.get ref with result := some result } } := by
  have cell (other : Ref .stage) :
      (m.stages.set ref { m.stages.get ref with result := some result }).get other =
        if other = ref then { m.stages.get ref with result := some result }
        else m.stages.get other := Arena.get_set ..
  refine ⟨sound.stores.of_eq rfl rfl, sound.backlog, sound.listener, fun other => ?_,
    fun {other _} heard => ?_, sound.work, sound.ready, sound.writing, sound.finished,
    sound.resumed, sound.unique⟩
  · change ((m.stages.set ref _).get other).step.IsUsual
    rw [cell]
    split
    · exact sound.step ref
    · exact sound.step other
  · change ((m.stages.set ref _).get other).result = _ at heard
    rw [cell] at heard
    split at heard
    · cases heard
      exact decent
    · exact sound.heard heard

end Sound

end Machine

end Wordstream
