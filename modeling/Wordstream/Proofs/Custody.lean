import Wordstream.Proofs.Conduct

/-!
# Who ends a channel

A channel that the host leaves alone is ended by one party at most: by the suspension or the task
whose output it is as long as that has not begun to write, by the stage that works for the task,
or by the channel that is relayed to it. Evaluation writes values and never ends a channel by
itself, so whatever runs, such a channel has an ending exactly when its party has come to an end,
and the ending says how.

A stage is in the middle of something while the channel that it listens to is busy. It tells its
output that it has ended before it has a result, so the two agree only when it is at ease.

## Main results

* `Machine.Guarded.setChannel`, `Machine.Guarded.attach` — writing to a channel and listening to
  it keep guard
* `Machine.Guarded.reassign` — so does a change of the parties
-/

namespace Wordstream

/-! ## Channels -/

namespace Channel

/-- The listener of a channel, if it has one. -/
def listener? (channel : Channel) : Option Listener :=
  match channel.attachment with
  | .buffering => none
  | .listening listener _ => some listener

/-- Whether the listener of a channel is busy with a signal. -/
def isBusy (channel : Channel) : Bool :=
  match channel.attachment with
  | .buffering => false
  | .listening _ busy => busy

variable {channel channel' : Channel} {listener : Listener} {signal : Signal}

@[simp]
theorem listener?_accept : (channel.accept signal).listener? = channel.listener? := by
  simp [listener?]

@[simp]
theorem isBusy_accept : (channel.accept signal).isBusy = channel.isBusy := by
  simp [isBusy]

@[simp]
theorem abandoned_accept : (channel.accept signal).abandoned = channel.abandoned := by
  unfold accept
  split <;> rfl

/-- An ending stays. -/
theorem ending_accept_of_some {sig : Signal} (ended : channel.ending = some sig) :
    channel.accept signal = channel := by
  simp [accept, terminated, ended]

theorem ending_accept_of_none (still_open : channel.ending = none) :
    (channel.accept signal).ending = if signal.isTerminal then some signal else none := by
  simp [accept, terminated, still_open]

theorem mem_accept {sig : Signal} (mem : sig ∈ (channel.accept signal).backlog) :
    sig ∈ channel.backlog ∨ channel.ending = none ∧ sig = signal := by
  unfold accept at mem
  split at mem
  · exact .inl mem
  · next still_open =>
    simp only [List.mem_append, List.mem_singleton] at mem
    exact mem.imp_right fun same => ⟨by simpa [terminated] using still_open, same⟩

@[simp]
theorem listener?_release : channel.release.listener? = channel.listener? := by
  unfold release listener?
  cases attached : channel.attachment <;> simp [attached]

@[simp]
theorem isBusy_release : channel.release.isBusy = false := by
  unfold release isBusy
  cases attached : channel.attachment <;> simp [attached]

@[simp]
theorem ending_release : channel.release.ending = channel.ending := by
  unfold release
  split <;> rfl

@[simp]
theorem backlog_release : channel.release.backlog = channel.backlog := by
  unfold release
  split <;> rfl

@[simp]
theorem abandoned_release : channel.release.abandoned = channel.abandoned := by
  unfold release
  split <;> rfl

/-- Who is to be handed a signal at once is free. -/
theorem isBusy_of_mustDeliver (due : channel.mustDeliver) : channel.isBusy = false := by
  simp only [mustDeliver, Bool.and_eq_true] at due
  unfold isBusy
  cases attached : channel.attachment with
  | buffering => rfl
  | listening listener busy => cases busy <;> simp_all [isIdle]

/-- Who is free already is set free without a change. -/
theorem release_of_free (free : channel.isBusy = false) : channel.release = channel := by
  obtain ⟨backlog, attachment, ending, abandoned⟩ := channel
  unfold isBusy at free
  unfold release
  cases attachment with
  | buffering => rfl
  | listening listener busy =>
    cases free
    rfl

/-- It makes no difference whether who listens is set free before or after a signal is accepted. -/
theorem accept_release : channel.release.accept signal = (channel.accept signal).release := by
  obtain ⟨backlog, attachment, ending, abandoned⟩ := channel
  cases attachment <;> cases ending <;> rfl

/-- Who is attached is the first. -/
theorem of_attach? (h : channel.attach? listener = some channel') :
    channel.listener? = none ∧
      channel' = { channel with attachment := .listening listener false } := by
  unfold attach? at h
  unfold listener?
  cases attached : channel.attachment with
  | buffering =>
    rw [attached] at h
    exact ⟨rfl, (Option.some.inj h).symm⟩
  | listening =>
    rw [attached] at h
    cases h

/-- What is handed over has waited longest. -/
theorem of_take? (h : channel.take? = some (listener, signal, channel')) :
    channel.listener? = some listener ∧ ∃ rest, channel.backlog = signal :: rest ∧
      channel' = { channel with backlog := rest, attachment := .listening listener true } := by
  unfold take? at h
  unfold listener?
  split at h
  · next attached waiting =>
    cases h
    rw [attached]
    exact ⟨rfl, _, waiting, rfl⟩
  · cases h

end Channel

/-! ## Pipes -/

namespace Machine

/-- Suspensions stay, with their outputs, and take input or not as they did; one that is not
resumed has the work that it had. -/
def KeepsWork (m m' : Machine) : Prop :=
  ∀ ref, m.suspensions.Has ref → m'.suspensions.Has ref ∧
    (m'.suspension ref).out = (m.suspension ref).out ∧
    (m'.suspension ref).acceptsInput = (m.suspension ref).acceptsInput ∧
    ((m'.suspension ref).phase = .created →
      (m.suspension ref).phase = .created ∧ (m'.suspension ref).work = (m.suspension ref).work)

namespace KeepsWork

variable {m m' m'' : Machine}

theorem of_eq (same : m'.suspensions = m.suspensions) : m.KeepsWork m' := fun ref has => by
  rw [suspension, same]
  exact ⟨has, rfl, rfl, fun created => ⟨created, rfl⟩⟩

theorem trans (first : m.KeepsWork m') (second : m'.KeepsWork m'') :
    m.KeepsWork m'' := fun ref has => by
  obtain ⟨has, out, accepts, created⟩ := first ref has
  obtain ⟨has', out', accepts', created'⟩ := second ref has
  refine ⟨has', out'.trans out, accepts'.trans accepts, fun still => ?_⟩
  obtain ⟨before, work⟩ := created' still
  exact ⟨(created before).1, work.trans (created before).2⟩

/-- A suspension that is not new any more is overwritten. -/
theorem of_set {ref : Ref .suspension} {suspension : Suspension}
    (same : m'.suspensions = m.suspensions.set ref suspension)
    (out : suspension.out = (m.suspension ref).out)
    (accepts : suspension.acceptsInput = (m.suspension ref).acceptsInput)
    (resumed : suspension.phase ≠ .created) : m.KeepsWork m' := fun other has => by
  rw [Machine.suspension, same, Arena.get_set]
  refine ⟨has.set ref suspension, ?_⟩
  split
  · next at_ref =>
      exact ⟨by rw [at_ref, out], by rw [at_ref, accepts], fun created => absurd created resumed⟩
  · exact ⟨rfl, rfl, fun created => ⟨created, rfl⟩⟩

/-- There is a suspension more. -/
theorem of_alloc {suspension : Suspension}
    (same : m'.suspensions = m.suspensions.alloc suspension) : m.KeepsWork m' := fun ref has => by
  rw [Machine.suspension, same, Arena.get_alloc, if_neg has.ne_next]
  exact ⟨has.alloc suspension, rfl, rfl, fun created => ⟨created, rfl⟩⟩

end KeepsWork

/-- A pipe is laid from one suspension to another: the left output is relayed, and the right one
is the output of the pipe. The pipe is fed with an input only if its left side takes it. -/
structure Laid (m : Machine) (left right : Ref .suspension) (relay out : Ref .channel)
    (fed : Bool) : Prop where
  hasLeft : m.suspensions.Has left
  hasRight : m.suspensions.Has right
  out : (m.suspension right).out = out
  fed : fed → (m.suspension left).acceptsInput
  takes : (m.suspension right).acceptsInput
  relays : (m.channel (m.suspension left).out).listener? = some (.forward relay)

/-- A pipe stays where it is laid. -/
theorem Laid.mono {m m' : Machine} {left right : Ref .suspension} {relay out : Ref .channel}
    {fed : Bool} (h : m.Laid left right relay out fed) (keeps : m.KeepsWork m')
    (listener : ∀ {x listener}, (m.channel x).listener? = some listener →
      (m'.channel x).listener? = some listener) : m'.Laid left right relay out fed := by
  obtain ⟨has_left, out_left, accepts, _⟩ := keeps left h.hasLeft
  obtain ⟨has_right, out_right, takes, _⟩ := keeps right h.hasRight
  refine ⟨has_left, has_right, out_right.trans h.out, fun given => accepts.trans (h.fed given),
    takes.trans h.takes, ?_⟩
  rw [out_left]
  exact listener h.relays

/-- The suspensions and the tasks that are pipes are laid. -/
structure Plumbed (m : Machine) : Prop where
  suspension {ref left right : Ref .suspension} {relay : Ref .channel}
    (created : (m.suspension ref).phase = .created)
    (pending : (m.suspension ref).work = some (.pipe left right relay)) :
    m.Laid left right relay (m.suspension ref).out (m.suspension ref).acceptsInput
  task {task : Ref .task} {left right : Ref .suspension} {relay : Ref .channel}
    (pipes : (m.task task).errand.work = .pipe left right relay) :
    m.Laid left right relay (m.task task).out (m.task task).errand.input.isSome

/-- Pipes stay where they are laid, and new ones are laid. -/
theorem Plumbed.mono {m m' : Machine} (h : m.Plumbed) (keeps : m.KeepsWork m')
    (listener : ∀ {x listener}, (m.channel x).listener? = some listener →
      (m'.channel x).listener? = some listener)
    (suspension : ∀ ref, (m'.suspension ref).phase = .created →
      m'.suspension ref = m.suspension ref ∨
      ∀ left right relay, (m'.suspension ref).work = some (.pipe left right relay) →
        m'.Laid left right relay (m'.suspension ref).out (m'.suspension ref).acceptsInput)
    (task : ∀ task, (m'.task task).errand = (m.task task).errand ∧
      (m'.task task).out = (m.task task).out ∨
      ∀ left right relay, (m'.task task).errand.work = .pipe left right relay →
        m'.Laid left right relay (m'.task task).out (m'.task task).errand.input.isSome) :
        m'.Plumbed where
  suspension {ref _ _ _} created pending := by
    rcases suspension ref created with same | laid
    · rw [same] at created pending ⊢
      exact (h.suspension created pending).mono keeps listener
    · exact laid _ _ _ pending
  task {other _ _ _} pipes := by
    rcases task other with ⟨errand, out⟩ | laid
    · rw [errand] at pipes ⊢
      rw [out]
      exact (h.task pipes).mono keeps listener
    · exact laid _ _ _ pipes

/-- What is done concerns neither suspensions nor tasks, and listeners stay. -/
theorem Plumbed.of_same {m m' : Machine} (h : m.Plumbed)
    (suspensions : m'.suspensions = m.suspensions) (tasks : m'.tasks = m.tasks)
    (listener : ∀ {x listener}, (m.channel x).listener? = some listener →
      (m'.channel x).listener? = some listener) : m'.Plumbed := by
  refine h.mono (.of_eq suspensions) listener (fun ref _ => .inl ?_) fun task => .inl ?_
  · rw [Machine.suspension, suspensions]
    rfl
  · rw [Machine.task, tasks]
    exact ⟨rfl, rfl⟩

/-- A suspension that is resumed hands its pipe over to its task. -/
theorem Plumbed.startTask {m : Machine} (h : m.Plumbed) {ref : Ref .suspension} {work : Work}
    {input : Option (Ref .channel)} (created : (m.suspension ref).phase = .created)
    (pending : (m.suspension ref).work = some work)
    (accepts : input.isSome → (m.suspension ref).acceptsInput) :
    (m.startTask ref work input).2.Plumbed := by
  have keeps : m.KeepsWork (m.startTask ref work input).2 := .of_set rfl rfl rfl Phase.noConfusion
  refine h.mono keeps id (fun other still => .inl ?_) fun task => ?_
  · change ((m.suspensions.set ref _).get other).phase = _ at still
    change (m.suspensions.set ref _).get other = _
    rw [Arena.get_set] at still ⊢
    split at still
    · cases still
    · next apart =>
      rw [if_neg apart]
      rfl
  · have task_eq : (m.startTask ref work input).2.task task = if task = m.tasks.next then
        ⟨ref, (m.suspension ref).out, .ready work input, ⟨work, input⟩⟩ else m.task task :=
          Arena.get_alloc ..
    rw [task_eq]
    split
    · -- The new task has the pipe of its suspension, which was laid.
      refine .inr fun left right relay pipes => ?_
      have laid := h.suspension created (pending.trans (congrArg some pipes))
      exact Laid.mono ⟨laid.hasLeft, laid.hasRight, laid.out, fun fed => laid.fed (accepts fed),
        laid.takes, laid.relays⟩ keeps id
    · exact .inl ⟨rfl, rfl⟩

end Machine

/-! ## Parties -/

/-- Whether work itself ends the output of its suspension; a pipe leaves that to its right side. -/
def Work.tells : Work → Bool
  | .pipe .. => false
  | _ => true

/-- Whether a task has its output still to end by itself. -/
def Progress.tells : Progress → Bool
  | .ready work _ => work.tells
  | .writing _ => true
  | _ => false

/-- A party that may end a channel. -/
inductive Ender where
  | suspension (ref : Ref .suspension)
  | task (ref : Ref .task)
  | stage (ref : Ref .stage)
  | channel (ref : Ref .channel)

/-- Whether a party ends nothing as long as it is one. -/
def Ender.isEarly : Ender → Bool
  | suspension _ | task _ => true
  | stage _ | channel _ => false

namespace Machine

/-- Who may end a channel: a suspension and a task that is to write to it, a stage that writes to
it, a channel that is relayed to it. One task may be past that, because it is ending the channel
just now or has just made its stage. -/
def Ends (m : Machine) (past : Option (Ref .task)) (out : Ref .channel) : Ender → Prop
  | .suspension ref => (m.suspension ref).phase = .created ∧ (m.suspension ref).out = out ∧
      (m.suspension ref).work.any Work.tells
  | .task ref => past ≠ some ref ∧ (m.task ref).out = out ∧ (m.task ref).progress.tells
  | .stage ref => m.stages.Has ref ∧ (m.stages.get ref).out = out
  | .channel ref => (m.channel ref).listener? = some (.forward out)

/-- A party whose part of the machine is as it was has been one before. -/
theorem Ends.of_same {m m' : Machine} {past : Option (Ref .task)} {out : Ref .channel}
    {ender : Ender} (h : m'.Ends past out ender)
    (suspension : ∀ ref, ender = .suspension ref → m'.suspension ref = m.suspension ref)
    (task : ∀ ref, ender = .task ref → m'.task ref = m.task ref) (stages : m'.stages = m.stages)
    (channel : ∀ x, m'.channel x = m.channel x) : m.Ends past out ender := by
  cases ender with
  | suspension ref =>
    change (m'.suspension ref).phase = _ ∧ (m'.suspension ref).out = _ ∧
      (m'.suspension ref).work.any _ at h
    rwa [suspension ref rfl] at h
  | task ref =>
    change _ ∧ (m'.task ref).out = _ ∧ (m'.task ref).progress.tells at h
    rwa [task ref rfl] at h
  | stage ref =>
    change m'.stages.Has ref ∧ (m'.stages.get ref).out = _ at h
    rwa [stages] at h
  | channel x =>
    change (m'.channel x).listener? = _ at h
    rwa [channel] at h

/-- Who is a party although some task is past that is one anyway. -/
theorem Ends.unpass {m : Machine} {task : Ref .task} {out : Ref .channel} {ender : Ender}
    (h : m.Ends (some task) out ender) : m.Ends none out ender := by
  cases ender with
  | task ref => exact ⟨by simp, h.2⟩
  | _ => exact h

/-- A stage is in the middle of something. -/
def Engaged (m : Machine) (stage : Ref .stage) : Prop :=
  ∃ x, (m.channel x).listener? = some (.stage stage) ∧ (m.channel x).isBusy

/-- No stage can be entered by a channel that is busy. -/
def Shielded (m : Machine) (stage : Ref .stage) : Prop :=
  ∀ x, (m.channel x).listener? = some (.stage stage) → (m.channel x).isBusy

/-- A stage and its output agree on how the stage has ended. -/
def AtEase (m : Machine) (stage : Ref .stage) : Prop :=
  (m.channel (m.stages.get stage).out).ending = (m.stages.get stage).result.map .ofResult

/-- Every channel of some has at most one party that may end it, and its ending fits: it has none
before its party has begun, that of a stage is the result of the stage, and one that is relayed is
that of the channel it comes from. -/
structure Guarded (own : Ref .channel → Prop) (past : Option (Ref .task)) (m : Machine) : Prop where
  has {out : Ref .channel} {ender : Ender} (owned : own out) (ends : m.Ends past out ender) :
    m.channels.Has out
  unique {out : Ref .channel} {ender other : Ender} (owned : own out) (ends : m.Ends past out ender)
    (ends' : m.Ends past out other) : ender = other
  silent {out : Ref .channel} {ender : Ender} (owned : own out) (ends : m.Ends past out ender)
    (early : ender.isEarly) : (m.channel out).ending = none
  atEase {stage : Ref .stage} (has : m.stages.Has stage) (owned : own (m.stages.get stage).out)
    (free : ¬ m.Engaged stage) : m.AtEase stage
  relayed {x out : Ref .channel} {signal : Signal} (owned : own out)
    (relays : (m.channel x).listener? = some (.forward out))
    (ended : (m.channel out).ending = some signal) : (m.channel x).ending = some signal
  waits {x : Ref .channel} {signal : Signal} (mem : signal ∈ (m.channel x).backlog)
    (terminal : signal.isTerminal) : (m.channel x).ending = some signal
  single {x y : Ref .channel} {stage : Ref .stage}
    (hears : (m.channel x).listener? = some (.stage stage))
    (hears' : (m.channel y).listener? = some (.stage stage)) : x = y
  stage {x : Ref .channel} {stage : Ref .stage}
    (hears : (m.channel x).listener? = some (.stage stage)) : m.stages.Has stage
  completed {x : Ref .channel} {stage : Ref .stage}
    (hears : (m.channel x).listener? = some (.stage stage))
    (done : (m.stages.get stage).result = some (.ok ())) : (m.channel x).ending = some .complete
  probe {x : Ref .channel} {probe : Ref .probe}
    (hears : (m.channel x).listener? = some (.probe probe)) : ¬ own (m.probes.get probe).channel
  plumbed : m.Plumbed

/-- Listeners and endings stay, and who is busy is busy again in the end. A stage that nothing can
enter is as it was, and so is the ending of its output. -/
structure Honours (own : Ref .channel → Prop) (m m' : Machine) : Prop where
  listener {x : Ref .channel} {listener : Listener}
    (hears : (m.channel x).listener? = some listener) : (m'.channel x).listener? = some listener
  ending {x : Ref .channel} {signal : Signal} (ended : (m.channel x).ending = some signal) :
    (m'.channel x).ending = some signal
  busy (x : Ref .channel) : (m'.channel x).isBusy = (m.channel x).isBusy
  abandoned {x : Ref .channel} (lost : (m.channel x).abandoned) : (m'.channel x).abandoned
  attached {x : Ref .channel} {stage : Ref .stage} (has : m.stages.Has stage)
    (hears : (m'.channel x).listener? = some (.stage stage)) :
    (m.channel x).listener? = some (.stage stage)
  stage {stage : Ref .stage} (has : m.stages.Has stage) :
    m'.stages.Has stage ∧ (m'.stages.get stage).out = (m.stages.get stage).out
  shielded {stage : Ref .stage} (has : m.stages.Has stage) (shielded : m.Shielded stage) :
    m'.stages.get stage = m.stages.get stage ∧ (own (m.stages.get stage).out →
      (m'.channel (m.stages.get stage).out).ending = (m.channel (m.stages.get stage).out).ending)
  probe {probe : Ref .probe} (foreign : ¬ own (m.probes.get probe).channel) :
    ¬ own (m'.probes.get probe).channel
  keeps : m.KeepsWork m'

namespace Honours

variable {own : Ref .channel → Prop} {m m' m'' : Machine}

theorem refl (own : Ref .channel → Prop) (m : Machine) : m.Honours own m where
  listener hears := hears
  ending ended := ended
  busy _ := rfl
  abandoned lost := lost
  attached _ hears := hears
  stage has := ⟨has, rfl⟩
  shielded _ _ := ⟨rfl, fun _ => rfl⟩
  probe foreign := foreign
  keeps := .of_eq rfl

/-- A stage that nothing can enter cannot be entered later either. -/
theorem still_shielded (h : m.Honours own m') {stage : Ref .stage} (has : m.stages.Has stage)
    (shielded : m.Shielded stage) : m'.Shielded stage := fun x hears => by
  rw [h.busy]
  exact shielded x (h.attached has hears)

theorem trans (first : m.Honours own m') (second : m'.Honours own m'') : m.Honours own m'' where
  listener hears := second.listener (first.listener hears)
  ending ended := second.ending (first.ending ended)
  busy x := (second.busy x).trans (first.busy x)
  abandoned lost := second.abandoned (first.abandoned lost)
  attached has hears := first.attached has (second.attached (first.stage has).1 hears)
  stage has := ⟨(second.stage (first.stage has).1).1,
    (second.stage (first.stage has).1).2.trans (first.stage has).2⟩
  shielded has shielded := by
    obtain ⟨same, ending⟩ := first.shielded has shielded
    obtain ⟨same', ending'⟩ :=
      second.shielded (first.stage has).1 (first.still_shielded has shielded)
    rw [same] at same' ending'
    exact ⟨same', fun owned => (ending' owned).trans (ending owned)⟩
  probe foreign := second.probe (first.probe foreign)
  keeps := first.keeps.trans second.keeps

/-- Nothing is done to channels and stages, and no probe gets to an owned channel. -/
theorem of_same (channel : ∀ x, m'.channel x = m.channel x)
    (stages : ∀ {stage}, m.stages.Has stage →
      m'.stages.Has stage ∧ m'.stages.get stage = m.stages.get stage)
    (probe : ∀ {p}, ¬ own (m.probes.get p).channel → ¬ own (m'.probes.get p).channel)
    (keeps : m.KeepsWork m') : m.Honours own m' where
  listener hears := by rwa [channel]
  ending ended := by rwa [channel]
  busy x := by rw [channel]
  abandoned lost := by rwa [channel]
  attached _ hears := by rwa [channel] at hears
  stage has := ⟨(stages has).1, by rw [(stages has).2]⟩
  shielded has _ := ⟨(stages has).2, fun _ => by rw [channel]⟩
  probe := probe
  keeps := keeps

/-- A channel is written to: its listener stays, and so does an ending. -/
theorem setChannel {c : Ref .channel} {channel : Channel}
    (listener : ∀ listener, (m.channel c).listener? = some listener →
      channel.listener? = some listener)
    (attached : ∀ stage, m.stages.Has stage → channel.listener? = some (.stage stage) →
      (m.channel c).listener? = some (.stage stage))
    (busy : channel.isBusy = (m.channel c).isBusy)
    (abandoned : (m.channel c).abandoned → channel.abandoned)
    (ending : ∀ signal, (m.channel c).ending = some signal → channel.ending = some signal)
    (apart : channel.ending ≠ (m.channel c).ending → ∀ stage, m.stages.Has stage →
      m.Shielded stage → own (m.stages.get stage).out → (m.stages.get stage).out ≠ c) :
    m.Honours own (m.setChannel c channel) where
  listener {x _} hears := by
    rw [channel_setChannel]
    split
    · next at_c => exact listener _ (at_c ▸ hears)
    · exact hears
  ending {x _} ended := by
    rw [channel_setChannel]
    split
    · next at_c => exact ending _ (at_c ▸ ended)
    · exact ended
  busy x := by
    rw [channel_setChannel]
    split
    · next at_c => rw [at_c, busy]
    · rfl
  abandoned {x} lost := by
    rw [channel_setChannel]
    split
    · next at_c => exact abandoned (at_c ▸ lost)
    · exact lost
  attached {x _} has hears := by
    rw [channel_setChannel] at hears
    split at hears
    · next at_c => exact at_c ▸ attached _ has hears
    · exact hears
  stage has := ⟨has, rfl⟩
  shielded {stage} has shielded := by
    refine ⟨rfl, fun owned => ?_⟩
    rw [channel_setChannel]
    split
    · next at_c =>
      rw [at_c]
      -- The output of a shielded stage is not where an ending comes to be.
      exact Classical.byContradiction fun changed => apart changed stage has shielded owned at_c
    · rfl
  probe foreign := foreign
  keeps := .of_eq rfl

end Honours

/-- There is a channel more. -/
theorem channel_newChannel (m : Machine) (x : Ref .channel) :
    m.newChannel.2.channel x = m.channel x := by
  change (m.channels.alloc .fresh).get x = _
  rw [Arena.get_alloc]
  split
  · next new => exact new ▸ m.channels.get_next.symm
  · rfl

/-! ## Setting listeners free -/

/-- The machine with the listener of a channel free. -/
def released (m : Machine) (c : Ref .channel) : Machine := m.setChannel c (m.channel c).release

section Released

variable (m : Machine) (c x : Ref .channel)

@[simp]
theorem listener?_released : ((m.released c).channel x).listener? = (m.channel x).listener? := by
  rw [released, channel_setChannel]
  split
  · next at_c => rw [at_c, Channel.listener?_release]
  · rfl

@[simp]
theorem ending_released : ((m.released c).channel x).ending = (m.channel x).ending := by
  rw [released, channel_setChannel]
  split
  · next at_c => rw [at_c, Channel.ending_release]
  · rfl

@[simp]
theorem abandoned_released : ((m.released c).channel x).abandoned = (m.channel x).abandoned := by
  rw [released, channel_setChannel]
  split
  · next at_c => rw [at_c, Channel.abandoned_release]
  · rfl

@[simp]
theorem isBusy_released :
    ((m.released c).channel x).isBusy = if x = c then false else (m.channel x).isBusy := by
  rw [released, channel_setChannel]
  split
  · rw [Channel.isBusy_release]
  · rfl

variable {m c}

/-- Who is free already is set free without a change. -/
theorem released_of_free (has : m.channels.Has c) (free : (m.channel c).isBusy = false) :
    m.released c = m := by
  rw [released, Channel.release_of_free free, setChannel, channel, has.set_get]

theorem setChannel_setChannel (has : m.channels.Has c) (first second : Channel) :
    (m.setChannel c first).setChannel c second = m.setChannel c second := by
  change { m with channels := (m.channels.set c first).set c second } = _
  rw [has.set_set]
  rfl

theorem released_setChannel (has : m.channels.Has c) (channel : Channel) :
    (m.setChannel c channel).released c = m.setChannel c channel.release := by
  rw [released, setChannel_setChannel has, channel_setChannel, if_pos rfl]

/-- It makes no difference whether a listener is set free before or after a signal is written. -/
theorem channel_released_accept (m : Machine) (c out x : Ref .channel) (signal : Signal) :
    ((m.setChannel out ((m.channel out).accept signal)).released c).channel x =
      ((m.released c).setChannel out (((m.released c).channel out).accept signal)).channel x := by
  simp only [released, channel_setChannel]
  by_cases at_c : x = c <;> by_cases at_out : x = out
  · subst at_c at_out
    simp [Channel.accept_release]
  · subst at_c
    simp [at_out]
  · subst at_out
    simp [at_c]
  · simp [at_c, at_out]

end Released

/-- What is engaged depends on who listens and who is busy. -/
theorem Engaged.of_setChannel {m : Machine} {c : Ref .channel} {channel : Channel}
    {stage : Ref .stage}
    (engaged : m.Engaged stage) (listener : channel.listener? = (m.channel c).listener?)
    (busy : (m.channel c).isBusy → channel.isBusy) : (m.setChannel c channel).Engaged stage := by
  obtain ⟨x, hears, at_work⟩ := engaged
  refine ⟨x, ?_, ?_⟩ <;> rw [channel_setChannel] <;> split
  · next at_c => rw [listener, ← at_c, hears]
  · exact hears
  · next at_c => exact busy (at_c ▸ at_work)
  · exact at_work

namespace Honours

variable {own : Ref .channel → Prop} {m m' : Machine}

/-- Setting the same listener free before and after makes no difference. -/
theorem release (h : m.Honours own m') (c : Ref .channel) :
    (m.released c).Honours own (m'.released c) where
  listener hears := by
    rw [listener?_released] at hears ⊢
    exact h.listener hears
  ending ended := by
    rw [ending_released] at ended ⊢
    exact h.ending ended
  busy x := by rw [isBusy_released, isBusy_released, h.busy]
  abandoned lost := by
    rw [abandoned_released] at lost ⊢
    exact h.abandoned lost
  attached has hears := by
    rw [listener?_released] at hears ⊢
    exact h.attached has hears
  stage has := h.stage has
  shielded {stage} has shielded := by
    -- Nobody gets busy by setting a listener free, so the stage was shielded before.
    have before : m.Shielded stage := fun x hears => by
      have busy := shielded x ((listener?_released m c x).trans hears)
      rw [isBusy_released] at busy
      split at busy
      · cases busy
      · exact busy
    rw [ending_released, ending_released]
    exact h.shielded has before
  probe := h.probe
  keeps := h.keeps

/-- A signal is written. If it ends the channel, this is the output of no stage that nothing can
enter. -/
theorem accept {c : Ref .channel} {signal : Signal}
    (apart : signal.isTerminal → (m.channel c).ending = none → ∀ stage, m.stages.Has stage →
      m.Shielded stage → own (m.stages.get stage).out → (m.stages.get stage).out ≠ c) :
    m.Honours own (m.setChannel c ((m.channel c).accept signal)) := by
  refine setChannel (fun _ hears => by rwa [Channel.listener?_accept])
    (fun _ _ hears => by rwa [Channel.listener?_accept] at hears) Channel.isBusy_accept
    (fun lost => by rwa [Channel.abandoned_accept])
    (fun _ ended => by rwa [Channel.ending_accept_of_some ended]) fun changed => ?_
  cases ended : (m.channel c).ending with
  | some given => exact absurd (by rw [Channel.ending_accept_of_some ended]) changed
  | none =>
    rw [Channel.ending_accept_of_none ended, ended] at changed
    cases terminal : signal.isTerminal with
    | true => exact apart terminal ended
    | false => exact absurd (by rw [terminal]; rfl) changed

/-- A listener is attached, which is no stage that there was before. -/
theorem attach {c : Ref .channel} {listener : Listener} {channel : Channel}
    (free : (m.channel c).attach? listener = some channel)
    (new : ∀ stage, listener = .stage stage → ¬ m.stages.Has stage) :
    m.Honours own (m.setChannel c channel) := by
  obtain ⟨nobody, rfl⟩ := Channel.of_attach? free
  refine setChannel (fun _ hears => ?_) (fun stage has hears => ?_) ?_ id (fun _ ended => ended)
    fun changed => absurd rfl changed
  · rw [nobody] at hears
    cases hears
  · exact absurd has (new stage (Option.some.inj hears))
  · unfold Channel.listener? at nobody
    unfold Channel.isBusy
    cases attached : (m.channel c).attachment with
    | buffering => rfl
    | listening =>
      rw [attached] at nobody
      cases nobody

/-- A stage that can be entered gets its result. -/
theorem setStage {stage : Ref .stage} (entered : ¬ m.Shielded stage) (result : Option Result)
    (woken : Bool) :
    m.Honours own { m with
      stages := m.stages.set stage { m.stages.get stage with result := result }
      woken := woken } where
  listener hears := hears
  ending ended := ended
  busy _ := rfl
  abandoned lost := lost
  attached _ hears := hears
  stage {other} has := by
    refine ⟨has.set stage _, ?_⟩
    change ((m.stages.set stage _).get other).out = _
    rw [Arena.get_set]
    split
    · next same => rw [same]
    · rfl
  shielded {other} _ shielded := by
    -- This stage could be entered, so one that is shielded is another.
    have apart : other ≠ stage := fun same => entered (same ▸ shielded)
    refine ⟨?_, fun _ => rfl⟩
    change (m.stages.set stage _).get other = _
    rw [Arena.get_set, if_neg apart]
  probe foreign := foreign
  keeps := .of_eq rfl

end Honours

/-! ## Keeping guard -/

namespace Guarded

variable {own : Ref .channel → Prop} {past past' : Option (Ref .task)} {m m' : Machine}

/-- The parties change and channels stay. Each party was one before, or is the only one of a
channel that has no ending. -/
theorem reassign (g : m.Guarded own past) (channel : ∀ x, m'.channel x = m.channel x)
    (has : ∀ {x}, m.channels.Has x → m'.channels.Has x)
    (stages : ∀ {stage}, m.stages.Has stage →
      m'.stages.Has stage ∧ m'.stages.get stage = m.stages.get stage)
    (made : ∀ {stage}, m'.stages.Has stage → ¬ m.stages.Has stage →
      (m'.stages.get stage).result = none)
    (probe : ∀ {p}, ¬ own (m.probes.get p).channel → ¬ own (m'.probes.get p).channel)
    (plumbed : m'.Plumbed)
    (ends : ∀ {out ender}, own out → m'.Ends past' out ender → m.Ends past out ender ∨
      m'.channels.Has out ∧ (m.channel out).ending = none ∧
        ∀ other, m'.Ends past' out other → other = ender) : m'.Guarded own past' where
  has owned h := (ends owned h).elim (fun h => has (g.has owned h)) fun h => h.1
  unique owned h h' := by
    rcases ends owned h with old | ⟨_, _, only⟩
    · rcases ends owned h' with old' | ⟨_, _, only⟩
      · exact g.unique owned old old'
      · exact only _ h
    · exact (only _ h').symm
  silent owned h early := by
    rw [channel]
    rcases ends owned h with old | ⟨_, silent, _⟩
    · exact g.silent owned old early
    · exact silent
  atEase {stage} has owned free := by
    have free : ¬ m.Engaged stage := by simpa only [Engaged, channel] using free
    unfold AtEase
    rw [channel]
    -- A new stage has no result, and its output has no ending before that.
    by_cases old : m.stages.Has stage
    · rw [(stages old).2] at owned ⊢
      exact g.atEase old owned free
    · have made_by : m'.Ends past' (m'.stages.get stage).out (.stage stage) := ⟨has, rfl⟩
      rcases ends owned made_by with known | ⟨_, silent, _⟩
      · exact absurd known.1 old
      · rw [made has old, silent]
        rfl
  relayed owned relays ended := by
    rw [channel] at relays ended ⊢
    exact g.relayed owned relays ended
  waits mem terminal := by
    rw [channel] at mem ⊢
    exact g.waits mem terminal
  single hears hears' := by
    rw [channel] at hears hears'
    exact g.single hears hears'
  stage hears := by
    rw [channel] at hears
    exact (stages (g.stage hears)).1
  completed hears done := by
    rw [channel] at hears ⊢
    rw [(stages (g.stage hears)).2] at done
    exact g.completed hears done
  probe hears := by
    rw [channel] at hears
    exact probe (g.probe hears)
  plumbed := plumbed

/-- Parties are lost and channels and stages stay. -/
theorem thin (g : m.Guarded own past) (channel : ∀ x, m'.channel x = m.channel x)
    (has : ∀ {x}, m.channels.Has x → m'.channels.Has x) (stages : m'.stages = m.stages)
    (probe : ∀ {p}, ¬ own (m.probes.get p).channel → ¬ own (m'.probes.get p).channel)
    (plumbed : m'.Plumbed)
    (ends : ∀ {out ender}, m'.Ends past' out ender → m.Ends past out ender) :
    m'.Guarded own past' := by
  refine g.reassign channel has (fun known => ?_) (fun known new => ?_) probe plumbed
    fun _ h => .inl (ends h)
  · rw [stages]
    exact ⟨known, rfl⟩
  · rw [stages] at known
    exact absurd known new

/-- A channel is written to or handed over from, and its listener stays. It gets an ending only by
the stage that ends it, which is in the middle of something, or from the channel that is relayed
to it. -/
theorem setChannel (g : m.Guarded own past) {c : Ref .channel} {channel : Channel}
    (listener : channel.listener? = (m.channel c).listener?)
    (ending : ∀ signal, (m.channel c).ending = some signal → channel.ending = some signal)
    (told : own c → channel.ending ≠ (m.channel c).ending → ∀ ender, m.Ends past c ender →
      (∃ stage, ender = .stage stage ∧ (m.setChannel c channel).Engaged stage) ∨
        ∃ x, ender = .channel x ∧ (m.channel x).ending = channel.ending)
    (waits : ∀ signal ∈ channel.backlog, signal.isTerminal → channel.ending = some signal)
    (eased : ∀ stage, m.Engaged stage → ¬ (m.setChannel c channel).Engaged stage →
      own (m.stages.get stage).out → m.AtEase stage) :
    (m.setChannel c channel).Guarded own past := by
  have listener_eq (x : Ref .channel) :
      ((m.setChannel c channel).channel x).listener? = (m.channel x).listener? := by
    rw [channel_setChannel]
    split
    · next at_c => rw [at_c, listener]
    · rfl
  have ending_mono {x : Ref .channel} {signal : Signal}
      (ended : (m.channel x).ending = some signal) :
      ((m.setChannel c channel).channel x).ending = some signal := by
    rw [channel_setChannel]
    split
    · next at_c => exact ending signal (at_c ▸ ended)
    · exact ended
  -- A channel that is owned and whose ending has changed is the one that is written to.
  have changed {out : Ref .channel} (owned : own out) (differs :
      ((m.setChannel c channel).channel out).ending ≠ (m.channel out).ending) {ender : Ender}
      (ends : m.Ends past out ender) :
      (∃ stage, ender = .stage stage ∧ (m.setChannel c channel).Engaged stage) ∨
        ∃ x, ender = .channel x ∧
          (m.channel x).ending = ((m.setChannel c channel).channel out).ending := by
    rw [channel_setChannel] at differs ⊢
    split at differs
    · next at_c =>
      subst at_c
      rw [if_pos rfl]
      exact told owned differs ender ends
    · exact absurd rfl differs
  have ends_of {out : Ref .channel} {ender : Ender}
      (h : (m.setChannel c channel).Ends past out ender) : m.Ends past out ender := by
    cases ender with
    | channel x => exact (listener_eq x).symm.trans h
    | _ => exact h
  refine ⟨fun owned h => (g.has owned (ends_of h)).set c channel,
    fun owned h h' => g.unique owned (ends_of h) (ends_of h'), fun {out ender} owned h early => ?_,
    fun {stage} has owned free => ?_, fun {x out signal} owned relays ended => ?_,
    fun {x signal} mem terminal => ?_, fun hears hears' => ?_, fun hears => ?_,
    fun hears done => ending_mono (g.completed (listener_eq _ ▸ hears) done), fun hears => ?_,
    g.plumbed.of_same rfl rfl fun {x _} hears => (listener_eq x).trans hears⟩
  · -- An early party ends nothing, so that the ending of its channel has not changed.
    have before := g.silent owned (ends_of h) early
    refine Classical.byContradiction fun ended => ?_
    rcases changed owned (before ▸ ended) (ends_of h) with ⟨_, rfl, _⟩ | ⟨_, rfl, _⟩ <;> cases early
  · -- A stage that is not engaged was at ease, or is eased now; nobody else ends its output.
    have before : m.AtEase stage :=
      (Classical.em (m.Engaged stage)).elim (fun engaged => eased stage engaged free owned)
        (g.atEase has owned)
    refine Classical.byContradiction fun ended => ?_
    have differs : ((m.setChannel c channel).channel (m.stages.get stage).out).ending ≠
        (m.channel (m.stages.get stage).out).ending := fun same => ended (same.trans before)
    have party : m.Ends past (m.stages.get stage).out (.stage stage) := ⟨has, rfl⟩
    rcases changed owned differs party with ⟨_, same, engaged⟩ | ⟨_, same, _⟩
    · cases same
      exact free engaged
    · cases same
  · -- What is relayed is ended by the channel that it comes from.
    have relays : m.Ends past out (.channel x) := (listener_eq x).symm.trans relays
    by_cases same : ((m.setChannel c channel).channel out).ending = (m.channel out).ending
    · exact ending_mono (g.relayed owned relays (same ▸ ended))
    · rcases changed owned same relays with ⟨_, same, _⟩ | ⟨_, same, from_x⟩
      · cases same
      · cases same
        exact ending_mono (from_x.trans ended)
  · rw [channel_setChannel] at mem ⊢
    split at mem
    · next at_c =>
      rw [if_pos at_c]
      exact waits signal mem terminal
    · next other =>
      rw [if_neg other]
      exact g.waits mem terminal
  · rw [listener_eq] at hears hears'
    exact g.single hears hears'
  · rw [listener_eq] at hears
    exact g.stage hears
  · rw [listener_eq] at hears
    exact g.probe hears

/-- A listener is attached: a channel that nobody ends yet, a stage that listens nowhere, a
collector, or a probe of a channel that is not owned. -/
theorem attach (g : m.Guarded own past) {c : Ref .channel} {listener : Listener} {channel : Channel}
    (free : (m.channel c).attach? listener = some channel)
    (forward : ∀ out, listener = .forward out → own out → m.channels.Has out ∧
      (m.channel out).ending = none ∧ ∀ ender, ¬ m.Ends past out ender)
    (stage : ∀ stage, listener = .stage stage → m.stages.Has stage ∧
      (m.stages.get stage).result = none ∧ ∀ x, (m.channel x).listener? ≠ some (.stage stage))
    (probe : ∀ probe, listener = .probe probe → ¬ own (m.probes.get probe).channel) :
    (m.setChannel c channel).Guarded own past := by
  obtain ⟨nobody, rfl⟩ := Channel.of_attach? free
  generalize attached_def :
    (⟨(m.channel c).backlog, .listening listener false, (m.channel c).ending,
    (m.channel c).abandoned⟩ : Channel) = attached
  have ending_eq (x : Ref .channel) :
      ((m.setChannel c attached).channel x).ending = (m.channel x).ending := by
    rw [channel_setChannel]
    split
    · next at_c => rw [at_c, ← attached_def]
    · rfl
  have listener_of {x : Ref .channel} {other : Listener}
      (hears : ((m.setChannel c attached).channel x).listener? = some other) :
      (m.channel x).listener? = some other ∨ x = c ∧ other = listener := by
    rw [channel_setChannel] at hears
    split at hears
    · next at_c =>
      rw [← attached_def] at hears
      exact .inr ⟨at_c, (Option.some.inj hears).symm⟩
    · exact .inl hears
  -- Who is engaged listens elsewhere, for this channel had no listener.
  have engaged_of {s : Ref .stage} (engaged : m.Engaged s) :
      (m.setChannel c attached).Engaged s := by
    obtain ⟨x, hears, busy⟩ := engaged
    have other : x ≠ c := by
      rintro rfl
      rw [nobody] at hears
      cases hears
    exact ⟨x, by rwa [channel_setChannel, if_neg other], by rwa [channel_setChannel, if_neg other]⟩
  have ends_of {out : Ref .channel} {ender : Ender}
      (h : (m.setChannel c attached).Ends past out ender) :
      m.Ends past out ender ∨ ender = .channel c ∧ listener = .forward out := by
    cases ender with
    | channel x =>
      exact (listener_of h).imp_right fun new => ⟨congrArg Ender.channel new.1, new.2.symm⟩
    | _ => exact .inl h
  refine ⟨fun owned h => ?_, fun owned h h' => ?_, fun owned h early => ?_,
    fun has owned idle => ?_,
    fun {x out signal} owned relays ended => ?_, fun {x signal} mem terminal => ?_,
    fun {x y s} hears hears' => ?_, fun hears => ?_, fun {x s} hears done => ?_, fun hears => ?_,
    g.plumbed.of_same rfl rfl fun {x _} hears => ?_⟩
  · rcases ends_of h with old | ⟨_, new⟩
    · exact (g.has owned old).set c attached
    · exact (forward _ new owned).1.set c attached
  · rcases ends_of h with old | ⟨rfl, new⟩ <;> rcases ends_of h' with old' | ⟨rfl, new'⟩
    · exact g.unique owned old old'
    · exact absurd old ((forward _ new' owned).2.2 _)
    · exact absurd old' ((forward _ new owned).2.2 _)
    · rfl
  · rw [ending_eq]
    rcases ends_of h with old | ⟨rfl, _⟩
    · exact g.silent owned old early
    · cases early
  · exact (ending_eq _).trans (g.atEase has owned fun engaged => idle (engaged_of engaged))
  · rw [ending_eq] at ended ⊢
    rcases listener_of relays with old | ⟨_, new⟩
    · exact g.relayed owned old ended
    · rw [(forward _ new.symm owned).2.1] at ended
      cases ended
  · rw [ending_eq]
    rw [channel_setChannel] at mem
    split at mem
    · next at_c =>
      rw [at_c]
      rw [← attached_def] at mem
      exact g.waits mem terminal
    · exact g.waits mem terminal
  · rcases listener_of hears with old | ⟨rfl, new⟩ <;>
      rcases listener_of hears' with old' | ⟨rfl, new'⟩
    · exact g.single old old'
    · exact absurd old ((stage s new'.symm).2.2 x)
    · exact absurd old' ((stage s new.symm).2.2 y)
    · rfl
  · rcases listener_of hears with old | ⟨_, new⟩
    · exact g.stage old
    · exact (stage _ new.symm).1
  · rw [ending_eq]
    rcases listener_of hears with old | ⟨_, new⟩
    · exact g.completed old done
    · have none : (m.stages.get s).result = none := (stage s new.symm).2.1
      cases none.symm.trans done
  · rcases listener_of hears with old | ⟨_, new⟩
    · exact g.probe old
    · exact probe _ new.symm
  · have other : x ≠ c := by
      rintro rfl
      rw [nobody] at hears
      cases hears
    rwa [channel_setChannel, if_neg other]

/-- What is done to a channel concerns neither its listener nor its ending. -/
theorem rewrite (g : m.Guarded own past) {c : Ref .channel} {channel : Channel}
    (listener : channel.listener? = (m.channel c).listener?)
    (busy : (m.channel c).isBusy → channel.isBusy) (ending : channel.ending = (m.channel c).ending)
    (backlog : ∀ signal ∈ channel.backlog, signal ∈ (m.channel c).backlog) :
    (m.setChannel c channel).Guarded own past :=
  g.setChannel listener (fun _ ended => ending.trans ended) (fun _ changed => absurd ending changed)
    (fun signal mem terminal => ending.trans (g.waits (backlog signal mem) terminal))
    fun _ engaged idle _ => absurd (engaged.of_setChannel listener busy) idle

/-- A signal is written, which ends an owned channel only if it comes from its party. -/
theorem accept (g : m.Guarded own past) {c : Ref .channel} {signal : Signal}
    (told : own c → signal.isTerminal → (m.channel c).ending = none → ∀ ender, m.Ends past c ender →
      (∃ stage, ender = .stage stage ∧ m.Engaged stage) ∨
        ∃ x, ender = .channel x ∧ (m.channel x).ending = some signal) :
    (m.setChannel c ((m.channel c).accept signal)).Guarded own past := by
  have engaged_of {stage : Ref .stage} (engaged : m.Engaged stage) :
      (m.setChannel c ((m.channel c).accept signal)).Engaged stage :=
    engaged.of_setChannel Channel.listener?_accept fun busy => by rwa [Channel.isBusy_accept]
  refine g.setChannel Channel.listener?_accept
    (fun _ ended => by rwa [Channel.ending_accept_of_some ended])
    (fun owned changed ender ends => ?_)
    (fun other mem terminal => ?_) fun _ engaged idle _ => absurd (engaged_of engaged) idle
  · -- An ending comes to be only where there was none, and by a terminal signal.
    cases ended : (m.channel c).ending with
    | some given => exact absurd (by rw [Channel.ending_accept_of_some ended]) changed
    | none =>
      rw [Channel.ending_accept_of_none ended, ended] at changed
      rw [Channel.ending_accept_of_none ended]
      cases terminal : signal.isTerminal with
      | false => exact absurd (by rw [terminal]; rfl) changed
      | true =>
        exact (told owned terminal ended ender ends).imp_left fun ⟨stage, same, engaged⟩ =>
          ⟨stage, same, engaged_of engaged⟩
  · -- What waits has waited before or is the signal itself.
    rcases Channel.mem_accept mem with old | ⟨still_open, rfl⟩
    · have ended := g.waits old terminal
      rwa [Channel.ending_accept_of_some ended]
    · rw [Channel.ending_accept_of_none still_open, if_pos terminal]

/-- A listener is set free; if it is a stage, it is at ease. -/
theorem release (g : m.Guarded own past) {c : Ref .channel}
    (ease : ∀ stage, (m.channel c).listener? = some (.stage stage) →
      own (m.stages.get stage).out → m.AtEase stage) : (m.released c).Guarded own past := by
  refine g.setChannel Channel.listener?_release (fun _ ended => by rwa [Channel.ending_release])
    (fun _ changed => absurd Channel.ending_release changed) (fun signal mem terminal => ?_)
    fun stage engaged idle owned => ?_
  · rw [Channel.ending_release]
    rw [Channel.backlog_release] at mem
    exact g.waits mem terminal
  · -- A stage that is engaged no longer is the one that listens here.
    obtain ⟨x, hears, busy⟩ := engaged
    by_cases at_c : x = c
    · exact ease stage (at_c ▸ hears) owned
    · have busy : ((m.released c).channel x).isBusy := by rwa [isBusy_released, if_neg at_c]
      exact absurd ⟨x, (listener?_released m c x).trans hears, busy⟩ idle

/-- A signal is taken from a channel whose listener counts as free, and the listener gets busy. -/
theorem take {c : Ref .channel} (g : (m.released c).Guarded own past) {listener : Listener}
    {signal : Signal} {channel : Channel}
    (taken : (m.channel c).take? = some (listener, signal, channel)) :
    ((m.setChannel c channel).channel c).listener? = some listener ∧
      ((m.setChannel c channel).channel c).isBusy ∧ (m.setChannel c channel).Guarded own past ∧
      (m.released c).Honours own ((m.setChannel c channel).released c) := by
  obtain ⟨hears, rest, waiting, rfl⟩ := Channel.of_take? taken
  generalize busy_def :
    ({ m.channel c with backlog := rest, attachment := .listening listener true } : Channel) = busy
  have has : m.channels.Has c := Arena.has_of_get_ne fun none => by
    change m.channel c = _ at none
    rw [none] at hears
    cases hears
  have at_c : ((m.released c).channel c) = (m.channel c).release := by
    rw [released, channel_setChannel, if_pos rfl]
  -- Only the backlog changes, and whether the listener is busy.
  have listener_busy : busy.listener? = (m.channel c).listener? := by rw [hears, ← busy_def]; rfl
  have ending_busy : busy.ending = (m.channel c).ending := by rw [← busy_def]
  have abandoned_busy : busy.abandoned = (m.channel c).abandoned := by rw [← busy_def]
  have taken_eq : m.setChannel c busy = (m.released c).setChannel c busy := by
    rw [released, setChannel_setChannel has]
  have released_eq : (m.setChannel c busy).released c =
      (m.released c).setChannel c busy.release := by
    rw [released_setChannel has, released, setChannel_setChannel has]
  refine ⟨?_, ?_, ?_, ?_⟩
  · rw [channel_setChannel, if_pos rfl, listener_busy, hears]
  · rw [channel_setChannel, if_pos rfl, ← busy_def]
    rfl
  · rw [taken_eq]
    refine g.rewrite ?_ (fun _ => by rw [← busy_def]; rfl) ?_ fun other mem => ?_
    · rw [at_c, Channel.listener?_release, listener_busy]
    · rw [at_c, Channel.ending_release, ending_busy]
    · rw [at_c, Channel.backlog_release, waiting]
      rw [← busy_def] at mem
      exact List.mem_cons_of_mem _ mem
  · rw [released_eq]
    refine .setChannel (fun _ heard => ?_) (fun _ _ heard => ?_) ?_ (fun lost => ?_)
      (fun _ ended => ?_) fun changed => absurd ?_ changed
    · rwa [Channel.listener?_release, listener_busy, ← listener?_released m c]
    · rwa [at_c, Channel.listener?_release, ← listener_busy, ← Channel.listener?_release]
    · rw [at_c, Channel.isBusy_release, Channel.isBusy_release]
    · rwa [Channel.abandoned_release, abandoned_busy, ← abandoned_released m c]
    · rwa [Channel.ending_release, ending_busy, ← ending_released m c]
    · rw [at_c, Channel.ending_release, Channel.ending_release, ending_busy]

/-- Who is handed a signal is at ease, and a terminal signal is the ending of its channel. -/
theorem handed {c : Ref .channel} (g : (m.released c).Guarded own past) {listener : Listener}
    {signal : Signal} {channel : Channel}
    (taken : (m.channel c).take? = some (listener, signal, channel)) :
    (∀ stage, listener = .stage stage → own (m.stages.get stage).out →
      (m.setChannel c channel).AtEase stage) ∧
    (signal.isTerminal → ((m.setChannel c channel).channel c).ending = some signal) := by
  obtain ⟨hears, rest, waiting, channel_def⟩ := Channel.of_take? taken
  have ending_eq (x : Ref .channel) :
      ((m.setChannel c channel).channel x).ending = (m.channel x).ending := by
    rw [channel_setChannel]
    split
    · next at_c => rw [at_c, channel_def]
    · rfl
  refine ⟨fun stage same owned => ?_, fun terminal => ?_⟩
  · subst same
    have hears_free := (m.listener?_released c c).trans hears
    -- The stage listens nowhere else, and here its listener counts as free.
    have free : ¬ (m.released c).Engaged stage := by
      rintro ⟨x, hears', busy⟩
      rw [isBusy_released, if_pos (g.single hears' hears_free)] at busy
      cases busy
    have eased : ((m.released c).channel (m.stages.get stage).out).ending =
        (m.stages.get stage).result.map .ofResult := g.atEase (g.stage hears_free) owned free
    rw [ending_released] at eased
    exact (ending_eq _).trans eased
  · have waits : signal ∈ ((m.released c).channel c).backlog := by
      rw [released, channel_setChannel, if_pos rfl, Channel.backlog_release, waiting]
      exact List.mem_cons_self
    rw [ending_eq, ← ending_released m c]
    exact g.waits waits terminal

/-- A stage that is in the middle of something gets its result. It ends well only if its input
has. -/
theorem setStage (g : m.Guarded own past) {stage : Ref .stage} (has : m.stages.Has stage)
    (engaged : m.Engaged stage) {result : Result} (woken : Bool)
    (done : result = .ok () → ∀ x, (m.channel x).listener? = some (.stage stage) →
      (m.channel x).ending = some .complete) :
    Guarded own past { m with
      stages := m.stages.set stage { m.stages.get stage with result := some result }
      woken := woken } := by
  generalize given_def : ({ m.stages.get stage with result := some result } : Stage) = given
  have get_eq (other : Ref .stage) : (m.stages.set stage given).get other =
      if other = stage then given else m.stages.get other := Arena.get_set ..
  have out_eq (other : Ref .stage) :
      ((m.stages.set stage given).get other).out = (m.stages.get other).out := by
    rw [get_eq]
    split
    · next same => rw [same, ← given_def]
    · rfl
  have ends_of {out : Ref .channel} {ender : Ender}
      (h : Ends { m with stages := m.stages.set stage given, woken := woken } past out ender) :
      m.Ends past out ender := by
    cases ender with
    | stage other => exact ⟨Arena.has_of_set has h.1, (out_eq other).symm.trans h.2⟩
    | _ => exact h
  refine ⟨fun owned h => g.has owned (ends_of h),
    fun owned h h' => g.unique owned (ends_of h) (ends_of h'),
    fun owned h early => g.silent owned (ends_of h) early, fun {other} known owned idle => ?_,
    g.relayed, g.waits, g.single, fun hears => (g.stage hears).set stage given,
    fun {x other} hears ok => ?_, g.probe, g.plumbed.of_same rfl rfl id⟩
  · -- The stage that gets its result is engaged, so one that is not is another.
    have apart : other ≠ stage := by
      rintro rfl
      exact idle engaged
    change own ((m.stages.set stage given).get other).out at owned
    change (m.channel ((m.stages.set stage given).get other).out).ending =
      ((m.stages.set stage given).get other).result.map .ofResult
    rw [get_eq, if_neg apart] at owned ⊢
    exact g.atEase (Arena.has_of_set has known) owned idle
  · change ((m.stages.set stage given).get other).result = some (.ok ()) at ok
    rw [get_eq] at ok
    split at ok
    · next same =>
      rw [← given_def] at ok
      exact done (Option.some.inj ok) x (same ▸ hears)
    · exact g.completed hears ok

/-! ### Suspensions and tasks -/

/-- There is a suspension more, whose output is a new channel. -/
theorem suspend (g : m.Guarded own past) {work : Work} {acceptsInput : Bool} {mime : Option String}
    (plain : ∀ left right relay, work ≠ .pipe left right relay)
    (channels : m'.channels = m.newChannel.2.channels)
    (suspensions : m'.suspensions =
      m.suspensions.alloc ⟨.created, some work, m.channels.next, acceptsInput, mime⟩)
    (stages : m'.stages = m.stages) (tasks : m'.tasks = m.tasks) (probes : m'.probes = m.probes) :
    m'.Guarded own past ∧ m.Honours own m' := by
  have channel_eq (x : Ref .channel) : m'.channel x = m.channel x := by
    rw [← channel_newChannel m, channel, channels]
    rfl
  have stage_eq {stage : Ref .stage} (has : m.stages.Has stage) :
      m'.stages.Has stage ∧ m'.stages.get stage = m.stages.get stage := by
    rw [stages]
    exact ⟨has, rfl⟩
  have probe {p : Ref .probe} (foreign : ¬ own (m.probes.get p).channel) :
      ¬ own (m'.probes.get p).channel := by rwa [probes]
  have suspension_eq (ref : Ref .suspension) : m'.suspension ref = if ref = m.suspensions.next then
      ⟨.created, some work, m.channels.next, acceptsInput, mime⟩ else m.suspension ref := by
    rw [suspension, suspensions, Arena.get_alloc]
    rfl
  have ends_of {out : Ref .channel} {ender : Ender} (h : m'.Ends past out ender) :
      m.Ends past out ender ∨ ender = .suspension m.suspensions.next ∧ out = m.channels.next := by
    by_cases new : ender = .suspension m.suspensions.next
    · subst new
      have made : (m'.suspension m.suspensions.next).out = out := h.2.1
      rw [suspension_eq, if_pos rfl] at made
      exact .inr ⟨rfl, made.symm⟩
    · refine .inl (h.of_same (fun ref at_ref => ?_)
        (fun ref _ => by rw [task, tasks]; rfl) stages channel_eq)
      rw [suspension_eq, if_neg (by rintro rfl; exact new at_ref)]
  have keeps : m.KeepsWork m' := .of_alloc suspensions
  have plumbed : m'.Plumbed := by
    refine g.plumbed.mono keeps (fun hears => by rwa [channel_eq]) (fun ref created => ?_)
      fun task => ?_
    · rw [suspension_eq]
      split
      · exact .inr fun left right relay same =>
          absurd (Option.some.inj same) (plain left right relay)
      · exact .inl rfl
    · rw [Machine.task, tasks]
      exact .inl ⟨rfl, rfl⟩
  refine ⟨g.reassign channel_eq (fun has => channels ▸ has.alloc .fresh) stage_eq
    (fun has new => absurd (stages ▸ has) new) probe plumbed fun owned h => ?_,
    .of_same channel_eq stage_eq probe keeps⟩
  refine (ends_of h).imp_right fun new => ?_
  obtain ⟨rfl, rfl⟩ := new
  refine ⟨channels ▸ Arena.has_alloc_next .., ?_, fun other h' => ?_⟩
  · rw [channel, Arena.get_next]
    rfl
  · -- Nobody was to end a channel that was not there.
    rcases ends_of h' with old | ⟨rfl, _⟩
    · exact absurd rfl (g.has owned old).ne_next
    · rfl

/-- A suspension is resumed: its task takes its place. -/
theorem startTask (g : m.Guarded own past) {ref : Ref .suspension} {work : Work}
    (input : Option (Ref .channel)) (created : (m.suspension ref).phase = .created)
    (pending : (m.suspension ref).work = some work)
    (accepts : input.isSome → (m.suspension ref).acceptsInput) :
    (m.startTask ref work input).2.Guarded own past := by
  -- The suspension is no party any more, and the task is one where the suspension was.
  have ends_of {out : Ref .channel} {ender : Ender}
      (h : (m.startTask ref work input).2.Ends past out ender) :
      m.Ends past out ender ∧ ender ≠ .suspension ref ∨
        ender = .task m.tasks.next ∧ m.Ends past out (.suspension ref) := by
    by_cases resumed : ender = .suspension ref
    · subst resumed
      have phase : ((m.suspensions.set ref _).get ref).phase = .created := h.1
      rw [Arena.get_set, if_pos rfl] at phase
      cases phase
    · by_cases new : ender = .task m.tasks.next
      · subst new
        obtain ⟨_, out_eq, tells⟩ := h
        change ((m.tasks.alloc _).get m.tasks.next).out = _ at out_eq
        change ((m.tasks.alloc _).get m.tasks.next).progress.tells at tells
        rw [Arena.get_alloc, if_pos rfl] at out_eq tells
        exact .inr ⟨rfl, created, out_eq, by rw [pending]; exact tells⟩
      · refine .inl ⟨h.of_same (fun other same => ?_) (fun task same => ?_) rfl fun _ => rfl,
          resumed⟩
        · change (m.suspensions.set ref _).get other = _
          rw [Arena.get_set, if_neg (by rintro rfl; exact resumed same)]
          rfl
        · change (m.tasks.alloc _).get task = _
          rw [Arena.get_alloc, if_neg (by rintro rfl; exact new same)]
          rfl
  refine g.reassign (fun _ => rfl) id (fun has => ⟨has, rfl⟩) (fun has new => absurd has new)
    id (g.plumbed.startTask created pending accepts) fun owned h => ?_
  refine (ends_of h).imp And.left fun new => ?_
  obtain ⟨rfl, before⟩ := new
  refine ⟨g.has owned before, g.silent owned before rfl, fun other h' => ?_⟩
  rcases ends_of h' with ⟨old, apart⟩ | ⟨rfl, _⟩
  · exact absurd (g.unique owned old before) apart
  · rfl

/-- A task is past ending its output. -/
theorem pass (g : m.Guarded own none) (task : Ref .task) : m.Guarded own (some task) :=
  g.thin (fun _ => rfl) id rfl id g.plumbed fun h => h.unpass

/-- A task that is past ending its output has come so far that it never will. -/
theorem retire {task : Ref .task} (g : m.Guarded own (some task)) {progress : Progress}
    (quiet : progress.tells = false)
    (tasks : m'.tasks = m.tasks.set task { m.task task with progress := progress })
    (suspensions : ∀ ref, m'.suspension ref = m.suspension ref ∨
      (m'.suspension ref).phase ≠ .created)
    (keeps : m.KeepsWork m') (channels : m'.channels = m.channels) (stages : m'.stages = m.stages)
    (probes : m'.probes = m.probes) : m'.Guarded own none := by
  have channel_eq (x : Ref .channel) : m'.channel x = m.channel x := by rw [channel, channels]; rfl
  have task_eq (ref : Ref .task) :
      m'.task ref = if ref = task then { m.task task with progress := progress }
        else m.task ref := by
    rw [Machine.task, tasks, Arena.get_set]
    rfl
  have plumbed : m'.Plumbed := by
    refine g.plumbed.mono keeps (fun hears => by rwa [channel_eq])
      (fun ref created => (suspensions ref).imp_right fun resumed => absurd created resumed)
      fun other => .inl ?_
    rw [task_eq]
    split
    · next same => rw [same]; exact ⟨rfl, rfl⟩
    · exact ⟨rfl, rfl⟩
  refine g.thin channel_eq (fun has => channels ▸ has) stages
    (fun foreign => by rwa [probes]) plumbed
    fun {out ender} h => ?_
  have known (ref : Ref .suspension) (same : ender = .suspension ref) :
      m'.suspension ref = m.suspension ref := by
    subst same
    exact (suspensions ref).resolve_right fun resumed => resumed h.1
  -- The task is a party no longer, and the others are those that there were.
  by_cases at_task : ender = .task task
  · subst at_task
    have tells : (m'.task task).progress.tells := h.2.2
    rw [task_eq, if_pos rfl] at tells
    exact absurd tells (by rw [quiet]; exact Bool.noConfusion)
  · have same := h.of_same known (fun ref same => by
      rw [task_eq, if_neg (by rintro rfl; exact at_task same)]) stages channel_eq
    cases ender with
    | task ref =>
      exact ⟨fun past => at_task (congrArg Ender.task (Option.some.inj past).symm), same.2⟩
    | _ => exact same

/-- What is done concerns neither channels and stages nor suspensions and tasks. -/
theorem beside (g : m.Guarded own past) (channels : m'.channels = m.channels)
    (stages : m'.stages = m.stages) (suspensions : m'.suspensions = m.suspensions)
    (tasks : m'.tasks = m.tasks)
    (probe : ∀ {p}, ¬ own (m.probes.get p).channel → ¬ own (m'.probes.get p).channel) :
    m'.Guarded own past ∧ m.Honours own m' := by
  have channel_eq (x : Ref .channel) : m'.channel x = m.channel x := by rw [channel, channels]; rfl
  have plumbed : m'.Plumbed := g.plumbed.of_same suspensions tasks fun hears => by rwa [channel_eq]
  refine ⟨g.thin channel_eq (fun has => channels ▸ has) stages probe plumbed fun h => h.of_same
    (fun _ _ => by rw [suspension, suspensions]; rfl) (fun _ _ => by rw [task, tasks]; rfl) stages
    channel_eq, .of_same channel_eq (fun has => ?_) probe (.of_eq suspensions)⟩
  rw [stages]
  exact ⟨has, rfl⟩

/-- There is a suspension more that ends no channel. -/
theorem newSuspension (g : m.Guarded own past) {suspension : Suspension}
    (quiet : suspension.work.any Work.tells = false)
    (laid : ∀ left right relay, suspension.work = some (.pipe left right relay) →
      m.Laid left right relay suspension.out suspension.acceptsInput) :
    (m.newSuspension suspension).2.Guarded own past := by
  have suspension_eq (ref : Ref .suspension) : (m.newSuspension suspension).2.suspension ref =
      if ref = m.suspensions.next then suspension else m.suspension ref := Arena.get_alloc ..
  have keeps : m.KeepsWork (m.newSuspension suspension).2 := .of_alloc rfl
  have plumbed : (m.newSuspension suspension).2.Plumbed := by
    refine g.plumbed.mono keeps id (fun ref _ => ?_) fun _ => .inl ⟨rfl, rfl⟩
    rw [suspension_eq]
    split
    · exact .inr fun left right relay same => (laid left right relay same).mono keeps id
    · exact .inl rfl
  refine g.thin (fun _ => rfl) id rfl id plumbed fun {out ender} h => ?_
  -- The new suspension is no party, and the others are those that there were.
  by_cases new : ender = .suspension m.suspensions.next
  · subst new
    have tells : ((m.suspensions.alloc suspension).get m.suspensions.next).work.any Work.tells :=
      h.2.2
    rw [Arena.get_alloc, if_pos rfl, quiet] at tells
    cases tells
  · refine h.of_same (fun ref same => ?_) (fun _ _ => rfl) rfl fun _ => rfl
    change (m.suspensions.alloc suspension).get ref = _
    rw [Arena.get_alloc, if_neg (by rintro rfl; exact new same)]
    rfl

end Guarded

end Machine

end Wordstream
