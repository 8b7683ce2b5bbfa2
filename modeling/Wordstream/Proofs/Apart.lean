import Wordstream.Proofs.Playing

/-!
# Activations do not mix

A host drives tasks and asks for other things when no body is running. Driving starts the work of
a task that is ready: the body of an activation is run once, or a stage is made that runs it for
every value. In the middle of all that, however deep bodies are nested and whether they fail or
not, the body that is running finds its own activation on its scene.

## Main results

* `Machine.Idle.poll`, `Machine.Idle.demand` — driving and all other demands keep activations apart
* `InPlay.activations_apart` — in the middle of any demand, bodies find what is their own
-/

namespace Wordstream

/-- Each activation has its keeper, and no body is running. -/
structure Machine.Idle (m : Machine) : Prop extends m.Sole none where
  vacant : m.turns = []

/-- The outcome of what was done with an idle machine. -/
def Idles {α : Type} (outcome : Option α × Machine) : Prop :=
  outcome.2.Unmixed ∧ (outcome.1.isSome → outcome.2.Idle)

namespace Idles

variable {α β : Type} {m : Machine}

theorem of_idle {outcome : Option α × Machine} (h : outcome.2.Idle) : Idles outcome :=
  ⟨h.toUnmixed, fun _ => h⟩

theorem bind {first : Effect Machine α} {next : α → Effect Machine β} (before : Idles (first m))
    (after : ∀ result m', first m = (some result, m') → m'.Idle → Idles (next result m')) :
    Idles ((first >>= next) m) := by
  rw [Effect.bind_apply]
  generalize first m = outcome at before after
  obtain ⟨_ | result, m'⟩ := outcome
  · exact ⟨before.1, nofun⟩
  · exact after result m' rfl (before.2 rfl)

/-- What spares everything leaves a machine idle. -/
theorem of_ensures (idle : m.Idle) {outcome : Option α × Machine} (h : m.Ensures none outcome) :
    Idles outcome :=
  ⟨h.1, fun ended => ⟨(h.2 ended).1, (h.2 ended).2.turns.trans idle.vacant⟩⟩

end Idles

namespace Machine

/-! ## Taking tasks further -/

/-- A task has come so far that it runs no body any more. -/
theorem Sole.retire {past : Option (Ref .task)} {m m' : Machine} (h : m.Sole past)
    (vacant : m.turns = []) {ref : Ref .task} (own : past = none ∨ past = some ref)
    {progress : Progress} (begun : ∀ work input, progress ≠ .ready work input)
    (cast : m'.cast = m.cast)
    (tasks : m'.tasks = m.tasks.set ref { m.task ref with progress := progress })
    (suspensions : ∀ ref, m'.suspension ref = m.suspension ref ∨
      (m'.suspension ref).phase ≠ .created)
    (channels : m'.channels = m.channels) (stages : m'.stages = m.stages) : m'.Idle := by
  have task_eq (task : Ref .task) :
      m'.task task = if task = ref then { m.task ref with progress := progress }
        else m.task task := by
    rw [Machine.task, tasks, Arena.get_set]
    rfl
  have channel_eq (x : Ref .channel) : m'.channel x = m.channel x := by rw [channel, channels]; rfl
  refine ⟨h.thin cast (fun has => channels ▸ has) (fun has => stages ▸ has)
    (fun {x _} hears => by rwa [channel_eq] at hears) (fun {_ keeper} keeps => ?_)
    fun {turn} on => ?_, (congrArg (·.2.1) cast).trans vacant⟩
  · cases keeper with
    | suspension s =>
      have same := (suspensions s).resolve_right fun resumed => resumed keeps.1
      change (m'.suspension s).phase = _ ∧ (m'.suspension s).work = _ at keeps
      rw [same] at keeps
      exact ⟨keeps, congrArg Suspension.out same⟩
    | task t =>
      obtain ⟨_, input, ready⟩ := keeps
      change _ ∧ (m'.task t).out = _
      rw [task_eq] at ready ⊢
      split at ready
      · -- The task itself is not ready any more, and so keeps nothing.
        exact absurd ready (begun _ _)
      · next apart =>
        rw [if_neg apart]
        refine ⟨⟨?_, input, ready⟩, rfl⟩
        rcases own with rfl | rfl
        · exact (Option.some_ne_none t).symm
        · exact fun same => apart (Option.some.inj same).symm
    | stage s =>
      change m'.stages.Has s ∧ (m'.stages.get s).step = _ at keeps
      rw [stages] at keeps
      exact ⟨keeps, congrArg (fun stages => (stages.get s).out) stages⟩
  · rw [vacant] at on
    cases on

/-- The stage of a task takes the place of the task. -/
theorem Idle.addStage {m : Machine} (idle : m.Idle) {ref : Ref .task} {step : Step}
    (ready : ∀ activation, step = .body activation → m.KeptBy none activation (.task ref)) :
    (m.addStage ⟨step, (m.task ref).out, none⟩).Sole (some ref) := by
  have get_eq (stage : Ref .stage) : (m.addStage ⟨step, (m.task ref).out, none⟩).stages.get stage =
      if stage = m.stages.next then ⟨step, (m.task ref).out, none⟩ else m.stages.get stage :=
    Arena.get_alloc ..
  -- Who keeps an activation has kept it before and is not the task, or is the new stage.
  have keeps_of {activation : Ref .activation} {keeper : Keeper}
      (keeps : (m.addStage ⟨step, (m.task ref).out, none⟩).KeptBy (some ref) activation keeper) :
      (m.KeptBy none activation keeper ∧ keeper ≠ .task ref ∧
        (m.addStage ⟨step, (m.task ref).out, none⟩).outOf keeper = m.outOf keeper) ∨
      keeper = .stage m.stages.next ∧ step = .body activation := by
    cases keeper with
    | suspension s => exact .inl ⟨keeps, Keeper.noConfusion, rfl⟩
    | task t =>
      exact .inl ⟨⟨nofun, keeps.2⟩, fun same => keeps.1 (by rw [Keeper.task.inj same]), rfl⟩
    | stage s =>
      obtain ⟨has, its⟩ := keeps
      change (_ ∧ _ ∧ ((m.addStage ⟨step, (m.task ref).out, none⟩).stages.get s).out = _) ∨ _
      rw [get_eq] at its ⊢
      split at its
      · next new => exact .inr ⟨congrArg _ new, its⟩
      · next old =>
        rw [if_neg old]
        exact .inl ⟨⟨Arena.has_of_alloc has old, its⟩, Keeper.noConfusion, rfl⟩
  refine idle.toSole.reassign rfl id (fun has => has.alloc _) id
    (fun {activation keeper} keeps => ?_) fun on => ?_
  · rcases keeps_of keeps with ⟨before, _, out⟩ | ⟨rfl, its⟩
    · exact ⟨keeper, before, out, .inl rfl⟩
    · refine ⟨.task ref, ready activation its, ?_, .inr fun other keeps' => ?_⟩
      · change ((m.addStage ⟨step, (m.task ref).out, none⟩).stages.get m.stages.next).out = _
        rw [get_eq, if_pos rfl]
        rfl
      · rcases keeps_of keeps' with ⟨before', apart, _⟩ | ⟨rfl, _⟩
        · exact absurd (idle.unique before' (ready activation its)) apart
        · rfl
  · rw [idle.vacant] at on
    cases on

section Tasks

variable {m : Machine} {past : Option (Ref .task)} {ref : Ref .task}

/-- A task waits for something. -/
theorem Sole.setProgress (h : m.Sole past) (vacant : m.turns = [])
    (own : past = none ∨ past = some ref) {progress : Progress}
    (begun : ∀ work input, progress ≠ .ready work input) : (setProgress ref progress m).2.Idle :=
  h.retire vacant own begun rfl rfl (fun _ => .inl rfl) rfl rfl

/-- A task gets its result. -/
theorem Sole.finishTask (h : m.Sole past) (vacant : m.turns = [])
    (own : past = none ∨ past = some ref) (result : Result) :
    Idles (Wordstream.finishTask ref result m) := by
  rw [finishTask_apply]
  refine .of_idle (h.retire vacant own (fun _ _ => Progress.noConfusion) rfl rfl
    (fun other => ?_) rfl rfl)
  change (m.suspensions.set _ _).get other = _ ∨ ((m.suspensions.set _ _).get other).phase ≠ _
  rw [Arena.get_set]
  split
  · exact .inr (by cases result <;> exact Phase.noConfusion)
  · exact .inl rfl

end Tasks

/-! ## Driving -/

namespace Idle

variable {engine : Engine} (h : soloism.Relates engine engine) {m : Machine} (idle : m.Idle)
  {ref : Ref .task}

include idle

theorem allows {α : Type} {action : Effect Machine α} (solo : soloing.Allows action) :
    Idles (action m) := .of_ensures idle (solo none m idle.toSole)

theorem aside {m' : Machine} (cast : m'.cast = m.cast) (plumbing : m'.plumbing = m.plumbing) :
    m'.Idle :=
  ⟨(idle.toSole.aside cast plumbing).1, (congrArg (·.2.1) cast).trans idle.vacant⟩

theorem finishTask (result : Result) : Idles (Wordstream.finishTask ref result m) :=
  idle.toSole.finishTask idle.vacant (.inl rfl) result

include h

/-- Work that is done once leaves a machine idle if the work itself does. -/
theorem runOnce {work : Run Machine Unit} (working : m.Ensures none (work m)) :
    Idles (Wordstream.runOnce engine ref work m) := by
  have worked : Idles (outcome work m) := .of_ensures idle working
  refine worked.bind fun result m₁ _ idle₁ => ?_
  rw [Effect.get_bind_apply]
  have told : Idles (tellOutput engine (m₁.task ref).out result m₁) := by
    cases result with
    | ok _ => exact idle₁.allows (Solo.emit h.deliver _ _)
    | error failure => exact idle₁.allows (Solo.emit h.deliver _ _)
  exact told.bind fun _ _ _ idle₂ => idle₂.finishTask result

/-- A stage is made and listens, if the input is free. -/
theorem startStage {step : Step} (input : Ref .channel)
    (ready : ∀ activation, step = .body activation → m.KeptBy none activation (.task ref)) :
    Idles (Wordstream.startStage engine ref step input m) := by
  have made := idle.addStage ready
  have listening : (m.addStage ⟨step, (m.task ref).out, none⟩).Ensures (some ref)
      (subscribe engine input (.stage m.stages.next) (m.addStage ⟨step, (m.task ref).out, none⟩)) :=
    Solo.ensures_subscribe h.deliver made fun stage same => by
      cases same
      exact ⟨Arena.has_alloc_next .., fun x hears => (idle.stage hears).ne_next rfl⟩
  rw [startStage_apply, Effect.bind_apply]
  change _ ∧ _
  rw [outcome_apply]
  generalize subscribe engine input (.stage m.stages.next)
    (m.addStage ⟨step, (m.task ref).out, none⟩) = listened at listening
  -- Listening was halted, or refused, or has succeeded.
  obtain ⟨_ | (failure | _), m₁⟩ := listened
  · exact ⟨listening.1, nofun⟩
  · obtain ⟨sole, spares⟩ := listening.ended
    exact sole.finishTask (spares.turns.trans idle.vacant) (.inr rfl) (.error failure)
  · obtain ⟨sole, spares⟩ := listening.ended
    have begun : ∀ work other, Progress.waiting m.stages.next input ≠ .ready work other :=
      fun _ _ => Progress.noConfusion
    have waiting := sole.setProgress (spares.turns.trans idle.vacant) (.inr rfl) begun
    exact ⟨waiting.toUnmixed, fun _ => waiting⟩

theorem endSource (ending : Ending) : Idles (Wordstream.endSource engine ref ending m) := by
  cases ending with
  | complete | fail =>
    change Idles ((get >>= fun m : Machine => emit engine (m.task ref).out _ >>= fun _ =>
      Wordstream.finishTask ref _) m)
    rw [Effect.get_bind_apply]
    exact (idle.allows (Solo.emit h.deliver _ _)).bind fun _ _ _ idle₁ => idle₁.finishTask _
  | quiet failure => exact idle.finishTask _
  | hang =>
    exact .of_idle (idle.toSole.setProgress idle.vacant (.inl rfl) fun _ _ => Progress.noConfusion)

theorem continueSource (source : Source) :
    Idles (Wordstream.continueSource engine ref source m) := by
  have writing (values : List Value) : soloing.Allows (writeValues engine ref values) := by
    induction values with
    | nil => exact soloing.allows_pure _
    | cons value rest ih =>
      exact soloing.allows_get.bind fun _ => (Solo.emit h.deliver _ _).bind fun _ => ih
  refine (idle.allows (writing _)).bind fun _ m₁ _ idle₁ => ?_
  cases source.portions.tail with
  | nil => exact idle₁.endSource h _
  | cons portion portions =>
    have begun : ∀ work input, Progress.writing { source with portions := portion :: portions } ≠
        .ready work input := fun _ _ => Progress.noConfusion
    exact .of_idle (idle₁.toSole.retire idle₁.vacant (.inl rfl) begun rfl rfl
      (fun _ => .inl rfl) rfl rfl)

/-- The work of a task that is ready is started: the body of its activation is run for it alone,
or by the stage that it makes. -/
theorem startWork {work : Work} {input : Option (Ref .channel)}
    (ready : (m.task ref).progress = .ready work input) :
    Idles (Wordstream.startWork engine ref work input m) := by
  cases work with
  | body activation =>
    have keeps : m.KeptBy none activation (.task ref) := ⟨nofun, input, ready⟩
    cases input with
    | none =>
      -- No body is running between rounds.
      have off : m.Off activation := fun turn on => by
        rw [idle.vacant] at on
        cases on
      exact idle.runOnce h (idle.toSole.runBody h off ⟨_, keeps, trivial⟩ .none)
    | some input =>
      exact idle.startStage h input fun other same => Step.body.inj same ▸ keeps
  | call native args =>
    cases input with
    | none =>
      change Idles ((get >>= fun m : Machine => Wordstream.runOnce engine ref
        (runCall engine (m.task ref).out native args)) m)
      rw [Effect.get_bind_apply]
      exact idle.runOnce h (Congruence.Practice.runCall h _ _ _ none m idle.toSole)
    | some input => exact idle.startStage h input fun other same => by cases same
  | pipe left right relay =>
    have resuming : soloing.Allows (startPipe left right relay input) :=
      (Solo.resume left input).andThen fun _ => (Solo.resume right _).andThen fun _ =>
        soloing.allows_done _
    refine (idle.allows resuming).bind fun given m₁ resumed idle₁ => ?_
    cases given with
    | error failure => exact idle₁.finishTask _
    | ok progress =>
      obtain ⟨_, _, _, resumed⟩ := Run.of_bind resumed
      obtain ⟨_, _, _, resumed⟩ := Run.of_bind resumed
      cases resumed
      exact .of_idle (idle₁.toSole.setProgress idle₁.vacant (.inl rfl)
        fun _ _ => Progress.noConfusion)
  | source source =>
    cases input with
    | none => exact idle.continueSource h source
    | some input =>
      change Idles ((get >>= fun m : Machine => outcome (subscribe engine input
        (.forward (m.task ref).out)) >>= fun result => Wordstream.finishTask ref result) m)
      rw [Effect.get_bind_apply]
      exact (idle.allows (Solo.subscribe h.deliver _ fun _ => Listener.noConfusion)).bind
        fun _ _ _ idle₁ => idle₁.finishTask _

/-- Polling a task. -/
theorem poll (fuel : Nat) (ref : Ref .task) : Idles (Wordstream.poll engine fuel ref m) := by
  induction fuel generalizing ref m with
  | zero => exact ⟨idle.toUnmixed, nofun⟩
  | succ fuel ih =>
    cases at_ref : (m.task ref).progress with
    | finished result =>
      rw [poll_of_finished engine fuel at_ref]
      exact .of_idle idle
    | hanging =>
      rw [poll_of_hanging engine fuel at_ref]
      exact .of_idle idle
    | writing source =>
      rw [poll_of_writing engine fuel at_ref]
      exact idle.continueSource h source
    | waiting stage input =>
      rw [poll_of_waiting engine fuel at_ref]
      cases stageResult? m stage input with
      | none => exact .of_idle idle
      | some result => exact idle.finishTask result
    | joining left right =>
      rw [poll_of_joining engine fuel at_ref]
      refine (ih idle left).bind fun first m₁ _ idle₁ =>
        (ih idle₁ right).bind fun second m₂ _ idle₂ => ?_
      unfold finishJoint
      split
      · exact idle₂.finishTask _
      · exact .of_idle idle₂
    | ready work input =>
      rw [poll_of_ready engine fuel at_ref]
      refine (idle.startWork h at_ref).bind fun result m₁ _ idle₁ => ?_
      cases result with
      | some result => exact .of_idle idle₁
      | none =>
        rw [goOn, Effect.get_bind_apply]
        cases (m₁.task ref).progress with
        -- What the task has come to wait for is looked at in the same round.
        | waiting | joining => exact ih idle₁ ref
        | _ => exact .of_idle idle₁

theorem pollAll (fuel : Nat) (tasks : List (Ref .task)) :
    Idles (Wordstream.pollAll engine fuel tasks m) := by
  induction tasks generalizing m with
  | nil => exact .of_idle idle
  | cons ref rest ih =>
    exact (idle.poll h fuel ref).bind fun _ _ _ idle₁ => (ih idle₁).bind fun _ _ _ idle₂ =>
      .of_idle idle₂

omit h in
/-- What is marked on channels is no matter. -/
theorem abandonLost (outside : List Thing) : Idles (Wordstream.abandonLost outside m) := by
  rw [Wordstream.abandonLost, Effect.get_bind_apply]
  refine Idles.bind ?_ fun _ m₁ _ idle₁ => .of_idle idle₁
  induction lostInputs m outside generalizing m with
  | nil => exact .of_idle idle
  | cons input rest ih =>
    have marked : (m.setChannel input { m.channel input with abandoned := true }).Idle := by
      -- Giving up an input marks its channel, and leaves who listens there.
      have same (x : Ref .channel) :
          ((m.setChannel input { m.channel input with abandoned := true }).channel x).attachment =
            (m.channel x).attachment := by
        rw [channel_setChannel]
        split
        · next at_input => rw [at_input]
        · rfl
      have ⟨sole, _⟩ : (m.setChannel input { m.channel input with abandoned := true }).Sole none ∧
          m.Spares (m.setChannel input { m.channel input with abandoned := true }) := by
        refine idle.toSole.beside rfl (fun has => has.set ..) (fun x => ?_)
          (fun x => ?_) rfl rfl rfl
        · rw [Channel.listener?, same]
          rfl
        · rw [Channel.isBusy, same]
          rfl
      exact ⟨sole, idle.vacant⟩
    exact ih marked

omit h in
theorem driveUntil {α : Type} {pollOnce : Effect Machine (Option α)}
    (polls : ∀ {m : Machine}, m.Idle → Idles (pollOnce m)) (driven : List (Ref .task))
    (outside : List Thing) (fuel : Nat) :
    Idles (Wordstream.driveUntil pollOnce driven outside fuel m) := by
  induction fuel generalizing m with
  | zero => exact ⟨idle.toUnmixed, nofun⟩
  | succ fuel ih =>
    have rested : Idle { m with woken := false } := idle.aside rfl rfl
    change Idles ((pollOnce >>= _) { m with woken := false })
    refine (polls rested).bind fun result m₁ _ idle₁ => ?_
    cases result with
    | some result => exact .of_idle idle₁
    | none =>
      dsimp only
      rw [Effect.get_bind_apply]
      -- Something was woken, or an input was given up, or all are stuck.
      split
      · exact ih idle₁
      · rw [Effect.get_bind_apply]
        refine (idle₁.abandonLost _).bind fun lost m₂ _ idle₂ => ?_
        split
        · exact ih idle₂
        · exact .of_idle idle₂

theorem drive (fuel : Nat) (outside : List Thing) (ref : Ref .task) :
    Idles (Wordstream.drive engine fuel outside ref m) := by
  refine (idle.driveUntil (fun idle => idle.poll h fuel ref) [ref] outside fuel).bind
    fun result _ _ idle₁ => ?_
  cases result <;> exact .of_idle idle₁

theorem settleBatches (pollFuel : Nat) (outside : List Thing) (fuel : Nat)
    (failure : Option Failure) :
    Idles (Wordstream.settleBatches engine pollFuel outside fuel failure m) := by
  induction fuel generalizing m failure with
  | zero => exact ⟨idle.toUnmixed, nofun⟩
  | succ fuel ih =>
    have cleared : Idle { m with pending := [] } := idle.aside rfl rfl
    unfold Wordstream.settleBatches
    rw [Effect.get_bind_apply]
    change Idles ((ite _ _ _ : Effect Machine Driven) { m with pending := [] })
    split
    · split <;> exact .of_idle cleared
    · refine (cleared.driveUntil (fun idle => (idle.pollAll h pollFuel _).bind
        fun _ _ _ idle₁ => .of_idle idle₁) _ outside pollFuel).bind fun results m₁ _ idle₁ => ?_
      cases results with
      | some results => exact ih idle₁ _
      | none => exact .of_idle idle₁

end Idle

end Machine

/-! ## Demands -/

/-- Keeping activations apart has nothing to do with backings. -/
theorem tracks_soloism : soloism.Tracks where
  track _ _ := Solo.change (fun _ => rfl) fun _ => rfl
  untrack _ := Solo.change (fun _ => rfl) fun _ => rfl
  markStopped _ := Solo.change (fun _ => rfl) fun _ => rfl

/-- Whether a demand is one for a host to make: stages listen for the tasks that make them. -/
def Demand.isOutward {α : Type} : Demand α → Bool
  | subscribe _ (.stage _) => false
  | _ => true

/-- Whatever is asked of an idle machine keeps activations apart, and leaves the machine idle. -/
theorem Machine.Idle.demand {engine : Engine} (h : soloism.Relates engine engine) {m : Machine}
    (idle : m.Idle) {α : Type} (demand : Demand α) (outward : demand.isOutward) (fuel : Nat) :
    Idles (demand.run engine fuel m) := by
  cases demand with
  | boot => exact idle.allows h.boot
  | evaluate text => exact idle.allows (h.evaluate text)
  | execute code => exact idle.allows (h.execute code)
  | read reading cursor =>
    refine idle.allows (soloing.withCursor ?_ cursor)
    cases reading with
    | whole => exact h.whole
    | operand => exact h.operand
    | deferred => exact h.deferred
  | call native args => exact idle.allows (h.call native args False.elim)
  | deliver ref =>
    -- No body is running, so that whoever listens can be set free.
    have free : (m.released ref).Sole none := idle.toSole.release fun on => by
      rw [idle.vacant] at on
      cases on
    have handed := h.deliver ref none m free
    exact ⟨handed.1, fun ended => ⟨(handed.2 ended).1, (handed.2 ended).2.turns.trans idle.vacant⟩⟩
  | hostAction name cursor => exact idle.allows (soloing.withCursor (h.hostAction name) cursor)
  | hostOperator name left right cursor =>
    exact idle.allows
      (soloing.withCursor (h.hostOperator name left right False.elim False.elim) cursor)
  | look binding symbol => exact idle.allows (soloism.allows_bindingGet binding symbol)
  | store binding symbol value =>
    exact idle.allows (soloism.allows_bindingSet binding symbol value False.elim)
  | emit ref signal => exact idle.allows (Solo.emit h.deliver ref signal)
  | subscribe ref listener =>
    refine idle.allows (Solo.subscribe h.deliver ref ?_)
    rintro stage rfl
    cases outward
  | fulfil probe requests =>
    exact idle.allows (Congruence.fulfilAll Solo.modifyProbe (Solo.emit h.deliver)
      (fun c _ => Solo.subscribe h.deliver c fun _ => Listener.noConfusion) probe requests)
  | resume ref input => exact idle.allows (Solo.resume ref input)
  | pipe left right => exact idle.allows (Solo.pipe h.deliver left right)
  | drive outside ref => exact idle.drive h fuel outside ref
  | settle outside => exact idle.settleBatches h fuel outside fuel none
  | load id name text => exact idle.allows (h.loadText tracks_soloism id name text)
  | loadFile files id path => exact idle.allows (h.loadFile tracks_soloism files id path)
  | stop id => exact idle.allows (Discipline.allows_stopModule tracks_soloism id)

/-- The machines of which something was asked, one thing after the other, each coming to an end.
In between the host may make channels and suspensions, though none for a body, and do whatever
concerns neither activations and who keeps them nor who listens and who is busy. -/
inductive InPlay (host : Host) : Machine → Prop
  | new (config : Config) : InPlay host (.ofConfig config)
  | prepare {m m' : Machine} (h : InPlay host m) (cast : m'.cast = m.cast)
      (channels : ∀ {x}, m.channels.Has x → m'.channels.Has x)
      (listener : ∀ x, (m'.channel x).listener? = (m.channel x).listener?)
      (busy : ∀ x, (m'.channel x).isBusy = (m.channel x).isBusy) (stages : m'.stages = m.stages)
      (suspensions : m'.suspensions = m.suspensions) (tasks : m'.tasks = m.tasks) : InPlay host m'
  | suspend {m : Machine} (h : InPlay host m) {work : Work}
      (alien : ∀ activation, work ≠ .body activation) (acceptsInput : Bool) (mime : Option String) :
      InPlay host (suspend work acceptsInput mime m).2
  | demand {m m' : Machine} {α : Type} {answer : α} (h : InPlay host m) (demand : Demand α)
      (outward : demand.isOutward) (fuel : Nat)
      (ended : demand.run (.ofFuel host fuel) fuel m = (some answer, m')) : InPlay host m'

/-- A demand that has come to an end. -/
theorem InPlay.ask {host : Host} {m : Machine} (h : InPlay host m) {α : Type} (demand : Demand α)
    (outward : demand.isOutward) (fuel : Nat)
    (done : (demand.run (.ofFuel host fuel) fuel m).1.isSome) :
    InPlay host (demand.run (.ofFuel host fuel) fuel m).2 := by
  obtain ⟨answer, given⟩ := Option.isSome_iff_exists.1 done
  exact h.demand demand outward fuel (Prod.ext given rfl)

theorem Machine.idle_ofConfig (config : Config) : (Machine.ofConfig config).Idle := by
  have nowhere {activation : Ref .activation}
      (has : (Machine.ofConfig config).activations.Has activation) : False := Nat.not_lt_zero _ has
  refine ⟨⟨⟨fun scene => rfl, .nil, nofun, fun _ => rfl, fun has => (nowhere has).elim⟩,
    fun has => (nowhere has).elim, fun {activation keeper} keeps => ?_,
    fun {activation keeper other} keeps => ?_, nofun, nofun, nofun⟩, rfl⟩ <;>
  cases keeper with
  | suspension s => cases keeps.2
  | task t => obtain ⟨_, _, ready⟩ := keeps; cases ready
  | stage s => exact absurd keeps.1 (Nat.not_lt_zero _)

/-- Between demands no body is running. -/
theorem InPlay.idle {host : Host} (hosted : soloism.Admits host) {m : Machine} (h : InPlay host m) :
    m.Idle := by
  induction h with
  | new config => exact Machine.idle_ofConfig config
  | prepare _ cast channels listener busy stages suspensions tasks ih =>
    obtain ⟨sole, _⟩ := ih.toSole.beside cast channels listener busy stages suspensions tasks
    exact ⟨sole, (congrArg (·.2.1) cast).trans ih.vacant⟩
  | suspend _ alien acceptsInput mime ih =>
    exact (ih.allows (Solo.suspend alien acceptsInput mime)).2 rfl
  | demand _ demand outward fuel ended ih =>
    rw [← Engine.halting_never] at ended
    have asked := ih.demand (Engine.solo_halting hosted (fun _ => false) fuel) demand outward fuel
    rw [ended] at asked
    exact asked.2 rfl

/-! ## Running bodies -/

/-- What the names of a body mean while it is running: its parameters and locals are slots of its
own activation, `in` is the value that this run was started for, and `out` writes to the output of
the activation. -/
structure Machine.Commands (m : Machine) (turn : Turn) : Prop where
  look (index : Nat) (symbol : String) : (Binding.cell turn.scene index).get symbol m =
    match (m.activations.get turn.activation).slots[index]? with
    | some value => (some (.ok value), m)
    | none => (some (.error (.malformedUse s!"no slot for {symbol}")), m)
  store (index : Nat) (symbol : String) (value : Value)
    (within : index < (m.activations.get turn.activation).slots.length) :
    (Binding.cell turn.scene index).set symbol value m =
      (some (.ok ()), { m with
        activations := m.activations.set turn.activation
          { m.activations.get turn.activation with
            slots := (m.activations.get turn.activation).slots.set index value } })
  input (symbol : String) : (Binding.input turn.scene).get symbol m = (some (.ok turn.value), m)
  output (engine : Engine) (value : Value) : writeOnScene engine turn.scene value m =
    ((emit engine (m.activations.get turn.activation).out (.next value) m).1.map fun _ => .ok value,
      (emit engine (m.activations.get turn.activation).out (.next value) m).2)

/-- Whoever came last to a scene commands what the names of the body mean. -/
theorem Machine.Unmixed.commands {m : Machine} (h : m.Unmixed) {scene : Ref .scene} {turn : Turn}
    (newest : m.newest? scene = some turn) : m.Commands turn := by
  have at_scene := List.find?_some newest
  obtain rfl : turn.scene = scene := of_decide_eq_true at_scene
  have on : m.scenes.get turn.scene = some turn.activation := by rw [h.scene, newest]; rfl
  have given := (h.given (List.mem_of_find?_eq_some newest)).2
  have found (symbol : String) : onScene turn.scene symbol m = (some (.ok turn.activation), m) := by
    rw [onScene_apply, on]
  -- Reading a slot, writing one, reading the input, and writing to the output.
  refine ⟨fun index symbol => ?_, fun index symbol value within => ?_, fun symbol => ?_,
    fun engine value => ?_⟩
  · change (onScene turn.scene symbol >>= fun activation => match
      (m.activations.get activation).slots[index]? with
      | some value => pure value
      | none => throw (Failure.malformedUse s!"no slot for {symbol}") : Run Machine Value) m = _
    rw [Run.bind_apply, found]
    dsimp only
    cases (m.activations.get turn.activation).slots[index]? <;> rfl
  · unfold Binding.set
    rw [Run.bind_apply]
    change (onScene turn.scene symbol >>= fun ref =>
      if index < (m.activations.get ref).slots.length then
        modify fun m' : Machine => { m' with
          activations := m'.activations.set ref
            { m.activations.get ref with slots := (m.activations.get ref).slots.set index value } }
      else throw (.malformedUse s!"no slot for {symbol}") : Run Machine Unit) m = _
    rw [Run.bind_apply, found]
    dsimp only
    rw [if_pos within]
    rfl
  · change (onScene turn.scene symbol >>= fun activation =>
      pure (m.activations.get activation).input : Run Machine Value) m = _
    rw [Run.bind_apply, found, ← given]
    rfl
  · rw [writeOnScene_apply, on]

/-- Activations do not mix, wherever a demand is halted, whatever was asked before. On each scene
is the activation whose body came there last, and what that body reads and writes is its own: no
other activation has its output, its input is what this run was started for, and an activation
that is off keeps the slots that its last run has left for the next one. The body of an activation
runs with it on its scene, which has who it had before when the run is over, whether it has failed
or not. -/
theorem InPlay.activations_apart {host : Host} (hosted : soloism.Admits host) {m : Machine}
    (h : InPlay host m) {α : Type} (demand : Demand α) (outward : demand.isOutward)
    (stop : Machine → Bool) (fuel : Nat) :
    let m' := (demand.run (.halting host stop fuel) fuel m).2
    m'.Unmixed ∧
    (∀ scene turn, m'.newest? scene = some turn →
      m'.scenes.get scene = some turn.activation ∧ m'.Commands turn) ∧
    (∀ engine scene, performEmit engine scene =
      engine.read .whole >>= fun value => onMachine (writeOnScene engine scene value)) ∧
    ∀ engine activation value,
      let scene := (m'.activations.get activation).scene
      let ran := engine.execute (m'.activations.get activation).body (m'.staged activation value)
      (m'.staged activation value).newest? scene = some ⟨activation, scene, value⟩ ∧
      ((m'.staged activation value).activations.get activation).slots =
        (m'.activations.get activation).slots ∧
      (runBody engine activation value m').1 = ran.1.map (·.map fun _ => ()) ∧
      ∀ result m'', runBody engine activation value m' = (some result, m'') →
        m''.scenes.get scene = m'.scenes.get scene ∧
        (m''.activations.get activation).left = (ran.2.activations.get activation).slots ∧
        (m''.activations.get activation).slots = (ran.2.activations.get activation).slots := by
  intro m'
  have unmixed : m'.Unmixed :=
    ((h.idle hosted).demand (Engine.solo_halting hosted stop fuel) demand outward fuel).1
  refine ⟨unmixed, fun scene turn newest => ⟨?_, unmixed.commands newest⟩, fun _ _ => rfl,
    fun engine activation value => ?_⟩
  · rw [unmixed.scene, newest]
    rfl
  · intro scene ran
    -- The body is run by whoever is newest on the scene, with the slots that it had.
    refine ⟨?_, ?_, congrArg Prod.fst (runBody_apply engine activation value m'),
      fun result m'' ended => ?_⟩
    · rw [Machine.newest?, Machine.turns_staged, List.find?_cons, decide_eq_true rfl]
    · change ((m'.activations.set activation _).get activation).slots = _
      rw [Arena.get_set, if_pos rfl]
      rfl
    · rw [runBody_apply] at ended
      change (ran.1.map _, (whenEnded _ ran).2) = _ at ended
      -- Leaving the scene gives it back and keeps the slots, also as what was left.
      clear_value ran
      obtain ⟨_ | _, m₁⟩ := ran <;> cases ended
      change (m₁.scenes.set scene _).get scene = _ ∧
        ((m₁.activations.set activation _).get activation).left = _ ∧
        ((m₁.activations.set activation _).get activation).slots = _
      rw [Arena.get_set, Arena.get_set, if_pos rfl, if_pos rfl]
      exact ⟨rfl, rfl, rfl⟩

/-- A machine that has the library and a source that writes value by value. -/
def Machine.ticking : Machine :=
  let (tick, m) := Machine.stocked.newNative (.host "tick")
  m.assign m.root "tick" tick

theorem inPlay_ticking : InPlay toolkit .ticking := by
  have bearings := Machine.bearings_installLibrary (.ofConfig .standard)
  have footing : Machine.ticking.footing = (Machine.ofConfig .standard).footing :=
    congrArg (·.1) bearings
  have plumbing : Machine.ticking.plumbing = (Machine.ofConfig .standard).plumbing :=
    congrArg (·.2.1) bearings
  have channels : Machine.ticking.channels = (Machine.ofConfig .standard).channels :=
    congrArg Machine.Plumbing.channels plumbing
  have channel_eq (x : Ref .channel) :
      Machine.ticking.channel x = (Machine.ofConfig .standard).channel x :=
    congrArg (Arena.get · x) channels
  have cast : Machine.ticking.cast = (Machine.ofConfig .standard).cast :=
    Prod.ext (congrArg Machine.Footing.scenes footing)
      (Prod.ext (congrArg Machine.Footing.turns footing) rfl)
  exact .prepare (.new .standard) cast (fun has => channels ▸ has) (fun x => by rw [channel_eq])
    (fun x => by rw [channel_eq]) (congrArg Machine.Plumbing.stages plumbing)
    (congrArg Machine.Plumbing.suspensions plumbing) (congrArg Machine.Plumbing.tasks plumbing)

/-- A pipe of three parts, the second and the third of one streaming procedure. -/
def repeatedText : String :=
  "proc: native [params body] :core/proc source: native [first second] tick
  f: proc [/in /out /local last] [out in last: in] pipe pipe source \"a\" \"b\" f f"

/-- The pipe is made, and waits to be settled. -/
def Machine.repeated : Option (Except Failure Value) × Machine :=
  (Demand.evaluate repeatedText).run (.ofFuel toolkit 20) 20 .ticking

/-- Whether two bodies are running and the second activation has run before. -/
def Machine.repeats (m : Machine) : Bool :=
  m.turns.length = 2 ∧ (m.activations.get ⟨1⟩).left.map Value.typeName = ["string"]

theorem repeated_running :
    let m' := ((Demand.settle []).run (.halting toolkit Machine.repeats 30) 30 Machine.repeated.2).2
    Machine.repeated.1.isSome ∧
      m'.turns.map (fun turn => (turn.activation, turn.scene)) = [(⟨1⟩, ⟨0⟩), (⟨0⟩, ⟨0⟩)] ∧
      (m'.newest? ⟨0⟩).map Turn.activation = some ⟨1⟩ := by
  decide +kernel

/-- The body of the third part is running for the second value in the middle of that of the second
part. -/
theorem InPlay.activations_apart_of_repeated :
    let m' := ((Demand.settle []).run (.halting toolkit Machine.repeats 30) 30 Machine.repeated.2).2
    m'.turns.map (fun turn => (turn.activation, turn.scene)) = [(⟨1⟩, ⟨0⟩), (⟨0⟩, ⟨0⟩)] ∧
      m'.scenes.get ⟨0⟩ = some ⟨1⟩ ∧ m'.Unmixed ∧
      ∀ turn, m'.newest? ⟨0⟩ = some turn → m'.Commands turn := by
  obtain ⟨done, running, newest⟩ := repeated_running
  have before : InPlay toolkit Machine.repeated.2 :=
    inPlay_ticking.ask (.evaluate repeatedText) rfl 20 done
  obtain ⟨unmixed, commands, -⟩ :=
    before.activations_apart (Discipline.admits_toolkit soloPractice.isLax)
    (.settle []) rfl Machine.repeats 30
  exact ⟨running, (unmixed.scene ⟨0⟩).trans newest, unmixed,
    fun turn on => (commands ⟨0⟩ turn on).2⟩

end Wordstream
