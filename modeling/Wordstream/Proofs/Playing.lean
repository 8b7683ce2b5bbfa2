import Wordstream.Proofs.Activations
import Wordstream.Proofs.Demand

/-!
# Evaluation does not mix activations

Whatever evaluation does, every activation has one keeper and every scene is given back to who was
there. Handing over is where bodies are run. The listener of a channel counts as free when the
channel is handed over, for it has done with what it was busy with, and it is busy from then on:
if it is a stage, the activation that it keeps is off when its body is run, and nobody else can
run it meanwhile.

This holds wherever evaluation stops, with some bodies running.

## Main results

* `Machine.Sole.runBody` — running a body
* `SoloHands.deliverAll` — handing over
* `Engine.solo_halting` — evaluation, wherever it is halted
-/

namespace Wordstream

open HasMachine (machine)

/-! ## Outcomes -/

namespace Machine

/-- The outcome of something that began in a machine: wherever it has stopped activations are
unmixed; if it has ended, each has its keeper, and what was going on before is spared. -/
def Ensures {σ α : Type} [HasMachine σ] (past : Option (Ref .task)) (m : Machine)
    (outcome : Option α × σ) : Prop :=
  (machine outcome.2).Unmixed ∧
    (outcome.1.isSome → (machine outcome.2).Sole past ∧ m.Spares (machine outcome.2))

namespace Ensures

variable {σ α β : Type} [HasMachine σ] {past : Option (Ref .task)} {m m' : Machine}

theorem of_sole {outcome : Option α × σ}
    (h : (machine outcome.2).Sole past ∧ m.Spares (machine outcome.2)) : m.Ensures past outcome :=
  ⟨h.1.toUnmixed, fun _ => h⟩

/-- What has ended. -/
theorem ended {result : α} {state : σ} (h : m.Ensures past (some result, state)) :
    (machine state).Sole past ∧ m.Spares (machine state) := h.2 rfl

/-- What began later began earlier, if all has been spared meanwhile. -/
theorem rebase {outcome : Option α × σ} (h : m'.Ensures past outcome) (spares : m.Spares m') :
    m.Ensures past outcome :=
  ⟨h.1, fun ended => ⟨(h.2 ended).1, spares.trans (h.2 ended).2⟩⟩

/-- The result is no matter. -/
theorem map {outcome : Option α × σ} (h : m.Ensures past outcome) (change : α → β) :
    m.Ensures past (outcome.1.map change, outcome.2) :=
  ⟨h.1, fun ended => h.2 (by rwa [Option.isSome_map] at ended)⟩

/-- One effect after another. -/
theorem bind {first : Effect σ α} {next : α → Effect σ β} {state : σ}
    (before : m.Ensures past (first state))
    (after : ∀ result state', (machine state').Sole past → m.Spares (machine state') →
      m.Ensures past (next result state')) : m.Ensures past ((first >>= next) state) := by
  rw [Effect.bind_apply]
  generalize first state = outcome at before
  obtain ⟨_ | result, state'⟩ := outcome
  · exact ⟨before.1, nofun⟩
  · exact after result state' before.ended.1 before.ended.2

/-- What is done to a machine when something has ended. -/
theorem whenEnded {outcome : Option α × Machine} (h : m.Ensures past outcome)
    {finish : Machine → Machine}
    (after : ∀ m₁ : Machine, m₁.Sole past → m.Spares m₁ → (finish m₁).Sole past ∧
      m'.Spares (finish m₁)) :
    m'.Ensures past (Wordstream.whenEnded finish outcome) := by
  obtain ⟨_ | result, m₁⟩ := outcome
  · exact ⟨h.1, nofun⟩
  · exact .of_sole (after m₁ h.ended.1 h.ended.2)

end Ensures

end Machine

/-- What keeps activations apart does so step by step. -/
def soloing : Congruence where
  Fits action _ := ∀ past state, (machine state).Sole past →
    (machine state).Ensures past (action state)
  stir h _ state sole := .of_sole (sole.stir (h state))
  bind before after past state sole :=
    (before past state sole).bind fun result state' sole' spares =>
    (after result past state' sole').rebase spares
  onMachine h past reader sole := h past reader.machine sole
  withCursor h cursor past m sole := h past ⟨m, cursor⟩ sole

/-- Handing over keeps activations apart. The listener counts as free before: what it is busy with
is done when it is handed something else. -/
def SoloHands (c : Ref .channel) (action : Effect Machine Unit) : Prop :=
  ∀ (past : Option (Ref .task)) (m : Machine), (m.released c).Sole past →
    (m.released c).Ensures past (action m)

/-- Who is set free has the activations of a machine as they were. -/
theorem Machine.Sole.unmixed_released {past : Option (Ref .task)} {m : Machine} {c : Ref .channel}
    (h : (m.released c).Sole past) : m.Unmixed := h.toUnmixed.of_cast rfl

namespace Solo

/-! ## Computations -/

/-- A change that leaves activations and signals alone. -/
theorem change {change : Machine → Machine} (cast : ∀ m, (change m).cast = m.cast)
    (plumbing : ∀ m, (change m).plumbing = m.plumbing) :
    soloing.Allows (modify change : Run Machine PUnit) :=
  fun _ m sole => .of_sole (sole.aside (cast m) (plumbing m))

variable {engine : Engine}

theorem runFrame (h : ∀ code, soloing.Allows (engine.execute code)) (ref : Ref .frame)
    (args : List Value) : soloing.Allows (runFrame engine ref args) := by
  intro past m sole
  rw [runFrame_apply]
  split
  · exact .of_sole ⟨sole, .refl m⟩
  · have ⟨entered, spares⟩ : (m.enter ref args).Sole past ∧ m.Spares (m.enter ref args) :=
      sole.aside rfl rfl
    refine (h _ past _ entered).whenEnded fun m₁ sole₁ spares₁ => ?_
    have ⟨left, spares'⟩ : m₁.leave.Sole past ∧ m₁.Spares m₁.leave := by
      unfold Machine.leave
      cases m₁.calls <;> exact sole₁.aside rfl rfl
    exact ⟨left, spares.trans (spares₁.trans spares')⟩

theorem resume (ref : Ref .suspension) (input : Option (Ref .channel)) :
    soloing.Allows (resume ref input) := by
  intro past m sole
  have same : m.Sole past ∧ m.Spares m := ⟨sole, .refl m⟩
  rw [resume_apply]
  split
  · exact .of_sole same
  · next created =>
    split
    · exact .of_sole same
    · cases pending : (m.suspension ref).work with
      | none => exact .of_sole same
      | some work => exact .of_sole (sole.startTask input (Decidable.not_not.1 created) pending)

theorem autoResume (value : Value) : soloing.Allows (autoResume value) := by
  unfold Wordstream.autoResume
  split
  · exact (resume _ none).andThen fun task => .andThen (change (fun _ => rfl) fun _ => rfl) fun _ =>
      soloing.allows_done _
  · exact soloing.allows_done _

theorem keepResult (value : Value) : soloing.Allows (keepResult value) :=
  .andThen (soloing.onMachine (change (fun _ => rfl) fun _ => rfl)) fun _ => soloing.allows_done _

theorem suspend {work : Work} (alien : ∀ activation, work ≠ .body activation) (acceptsInput : Bool)
    (mime : Option String) : soloing.Allows (suspend work acceptsInput mime) := by
  intro past m sole
  obtain ⟨sole₁, spares⟩ := sole.newChannel
  obtain ⟨sole₂, spares'⟩ :=
    sole₁.suspend ⟨.created, some work, m.channels.next, acceptsInput, mime⟩
    fun activation same => alien activation (Option.some.inj same)
  exact .of_sole ⟨sole₂, spares.trans spares'⟩

theorem suspendBody (definition : StreamDefinition) (args : List Value) :
    soloing.Allows (suspendBody definition args) := by
  intro past m sole
  exact .of_sole (sole.suspendBody rfl rfl rfl rfl rfl rfl rfl)

section Signals

variable (h : ∀ ref, SoloHands ref (engine.deliver ref))

include h

theorem emit (c : Ref .channel) (signal : Signal) : soloing.Allows (emit engine c signal) := by
  intro past m sole
  obtain ⟨accepted, spares⟩ := sole.accept c signal
  rw [emit_apply]
  split
  · next due =>
    have free : ((m.setChannel c ((m.channel c).accept signal)).channel c).isBusy = false := by
      rw [Machine.channel_setChannel, if_pos rfl, Channel.isBusy_accept]
      exact Channel.isBusy_of_mustDeliver due
    have same := Machine.released_of_free (m := m.setChannel c ((m.channel c).accept signal))
      (Arena.has_set ..) free
    have handed := h c past (m.setChannel c ((m.channel c).accept signal)) (same.symm ▸ accepted)
    rw [same] at handed
    exact handed.rebase spares
  · exact .of_sole ⟨accepted, spares⟩

/-- Listening, for who is no stage or a stage that listens nowhere. -/
theorem ensures_subscribe {past : Option (Ref .task)} {m : Machine} (sole : m.Sole past)
    {c : Ref .channel} {listener : Listener} (stage : ∀ stage, listener = .stage stage →
      m.stages.Has stage ∧ ∀ x, (m.channel x).listener? ≠ some (.stage stage)) :
    m.Ensures past (subscribe engine c listener m) := by
  rw [subscribe_apply]
  cases free : (m.channel c).attach? listener with
  | none => exact .of_sole ⟨sole, .refl m⟩
  | some channel =>
    obtain ⟨attached, spares⟩ := sole.attach free stage
    have idle : ((m.setChannel c channel).channel c).isBusy = false := by
      rw [Machine.channel_setChannel, if_pos rfl, (Channel.of_attach? free).2]
      rfl
    have same := Machine.released_of_free (m := m.setChannel c channel) (Arena.has_set ..) idle
    have handed := h c past (m.setChannel c channel) (same.symm ▸ attached)
    rw [same] at handed
    exact (handed.rebase spares).map _

theorem subscribe (c : Ref .channel) {listener : Listener}
    (stageless : ∀ stage, listener ≠ .stage stage) :
    soloing.Allows (subscribe engine c listener) :=
  fun _ _ sole => ensures_subscribe h sole fun stage same => absurd same (stageless stage)

theorem pipe (left right : Ref .suspension) : soloing.Allows (pipe engine left right) := by
  refine soloing.allows_read.andThen fun m => ?_
  dsimp only
  split
  · exact soloing.allows_throw _
  · split
    · exact soloing.allows_throw _
    · refine .andThen (fun _ _ sole => .of_sole sole.newChannel) fun relay =>
        (subscribe h _ fun _ => Listener.noConfusion).andThen fun _ _ _ sole =>
          .of_sole (sole.suspend _ fun _ same => by cases same)

end Signals

end Solo

/-- Keeping activations apart, while evaluation goes on and where signals are handed over. -/
def soloPractice : soloing.Practice where
  Hands c action _ := SoloHands c action
  enlist := Solo.autoResume
  keep := Solo.keepResult
  frame := Solo.runFrame
  suspend alien := Solo.suspend fun _ same => by subst same; cases alien
  suspendBody := Solo.suspendBody
  emit h out _ := Solo.emit h out _
  pipe := Solo.pipe

/-- The discipline of keeping activations apart. -/
def soloism : Discipline := soloPractice.discipline

/-! ## Bodies -/

section Delivery

variable {engine : Engine} (h : soloism.Relates engine engine)

/-- The machine in which the body of an activation is run for a value. -/
def Machine.staged (m : Machine) (ref : Ref .activation) (value : Value) : Machine :=
  ({ m with activations := m.activations.set ref ((m.activations.get ref).give value) } :
    Machine).mount (m.activations.get ref).scene ref

/-- The newest run is that of the body for the value. -/
theorem Machine.turns_staged (m : Machine) (ref : Ref .activation) (value : Value) :
    (m.staged ref value).turns = ⟨ref, (m.activations.get ref).scene, value⟩ :: m.turns := by
  change ⟨ref, _, ((m.activations.set ref _).get ref).input⟩ :: m.turns = _
  rw [Arena.get_set, if_pos rfl]
  rfl

/-- The body of an activation is run on its scene, which is given back however it ends. -/
theorem runBody_apply (engine : Engine) (ref : Ref .activation) (value : Value) (m : Machine) :
    runBody engine ref value m =
      ((engine.execute (m.activations.get ref).body (m.staged ref value)).1.map (·.map fun _ => ()),
        (whenEnded (·.dismount (m.activations.get ref).scene ref
          (m.scenes.get (m.activations.get ref).scene))
          (engine.execute (m.activations.get ref).body (m.staged ref value))).2) := by
  change (withScene (m.activations.get ref).scene ref
    (engine.execute (m.activations.get ref).body) >>= fun _ => pure () : Run Machine Unit)
      { m with activations := m.activations.set ref ((m.activations.get ref).give value) } = _
  rw [Run.bind_apply, withScene_apply]
  unfold Machine.staged
  generalize engine.execute (m.activations.get ref).body _ = outcome
  obtain ⟨_ | (_ | _), m'⟩ := outcome <;> rfl

include h

/-- A body is run for an activation that is off and whose keeper may be running it. -/
theorem Machine.Sole.runBody {past : Option (Ref .task)} {m : Machine} (sole : m.Sole past)
    {ref : Ref .activation} (off : m.Off ref) (played : m.Played past ref) (value : Value) :
    m.Ensures past (runBody engine ref value m) := by
  obtain ⟨keeper, keeps, _⟩ := id played
  have known := (sole.kept keeps).1
  have given := sole.give known off value
  have scene_eq : ((m.activations.set ref ((m.activations.get ref).give value)).get ref).scene =
      (m.activations.get ref).scene := by
    rw [Arena.get_set, if_pos rfl]
    rfl
  have staged : (m.staged ref value).Sole past := by
    unfold Machine.staged
    rw [← scene_eq]
    exact given.mount off played
  have ran := h.execute (m.activations.get ref).body past (m.staged ref value) staged
  rw [runBody_apply]
  have ended : m.Ensures past (whenEnded (·.dismount (m.activations.get ref).scene ref
      (m.scenes.get (m.activations.get ref).scene))
      (engine.execute (m.activations.get ref).body (m.staged ref value))) := by
    refine ran.whenEnded fun m₁ sole₁ spares => ?_
    -- Bodies that were started meanwhile have ended, so this one is the newest again.
    have turns : m₁.turns = ⟨ref, (m.activations.get ref).scene, value⟩ :: m.turns :=
      spares.turns.trans (m.turns_staged ref value)
    refine ⟨sole₁.dismount sole.toUnmixed turns, spares.listener, spares.busy, ?_, spares.stage,
      spares.task⟩
    change m₁.turns.tail = m.turns
    rw [turns]
    rfl
  -- Dropping the value of the body makes no difference to whether it has ended.
  refine ⟨ended.1, fun done => ended.2 ?_⟩
  generalize engine.execute (m.activations.get ref).body (m.staged ref value) = outcome at done
  obtain ⟨_ | _, _⟩ := outcome
  · exact done
  · rfl

/-! ## Listeners -/

omit h in
theorem Solo.modifyProbe (ref : Ref .probe) (change : Probe → Probe) :
    soloing.Allows (modifyProbe ref change) := fun _ _ sole =>
  .of_sole (sole.beside rfl id (fun _ => rfl) (fun _ => rfl) rfl rfl rfl)

variable {past : Option (Ref .task)} {m : Machine}

omit h in
/-- A stage gets its result, if it has none. -/
theorem Machine.Sole.ensures_finishStage (sole : m.Sole past) {stage : Ref .stage}
    (has : m.stages.Has stage) (result : Result) :
    m.Ensures past (Wordstream.finishStage stage result m) := by
  cases given : (m.stages.get stage).result with
  | none =>
    rw [finishStage_of_none result given]
    exact .of_sole (sole.finishStage has _ true)
  | some _ =>
    rw [finishStage_of_some result given]
    exact .of_sole ⟨sole, .refl m⟩

/-- A stage tells its output how it has ended, and gets its result. -/
theorem Machine.Sole.endStage (sole : m.Sole past) {stage : Ref .stage} (has : m.stages.Has stage)
    (out : Ref .channel) (signal : Signal) (result : Result) :
    m.Ensures past
      ((Wordstream.emit engine out signal >>= fun _ => Wordstream.finishStage stage result) m) :=
  (Solo.emit h.deliver out signal past m sole).bind fun _ _ sole₁ spares =>
    (sole₁.ensures_finishStage (spares.stage has).1 result).rebase spares

/-- A stage that is handed a signal runs its step for it; the activation that it keeps is off. -/
theorem Machine.Sole.deliverToStage (sole : m.Sole past) {c : Ref .channel}
    (free : (m.released c).Sole past) {stage : Ref .stage}
    (hears : (m.channel c).listener? = some (.stage stage)) (busy : (m.channel c).isBusy)
    (signal : Signal) : m.Ensures past (Wordstream.deliverToStage engine stage signal m) := by
  have has := sole.stage hears
  cases signal with
  | failed failure => exact sole.endStage h has _ _ _
  | complete => exact sole.endStage h has _ _ _
  | next value =>
    rw [deliverToStage_next]
    split
    · have ran : m.Ensures past (runStep engine (m.stages.get stage) value m) := by
        unfold runStep
        cases step : (m.stages.get stage).step with
        | body activation =>
          exact sole.runBody h (free.off hears step) ⟨.stage stage, ⟨has, step⟩, c, hears,
            busy⟩ value
        | call native args => exact Congruence.Practice.runCall h _ _ _ past m sole
      refine ran.bind fun result m₁ sole₁ spares => ?_
      cases result with
      | ok _ => exact .of_sole ⟨sole₁, spares⟩
      | error failure => exact (sole₁.endStage h (spares.stage has).1 _ _ _).rebase spares
    · exact .of_sole ⟨sole, .refl m⟩

/-- Whoever is handed a signal is done with it behind that, and can be set free. -/
theorem Machine.Sole.deliverTo (sole : m.Sole past) {c : Ref .channel}
    (free : (m.released c).Sole past) {listener : Listener}
    (hears : (m.channel c).listener? = some listener) (busy : (m.channel c).isBusy)
    (signal : Signal) : m.Ensures past (Wordstream.deliverTo engine listener signal m) := by
  cases listener with
  | stage stage => exact sole.deliverToStage h free hears busy signal
  | collector ref => exact .of_sole (sole.beside rfl id (fun _ => rfl) (fun _ => rfl) rfl rfl rfl)
  | probe ref =>
    exact Congruence.deliverToProbe Solo.modifyProbe (Solo.emit h.deliver)
      (fun c _ => Solo.subscribe h.deliver c fun _ => Listener.noConfusion) ref signal past m sole
  | forward target => exact Solo.emit h.deliver target signal past m sole

/-- Handing over what waits on a channel keeps activations apart. -/
theorem SoloHands.deliverAll (c : Ref .channel) : SoloHands c (deliverAll engine c) := by
  intro past m free
  rw [deliverAll_apply]
  cases taken : (m.channel c).take? with
  | none => exact .of_sole ⟨free, .refl _⟩
  | some next =>
    obtain ⟨listener, signal, channel⟩ := next
    obtain ⟨hears, rest, _, channel_def⟩ := Channel.of_take? taken
    have listener_eq : channel.listener? =
        (m.channel c).listener? := by rw [hears, channel_def]; rfl
    have busy_eq : channel.isBusy := by rw [channel_def]; rfl
    let m₁ := m.setChannel c channel
    have at_c : m₁.channel c = channel := (m.channel_setChannel c c channel).trans (if_pos rfl)
    have sole : m₁.Sole past := free.engage listener_eq busy_eq
    -- Apart from what waits, the channel is as it was when its listener is set free.
    obtain ⟨free₁, spares₁⟩ : (m₁.released c).Sole past ∧
        (m.released c).Spares (m₁.released c) := by
      have has : m.channels.Has c := Arena.has_of_get_ne fun none => by
        change m.channel c = _ at none
        rw [none] at hears
        cases hears
      refine free.beside rfl (fun known => ((Arena.has_of_set has known).set c _).set c _)
        (fun x => ?_) (fun x => ?_) rfl rfl rfl
      · rw [Machine.listener?_released, Machine.listener?_released, Machine.channel_setChannel]
        split
        · next same => rw [same, listener_eq]
        · rfl
      · rw [Machine.isBusy_released, Machine.isBusy_released, Machine.channel_setChannel]
        split <;> rfl
    have handed :=
      sole.deliverTo h free₁ ((congrArg Channel.listener? at_c).trans (listener_eq.trans hears))
      ((congrArg Channel.isBusy at_c).trans busy_eq) signal
    dsimp only
    rw [Effect.bind_apply]
    change m₁.Ensures past (Wordstream.deliverTo engine listener signal m₁) at handed
    generalize Wordstream.deliverTo engine listener signal m₁ = outcome at handed
    obtain ⟨_ | result, m₂⟩ := outcome
    · exact ⟨handed.1, nofun⟩
    · obtain ⟨sole₂, spares₂⟩ := handed.ended
      have spares₂ := spares₂.release c
      have free₂ : (m₂.released c).Sole past := Machine.Sole.release sole₂ fun {turn} on =>
        spares₂.played (free₁.played (show turn ∈ m₁.turns from spares₂.turns ▸ on))
      exact (h.deliver c past m₂ free₂).rebase (spares₁.trans spares₂)

end Delivery

/-! ## Engines -/

/-- Do something, but stop where a condition on the machine holds before it or after it. -/
def unlessHalted {σ α : Type} [HasMachine σ] (stop : Machine → Bool) (action : Effect σ α) :
    Effect σ α := fun state =>
  if stop (machine state) then (none, state)
  else if stop (machine (action state).2) then (none, (action state).2)
  else action state

/-- Stopping takes nothing away from what holds where something stops. -/
theorem Machine.Ensures.unlessHalted {σ α : Type} [HasMachine σ] {past : Option (Ref .task)}
    {m : Machine}
    {action : Effect σ α} {state : σ} (h : m.Ensures past (action state)) (stop : Machine → Bool)
    (unmixed : (machine state).Unmixed) :
    m.Ensures past (Wordstream.unlessHalted stop action state) := by
  unfold Wordstream.unlessHalted
  split
  · exact ⟨unmixed, nofun⟩
  · split
    · exact ⟨h.1, nofun⟩
    · exact h

namespace Engine

/-- Stop at the beginning or the end of each call where a condition on the machine holds. -/
def haltedBy (stop : Machine → Bool) (engine : Engine) : Engine where
  execute code := unlessHalted stop (engine.execute code)
  read reading := unlessHalted stop (engine.read reading)
  deliver ref := unlessHalted stop (engine.deliver ref)
  call native args := unlessHalted stop (engine.call native args)
  hostAction name := unlessHalted stop (engine.hostAction name)
  hostOperator name left right := unlessHalted stop (engine.hostOperator name left right)

/-- The calls that some fuel allows, up to the first beginning or end of one where a condition on
the machine holds. -/
def halting (host : Host) (stop : Machine → Bool) : Nat → Engine
  | 0 => exhausted
  | fuel + 1 => (step host (halting host stop fuel)).haltedBy stop

/-- If nothing halts them the calls are those that the fuel allows. -/
theorem halting_never (host : Host) (fuel : Nat) :
    halting host (fun _ => false) fuel = ofFuel host fuel := by
  induction fuel with
  | zero => rfl
  | succ fuel ih => rw [ofFuel_succ, ← ih]; rfl

theorem solo_exhausted : soloism.Relates exhausted exhausted := by
  have never {σ α : Type} [HasMachine σ] : soloing.Allows (outOfFuel : Run σ α) :=
    fun _ _ sole => ⟨sole.toUnmixed, nofun⟩
  have undelivered (c : Ref .channel) : SoloHands c outOfFuel :=
    fun _ _ sole => ⟨sole.unmixed_released, nofun⟩
  exact ⟨fun _ => never, fun _ _ => never, never, undelivered, fun _ _ _ => never, fun _ => never,
    fun _ _ _ _ _ => never⟩

/-- An engine that is halted somewhere. -/
theorem solo_haltedBy {engine : Engine} (h : soloism.Relates engine engine)
    (stop : Machine → Bool) : soloism.Relates (engine.haltedBy stop) (engine.haltedBy stop) := by
  have halted {σ α : Type} [HasMachine σ] {action : Run σ α} (h : soloing.Allows action) :
      soloing.Allows (unlessHalted stop action) :=
    fun past state sole => (h past state sole).unlessHalted stop sole.toUnmixed
  have handed (c : Ref .channel) : SoloHands c (unlessHalted stop (engine.deliver c)) :=
    fun past m sole => (h.deliver c past m sole).unlessHalted stop sole.unmixed_released
  exact ⟨fun code => halted (h.execute code), fun reading use => halted (h.read reading use),
    halted h.deferred, handed, fun native args free => halted (h.call native args free),
    fun name => halted (h.hostAction name), fun name left right freeLeft freeRight =>
      halted (h.hostOperator name left right freeLeft freeRight)⟩

/-- Evaluation keeps activations apart, wherever it is halted. -/
theorem solo_halting {host : Host} (hosted : soloism.Admits host) (stop : Machine → Bool)
    (fuel : Nat) : soloism.Relates (halting host stop fuel) (halting host stop fuel) := by
  induction fuel with
  | zero => exact solo_exhausted
  | succ fuel ih => exact solo_haltedBy (ih.step hosted fun c => .deliverAll ih c) stop

end Engine

end Wordstream
