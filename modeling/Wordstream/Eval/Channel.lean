import Wordstream.Eval.Scope
import Wordstream.Machine.Show

/-!
# Signals on channels

A signal that is written to a channel is accepted, and handed over if the listener is free. Handing
over goes on until nothing waits; what the listener writes to the same channel meanwhile joins the
backlog and is taken by the loop that is running already.
-/

namespace Wordstream

/-- Change the channel at a reference. -/
def modifyChannel (ref : Ref .channel) (change : Channel → Channel) : Effect Machine Unit :=
  modify fun m => m.setChannel ref (change (m.channel ref))

/-- Write a signal to a channel. -/
def emit (engine : Engine) (ref : Ref .channel) (signal : Signal) : Effect Machine Unit := do
  -- This is settled beforehand: a terminal signal closes the channel as it is accepted.
  let mustDeliver := ((← get).channel ref).mustDeliver
  modifyChannel ref (·.accept signal)
  if mustDeliver then engine.deliver ref

/-- A signal that is written is accepted, and handed over if the listener is free. -/
theorem emit_apply (engine : Engine) (ref : Ref .channel) (signal : Signal) (m : Machine) :
    emit engine ref signal m =
      if (m.channel ref).mustDeliver then
        engine.deliver ref (m.setChannel ref ((m.channel ref).accept signal))
      else (some (), m.setChannel ref ((m.channel ref).accept signal)) := by
  change (ite _ _ _ : Effect Machine Unit) _ = _
  split <;> rfl

/-- Attach a listener to a channel and hand over what the channel kept for it. -/
def subscribe (engine : Engine) (ref : Ref .channel) (listener : Listener) : Run Machine Unit := do
  match ((← get).channel ref).attach? listener with
  | some channel =>
    modifyChannel ref fun _ => channel
    engine.deliver ref
  | none => throw .alreadySubscribed

/-- Who listens first is handed what was kept; everybody else is refused, and nothing changes. -/
theorem subscribe_apply (engine : Engine) (ref : Ref .channel) (listener : Listener)
    (m : Machine) :
    subscribe engine ref listener m =
      match (m.channel ref).attach? listener with
      | some channel =>
        ((engine.deliver ref (m.setChannel ref channel)).1.map .ok,
          (engine.deliver ref (m.setChannel ref channel)).2)
      | none => (some (.error .alreadySubscribed), m) := by
  rw [subscribe, Run.bind_apply]
  change (match (m.channel ref).attach? listener with
    | some channel => modifyChannel ref (fun _ => channel) >>= fun _ => engine.deliver ref
    | none => throw Failure.alreadySubscribed : Run Machine Unit) m = _
  cases (m.channel ref).attach? listener with
  | some channel => exact Run.lift_apply (engine.deliver ref) (m.setChannel ref channel)
  | none => rfl

/-- Nobody can listen to a channel that has a listener, and trying changes nothing. -/
theorem subscribe_of_isSubscribed (engine : Engine) {ref : Ref .channel} (listener : Listener)
    {m : Machine} (subscribed : (m.channel ref).isSubscribed) :
    subscribe engine ref listener m = (some (.error .alreadySubscribed), m) := by
  obtain ⟨other, busy, attached⟩ := Channel.exists_listener subscribed
  have taken : (m.channel ref).attach? listener = none := by
    simp [Channel.attach?, attached]
  rw [subscribe_apply, taken]

/-- Do something with an activation on scene. Whatever was there before is there again afterwards,
however it ends. -/
def withScene {α : Type} (scene : Ref .scene) (activation : Ref .activation)
    (action : Run Machine α) : Run Machine α := do
  let previous := (← get).scenes.get scene
  modify (·.mount scene activation)
  let result ← attempt action
  modify (·.dismount scene activation previous)
  settleWith result

/-- What is done with an activation on scene ends where it would, and the scene is given back. -/
theorem withScene_apply {α : Type} (scene : Ref .scene) (activation : Ref .activation)
    (action : Run Machine α) (m : Machine) :
    withScene scene activation action m =
      whenEnded (·.dismount scene activation (m.scenes.get scene))
        (action (m.mount scene activation)) := by
  change (attempt action >>= _ : Run Machine α) (m.mount scene activation) = _
  rw [Run.bind_apply, attempt]
  rcases action (m.mount scene activation) with ⟨_ | result, m'⟩ <;> rfl

/-- Run the body of an activation, which is on scene meanwhile, for one value. -/
def runBody (engine : Engine) (ref : Ref .activation) (value : Value) : Run Machine Unit := do
  let activation := (← get).activations.get ref
  modify fun m => { m with activations := m.activations.set ref (activation.give value) }
  let _ ← withScene activation.scene ref (engine.execute activation.body)

/-- Call a function and write its value to a channel. A failure of the function is one of the host.
-/
def runCall (engine : Engine) (out : Ref .channel) (native : Native) (args : List Value) :
    Run Machine Unit := do
  match ← attempt (engine.call native args) with
  | .ok value => emit engine out (.next value)
  | .error failure => throw failure.asHostFailure

/-- What a stage does for one value. -/
def runStep (engine : Engine) (stage : Stage) (value : Value) : Run Machine Unit :=
  match stage.step with
  | .body activation => runBody engine activation value
  | .call native args => runCall engine stage.out native (args ++ [value])

/-- Give a stage its result, unless it has one. The task that waits for it can go on. -/
def finishStage (ref : Ref .stage) (result : Result) : Effect Machine Unit :=
  modify fun m =>
    let stage := m.stages.get ref
    match stage.result with
    | none => { m with
        stages := m.stages.set ref { stage with result := some result }
        woken := true }
    | some _ => m

/-- A stage that has no result gets one, and its task can go on. -/
theorem finishStage_of_none {ref : Ref .stage} (result : Result) {m : Machine}
    (waiting : (m.stages.get ref).result = none) :
    finishStage ref result m = (some (), { m with
      stages := m.stages.set ref { m.stages.get ref with result := some result }
      woken := true }) := by
  change (some (), match (m.stages.get ref).result with
    | none => { m with
        stages := m.stages.set ref { m.stages.get ref with result := some result }
        woken := true }
    | some _ => m) = _
  rw [waiting]

/-- A stage that has a result keeps it. -/
theorem finishStage_of_some {ref : Ref .stage} (result : Result) {m : Machine} {given : Result}
    (ended : (m.stages.get ref).result = some given) : finishStage ref result m = (some (), m) := by
  change (some (), match (m.stages.get ref).result with
    | none => { m with
        stages := m.stages.set ref { m.stages.get ref with result := some result }
        woken := true }
    | some _ => m) = _
  rw [ended]

/-- Hand a signal to a stage. Values are dropped once it has a result; a failing step ends it. -/
def deliverToStage (engine : Engine) (ref : Ref .stage) (signal : Signal) :
    Effect Machine Unit := do
  let stage := (← get).stages.get ref
  match signal with
  | .next value =>
    if stage.result.isNone then
      match ← outcome (runStep engine stage value) with
      | .ok _ => pure ()
      | .error failure =>
        -- The output hears of it before the task that waits for the stage does.
        emit engine stage.out (.failed failure)
        finishStage ref (.error failure)
  | .failed failure =>
    emit engine stage.out (.failed failure)
    finishStage ref (.error failure)
  | .complete =>
    emit engine stage.out .complete
    finishStage ref (.ok ())

/-- A value is taken by a step unless the stage has a result; where the step fails, the stage
ends. -/
theorem deliverToStage_next (engine : Engine) (ref : Ref .stage) (value : Value) (m : Machine) :
    deliverToStage engine ref (.next value) m =
      if (m.stages.get ref).result.isNone then
        (outcome (runStep engine (m.stages.get ref) value) >>= fun
          | .ok _ => pure ()
          | .error failure => do
            emit engine (m.stages.get ref).out (.failed failure)
            finishStage ref (.error failure)) m
      else (some (), m) := by
  change (ite _ _ _ : Effect Machine Unit) m = _
  split <;> rfl

/-- A stage that has no result takes a value by a step, and ends if the step fails. -/
theorem deliverToStage_of_none (engine : Engine) {ref : Ref .stage} {stage : Stage} (value : Value)
    {m : Machine} (there : m.stages.get ref = stage) (waiting : stage.result = none) :
    deliverToStage engine ref (.next value) m =
      (outcome (runStep engine stage value) >>= fun
        | .ok _ => pure ()
        | .error failure => do
          emit engine stage.out (.failed failure)
          finishStage ref (.error failure)) m := by
  subst there
  rw [deliverToStage_next, waiting]
  rfl

/-- Hand a signal to a collector. -/
def deliverToCollector (ref : Ref .collector) (signal : Signal) : Effect Machine Unit :=
  modify fun m =>
    { m with collectors := m.collectors.set ref ((m.collectors.get ref).hear signal) }

/-- Change the probe at a reference. -/
def modifyProbe (ref : Ref .probe) (change : Probe → Probe) : Effect Machine Unit :=
  modify fun m => m.setProbe ref (change (m.probes.get ref))

/-- Add to the journal of a probe. -/
def recordExchange (ref : Ref .probe) (exchange : Exchange) : Effect Machine Unit :=
  modifyProbe ref fun probe => { probe with journal := probe.journal ++ [exchange] }

/-- Add to the log of a probe. -/
def logSighting (ref : Ref .probe) (sighting : Sighting) : Effect Machine Unit :=
  modifyProbe ref fun probe => { probe with log := probe.log ++ [sighting] }

/-- Do what a probe asks for. -/
def fulfil (engine : Engine) (ref : Ref .probe) : Request → Effect Machine Unit
  | .send signal => do
    recordExchange ref (.sent signal)
    emit engine ((← get).probes.get ref).channel signal
  | .listen => do
    recordExchange ref .listened
    match ← outcome (subscribe engine ((← get).probes.get ref).channel (.probe ref)) with
    | .ok _ => pure ()
    | .error failure => recordExchange ref (.refused failure)
  | .note => logSighting ref .wrote

/-- Do all that a probe asks for, in order. -/
def fulfilAll (engine : Engine) (ref : Ref .probe) : List Request → Effect Machine Unit
  | [] => pure ()
  | request :: rest => do
    fulfil engine ref request
    fulfilAll engine ref rest

/-- A signal as a probe sees it now. -/
def sighting (m : Machine) : Signal → Sighting
  | .next value => .next (m.snapshot value)
  | .failed failure => .failed failure
  | .complete => .complete

/-- Hand a signal to a probe, which notes it and answers on its channel. -/
def deliverToProbe (engine : Engine) (ref : Ref .probe) (signal : Signal) :
    Effect Machine Unit := do
  logSighting ref (sighting (← get) signal)
  recordExchange ref (.received signal)
  -- The rule sees the signal as the last entry of the journal.
  let probe := (← get).probes.get ref
  fulfilAll engine ref (probe.answer probe.journal)
  recordExchange ref .answered

/-- Hand a signal to a listener. -/
def deliverTo (engine : Engine) (listener : Listener) (signal : Signal) : Effect Machine Unit :=
  match listener with
  | .forward target => emit engine target signal
  | .collector ref => deliverToCollector ref signal
  | .stage ref => deliverToStage engine ref signal
  | .probe ref => deliverToProbe engine ref signal

/-- Hand over the signals that wait on a channel, one after the other, until none is left. -/
def deliverAll (engine : Engine) (ref : Ref .channel) : Effect Machine Unit := do
  match ((← get).channel ref).take? with
  | some (listener, signal, channel) =>
    -- The listener is busy from now on, so what it writes here waits for a later turn.
    modifyChannel ref fun _ => channel
    deliverTo engine listener signal
    engine.deliver ref
  | none => modifyChannel ref (·.release)

/-- What waits longest is handed over and the rest after it; when nothing waits, the listener is set
free. -/
theorem deliverAll_apply (engine : Engine) (ref : Ref .channel) (m : Machine) :
    deliverAll engine ref m =
      match (m.channel ref).take? with
      | some (listener, signal, channel) =>
        (deliverTo engine listener signal >>= fun _ => engine.deliver ref)
          (m.setChannel ref channel)
      | none => (some (), m.setChannel ref (m.channel ref).release) := by
  rw [deliverAll, Effect.bind_apply]
  change (match (m.channel ref).take? with
    | some (listener, signal, channel) => modifyChannel ref (fun _ => channel) >>= fun _ =>
        deliverTo engine listener signal >>= fun _ => engine.deliver ref
    | none => modifyChannel ref (·.release) : Effect Machine Unit) m = _
  match (m.channel ref).take? with
  | some (listener, signal, channel) => rfl
  | none => rfl

end Wordstream
