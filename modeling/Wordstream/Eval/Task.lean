import Wordstream.Eval.Engine
import Wordstream.Machine.Keeping

/-!
# Driving tasks

A task is driven by polling it: each poll takes it as far as it can go. A task that pauses, or whose
stage has got its result meanwhile, asks to be polled again. Driving goes on as long as somebody
asks; a task that cannot go on and does not ask is left pending. A task whose input does not last,
because nothing holds on to it any more, fails.

Settling drives the pending tasks of a machine in batches. Each round polls the tasks of the batch
in order; what is resumed meanwhile forms the next batch.
-/

namespace Wordstream

/-- How driving ended. -/
inductive Driven where
  | finished (result : Result)
  | pending

/-- The result of a task whose input ended without a terminal signal. -/
def inputDropped : Result := .error (.hostTaskFailure "upstream dropped before completing")

/-- Set how far a task has come. -/
def setProgress (ref : Ref .task) (progress : Progress) : Effect Machine Unit :=
  modify fun m =>
    let task := m.task ref
    { m with tasks := m.tasks.set ref { task with progress := progress } }

/-- Ask to be polled again. -/
def wake : Effect Machine Unit := modify fun m => { m with woken := true }

/-- Give a task its result; its suspension is completed or has failed. -/
def finishTask (ref : Ref .task) (result : Result) : Effect Machine (Option Result) := do
  setProgress ref (.finished result)
  modify fun m =>
    let origin := (m.task ref).suspension
    let suspension := m.suspension origin
    { m with suspensions :=
        m.suspensions.set origin { suspension with phase := .ofResult result } }
  pure (some result)

/-- A task that gets its result has finished, and its suspension with it. -/
theorem finishTask_apply (ref : Ref .task) (result : Result) (m : Machine) :
    finishTask ref result m = (some (some result), { m with
      tasks := m.tasks.set ref { m.task ref with progress := .finished result }
      suspensions := m.suspensions.set (m.task ref).suspension
        { m.suspension (m.task ref).suspension with phase := .ofResult result } }) := by
  let finished : Machine :=
    { m with tasks := m.tasks.set ref { m.task ref with progress := .finished result } }
  have origin : (finished.task ref).suspension = (m.task ref).suspension := by
    change ((m.tasks.set ref _).get ref).suspension = _
    rw [Arena.get_set, if_pos rfl]
  change (some (some result), { finished with
    suspensions := m.suspensions.set (finished.task ref).suspension
      { m.suspension (finished.task ref).suspension with phase := .ofResult result } }) = _
  rw [origin]

/-- Tell an output how work ended: it completes, or fails in the same way. -/
def tellOutput (engine : Engine) (out : Ref .channel) (result : Result) : Effect Machine Unit :=
  match result with
  | .ok _ => emit engine out .complete
  | .error failure => emit engine out (.failed failure)

/-- Do work once: its output is told how it ends, and so is the task. -/
def runOnce (engine : Engine) (ref : Ref .task) (work : Run Machine Unit) :
    Effect Machine (Option Result) := do
  let result ← outcome work
  tellOutput engine ((← get).task ref).out result
  finishTask ref result

/-- Begin to take the values of an input one by one. -/
def startStage (engine : Engine) (ref : Ref .task) (step : Step) (input : Ref .channel) :
    Effect Machine (Option Result) := do
  let stage := (← get).stages.next
  let out := ((← get).task ref).out
  modify (·.addStage ⟨step, out, none⟩)
  -- What the input has kept is handed over here, before the task is seen to wait.
  match ← outcome (subscribe engine input (.stage stage)) with
  | .ok _ =>
    setProgress ref (.waiting stage input)
    pure none
  | .error failure => finishTask ref (.error failure)

/-- A stage is made, and listens if the input is free. -/
theorem startStage_apply (engine : Engine) (ref : Ref .task) (step : Step) (input : Ref .channel)
    (m : Machine) :
    startStage engine ref step input m =
      (outcome (subscribe engine input (.stage m.stages.next)) >>= fun
        | .ok _ => do
          setProgress ref (.waiting m.stages.next input)
          pure none
        | .error failure => finishTask ref (.error failure))
        (m.addStage ⟨step, (m.task ref).out, none⟩) := rfl

/-- End a source. -/
def endSource (engine : Engine) (ref : Ref .task) (ending : Ending) :
    Effect Machine (Option Result) := do
  match ending with
  | .complete =>
    emit engine ((← get).task ref).out .complete
    finishTask ref (.ok ())
  | .fail failure =>
    emit engine ((← get).task ref).out (.failed failure)
    finishTask ref (.error failure)
  | .quiet failure => finishTask ref (.error failure)
  | .hang =>
    setProgress ref .hanging
    pure none

/-- Write values to the output of a task. -/
def writeValues (engine : Engine) (ref : Ref .task) : List Value → Effect Machine Unit
  | [] => pure ()
  | value :: rest => do
    emit engine ((← get).task ref).out (.next value)
    writeValues engine ref rest

/-- Write the next portion of a source, and pause behind it if there are more; else end it. -/
def continueSource (engine : Engine) (ref : Ref .task) (source : Source) :
    Effect Machine (Option Result) := do
  writeValues engine ref (source.portions.headD [])
  match source.portions.tail with
  | [] => endSource engine ref source.ending
  | rest =>
    setProgress ref (.writing { source with portions := rest })
    wake
    pure none

/-- Resume both sides of a pipe. -/
def startPipe (left right : Ref .suspension) (relay : Ref .channel)
    (input : Option (Ref .channel)) : Run Machine Progress := do
  let first ← resume left input
  let second ← resume right (some relay)
  pure (.joining first second)

/-- Start the work of a task. -/
def startWork (engine : Engine) (ref : Ref .task) (work : Work) (input : Option (Ref .channel)) :
    Effect Machine (Option Result) := do
  match work, input with
  | .body activation, none => runOnce engine ref (runBody engine activation .none)
  | .body activation, some input => startStage engine ref (.body activation) input
  | .call native args, none =>
    let out := ((← get).task ref).out
    runOnce engine ref (runCall engine out native args)
  | .call native args, some input => startStage engine ref (.call native args) input
  | .pipe left right relay, input =>
    match ← outcome (startPipe left right relay input) with
    | .ok progress =>
      setProgress ref progress
      pure none
    | .error failure => finishTask ref (.error failure)
  | .source source, none => continueSource engine ref source
  | .source _, some input =>
    -- With an input, a source writes none of its own values.
    let out := ((← get).task ref).out
    let result ← outcome (subscribe engine input (.forward out))
    finishTask ref result

/-- The result of a stage, or the failure of having lost its input. -/
def stageResult? (m : Machine) (stage : Ref .stage) (input : Ref .channel) : Option Result :=
  match (m.stages.get stage).result with
  | some result => some result
  | none => if (m.channel input).abandoned then some inputDropped else none

/-- The result of two tasks together: the first failure, in their order. -/
def bothResults (left right : Result) : Result :=
  match left with
  | .ok _ => right
  | .error failure => .error failure

/-- Finish a task that waits for two others, if both have a result. -/
def finishJoint (ref : Ref .task) (left right : Option Result) : Effect Machine (Option Result) :=
  match left, right with
  | some left, some right => finishTask ref (bothResults left right)
  | _, _ => pure none

/-- What is done when the work of a task was started: unless it has finished, what it has begun to
wait for may be there already. -/
def goOn (again : Effect Machine (Option Result)) (ref : Ref .task) :
    Option Result → Effect Machine (Option Result)
  | some result => pure (some result)
  | none => do
    match ((← get).task ref).progress with
    | .waiting _ _ => again
    | .joining _ _ => again
    | _ => pure none

/-- Take a task as far as it can go and give its result if it has finished. -/
def poll (engine : Engine) : (fuel : Nat) → Ref .task → Effect Machine (Option Result)
  | 0, _ => outOfFuel
  | fuel + 1, ref => do
    match ((← get).task ref).progress with
    | .finished result => pure (some result)
    | .hanging => pure none
    | .writing source => continueSource engine ref source
    | .waiting stage input =>
      match stageResult? (← get) stage input with
      | some result => finishTask ref result
      | none => pure none
    | .joining left right =>
      let first ← poll engine fuel left
      let second ← poll engine fuel right
      finishJoint ref first second
    | .ready work input =>
      let result ← startWork engine ref work input
      goOn (poll engine fuel ref) ref result

section Poll

variable (engine : Engine) (fuel : Nat) {ref : Ref .task} {m : Machine}

theorem poll_of_finished {result : Result} (h : (m.task ref).progress = .finished result) :
    poll engine (fuel + 1) ref m = (some (some result), m) := by
  rw [poll, Effect.get_bind_apply, h]
  rfl

theorem poll_of_hanging (h : (m.task ref).progress = .hanging) :
    poll engine (fuel + 1) ref m = (some none, m) := by
  rw [poll, Effect.get_bind_apply, h]
  rfl

theorem poll_of_writing {source : Source} (h : (m.task ref).progress = .writing source) :
    poll engine (fuel + 1) ref m = continueSource engine ref source m := by
  rw [poll, Effect.get_bind_apply, h]

theorem poll_of_waiting {stage : Ref .stage} {input : Ref .channel}
    (h : (m.task ref).progress = .waiting stage input) :
    poll engine (fuel + 1) ref m =
      match stageResult? m stage input with
      | some result => finishTask ref result m
      | none => (some none, m) := by
  rw [poll, Effect.get_bind_apply, h]
  dsimp only
  rw [Effect.get_bind_apply]
  cases stageResult? m stage input <;> rfl

theorem poll_of_joining {left right : Ref .task} (h : (m.task ref).progress = .joining left right) :
    poll engine (fuel + 1) ref m = (do
      let first ← poll engine fuel left
      let second ← poll engine fuel right
      finishJoint ref first second) m := by
  rw [poll, Effect.get_bind_apply, h]

theorem poll_of_ready {work : Work} {input : Option (Ref .channel)}
    (h : (m.task ref).progress = .ready work input) :
    poll engine (fuel + 1) ref m =
      (startWork engine ref work input >>= goOn (poll engine fuel ref) ref) m := by
  rw [poll, Effect.get_bind_apply, h]

end Poll

/-! ## Lost inputs -/

/-- The input that a task waits for, if it waits for one. -/
def awaited? (m : Machine) (task : TaskState) : Option (Ref .channel) :=
  match task.progress with
  | .waiting stage input => if (m.stages.get stage).result.isNone then some input else none
  | _ => none

/-- The inputs that tasks wait for and that do not last, unless they are known to be abandoned. -/
def lostInputs (m : Machine) (outside : List Thing) : List (Ref .channel) :=
  let awaited := (m.tasks.cells.toList.filterMap (awaited? m)).filter
    fun input => !(m.channel input).abandoned
  if awaited.isEmpty then []
  else
    let lasting := m.lasting outside
    awaited.filter fun input => !lasting.contains input.thing

/-- Mark the inputs that are lost as abandoned, and tell whether there were any. -/
def abandonLost (outside : List Thing) : Effect Machine Bool := do
  let lost := lostInputs (← get) outside
  lost.forM fun input => modifyChannel input fun channel => { channel with abandoned := true }
  pure (!lost.isEmpty)

/-! ## Driving -/

/-- The tasks of a list that have not finished. -/
def unfinished (m : Machine) (tasks : List (Ref .task)) : List (Ref .task) :=
  tasks.filter fun ref => (m.task ref).result?.isNone

/-- Poll until something is finished or nobody asks to be polled again and no input was lost. The
tasks that are driven are held on to meanwhile, and so is what the host holds on to. -/
def driveUntil {α : Type} (pollOnce : Effect Machine (Option α)) (driven : List (Ref .task))
    (outside : List Thing) : (fuel : Nat) → Effect Machine (Option α)
  | 0 => outOfFuel
  | fuel + 1 => do
    modify fun m => { m with woken := false }
    match ← pollOnce with
    | some result => pure (some result)
    | none =>
      if (← get).woken then driveUntil pollOnce driven outside fuel
      else
        -- All are stuck; those whose input cannot come any more fail in another round.
        let held := (unfinished (← get) driven).map Ref.thing
        if ← abandonLost (held ++ outside) then driveUntil pollOnce driven outside fuel
        else pure none

section DriveUntil

variable {α : Type} {pollOnce : Effect Machine (Option α)} (driven : List (Ref .task))
  (outside : List Thing) (fuel : Nat) {m m' : Machine}

/-- Driving is over when a poll gives a result. -/
theorem driveUntil_of_some {result : α}
    (polled : pollOnce { m with woken := false } = (some (some result), m')) :
    driveUntil pollOnce driven outside (fuel + 1) m = (some (some result), m') := by
  change (pollOnce >>= _) { m with woken := false } = _
  rw [Effect.bind_apply, polled]
  rfl

/-- Driving goes on when somebody asks to be polled again. -/
theorem driveUntil_of_woken (polled : pollOnce { m with woken := false } = (some none, m'))
    (woken : m'.woken = true) :
    driveUntil pollOnce driven outside (fuel + 1) m =
      driveUntil pollOnce driven outside fuel m' := by
  change (pollOnce >>= _) { m with woken := false } = _
  rw [Effect.bind_apply, polled]
  change (if m'.woken then _ else _ : Effect Machine (Option α)) m' = _
  rw [if_pos woken]

end DriveUntil

/-- Drive one task; `outside` is what the host holds on to. -/
def drive (engine : Engine) (fuel : Nat) (outside : List Thing) (ref : Ref .task) :
    Effect Machine Driven := do
  match ← driveUntil (poll engine fuel ref) [ref] outside fuel with
  | some result => pure (.finished result)
  | none => pure .pending

/-- Poll the tasks of a batch in order. -/
def pollAll (engine : Engine) (fuel : Nat) :
    List (Ref .task) → Effect Machine (List (Option Result))
  | [] => pure []
  | ref :: rest => do
    let result ← poll engine fuel ref
    let results ← pollAll engine fuel rest
    pure (result :: results)

/-- All results, if every task has one. -/
def allResults? : List (Option Result) → Option (List Result)
  | [] => some []
  | some result :: rest => (allResults? rest).map (result :: ·)
  | none :: _ => none

/-- The first failure among results. -/
def firstFailure? (results : List Result) : Option Failure :=
  results.findSome? fun result =>
    match result with
    | .error failure => some failure
    | .ok _ => none

/-- Take all tasks off the list of those that wait to be settled. -/
def clearPending : Effect Machine Unit := modify fun m => { m with pending := [] }

/-- Drive batches of pending tasks until none is pending; `failure` is the first failure so far. -/
def settleBatches (engine : Engine) (pollFuel : Nat) (outside : List Thing) :
    (fuel : Nat) → (failure : Option Failure) → Effect Machine Driven
  | 0, _ => outOfFuel
  | fuel + 1, failure => do
    -- What this batch resumes is pending anew, and waits for the next one.
    let batch := (← get).pending
    clearPending
    if batch.isEmpty then
      match failure with
      | some failure => pure (.finished (.error failure))
      | none => pure (.finished (.ok ()))
    else
      let round := do pure (allResults? (← pollAll engine pollFuel batch))
      match ← driveUntil round batch outside pollFuel with
      | some results =>
        settleBatches engine pollFuel outside fuel (failure <|> firstFailure? results)
      | none => pure .pending

/-- Drive all pending tasks, those that are resumed meanwhile included; `outside` is what the host
holds on to. -/
def settle (engine : Engine) (fuel : Nat) (outside : List Thing) : Effect Machine Driven :=
  settleBatches engine fuel outside fuel none

end Wordstream
