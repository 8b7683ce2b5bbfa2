import Wordstream.Workbench.Basic

/-!
# Performing instructions

Each instruction changes the machine of a bench, gives a report, and may give something to be held.
-/

namespace Wordstream.Bench

/-- A report, and what it gives to be held. -/
abbrev Outcome := Report × Option Held

/-- Only a report. -/
def only (report : Report) : Desk Outcome := pure (report, none)

/-- Report a value and give it to be held. -/
def reportValue (value : Value) : Desk Outcome := do
  pure (.value ((← get).machine.snapshot value), some (.value value))

/-- Report a value and give it to be held, or report a failure. -/
def reportResult : Except Failure Value → Desk Outcome
  | .ok value => reportValue value
  | .error failure => only (.failed failure)

/-- The view of a result. -/
def view (result : Except Failure Value) : Desk (Except Failure Snapshot) := do
  let machine := (← get).machine
  pure (result.map machine.snapshot)

/-- Evaluate a text; collect what a task puts out; then settle what is pending. -/
def performRun (source : String) : Desk Outcome := do
  let result ← attempt (evaluate engine source)
  let seen ← view result
  let listening ← match result with
    | .ok (.task task) => do
      let collector ← newCollector
      let out := ((← get).machine.task task).out
      let subscribed ← attempt (subscribe engine out (.collector collector))
      pure (some (subscribed.map fun _ => collector))
    | _ => pure none
  let count := (← get).machine.pending.length
  let settled ← if count = 0 then pure none else do
    let driven ← settleTasks
    pure (some (count, driven))
  let received ← match listening with
    | none => pure none
    | some (.ok collector) => do
      let collected ← collectedNow collector
      pure (some (.ok collected))
    | some (.error failure) => pure (some (.error failure))
  let held := match result with
    | .ok value => some (.value value)
    | .error _ => none
  pure (.ran seen settled received, held)

/-- The scope that a binder gives, or the dictionary to bind assigned symbols to. -/
def performBind (code : Code) : Binder → Desk Unit
  | .root => modify fun bench => { bench with machine := bench.machine.bindRoot code }
  | .assigned object => do
    let ref ← findObject object
    modify fun bench => { bench with machine := bench.machine.bindAssigned code ref }
  | .words object => do
    let ref ← findObject object
    modify fun bench => { bench with machine := bench.machine.bindKnown code ref }
  | .chain objects => do
    let refs ← objects.mapM findObject
    modify fun bench =>
      let machine := bench.machine
      { bench with machine := machine.bind code (.chain (refs.map machine.scopeOf)) }

/-- Read the names of a list of items through their bindings. -/
def lookups : List (Nat × Item) → Desk (List (Nat × String × Lookup))
  | [] => pure []
  | (depth, item) :: rest => do
    match item.site? with
    | none => lookups rest
    | some site =>
      let found : Lookup ← match (← get).machine.binding? site.slot with
        | none => pure .unbound
        | some binding => do
          match ← view (← attempt (binding.get site.symbol)) with
          | .ok value => pure (.value value)
          | .error failure => pure (.failed failure)
      let more ← lookups rest
      pure ((depth, item.display, found) :: more)

/-- Set the name of an item through its binding. -/
def performBoundSet (code : Code) (index : Nat) (value : Value) : Desk Report := do
  match code.items[index]? with
  | none => failure
  | some item =>
    match item.site? with
    | none => failure
    | some site =>
      match (← get).machine.binding? site.slot with
      | none => pure .unbound
      | some binding =>
        match ← attempt (binding.set site.symbol value) with
        | .ok _ => pure .done
        | .error failure => pure (.failed failure)

/-- Read with a cursor that is held; the cursor moves even if reading fails. -/
def performRead (reading : Reading) (name : String) : Desk Outcome := do
  match ← find name with
  | .cursor code cursor =>
    let bench ← get
    match engine.read reading ⟨bench.machine, cursor⟩ with
    | (none, _) => failure
    | (some result, reader) =>
      set { bench with
        machine := reader.machine
        held := bench.held.insert name (.cursor code reader.cursor) }
      let seen ← view result
      let held := match result with
        | .ok value => some (.value value)
        | .error _ => none
      pure (.read seen reader.cursor.position reader.cursor.atEnd, held)
  | _ => failure

/-- Attach a listener to a channel. The listener is held even if that fails. -/
def performSubscribe (ref : Ref .channel) (kind : ListenerKind) : Desk Outcome := do
  let (listener, held) : Listener × Option Held ← match kind with
    | .collector => do
      let collector ← newCollector
      pure (.collector collector, some (.collector collector))
    | .forward target => do
      let target ← findChannel target
      pure (.forward target, none)
    | .probe below completeAt => do
      let probe ← make (·.newProbe ref (Probe.echo below completeAt))
      pure (.probe probe, some (.probe probe))
  match ← attempt (subscribe engine ref listener) with
  | .ok _ => do
    let info ← channelInfo ref
    pure (.channel info, held)
  | .error failure => pure (.failed failure, held)

/-- Write a signal to a channel. -/
def performEmit (ref : Ref .channel) (signal : Signal) : Desk Outcome := do
  effect (emit engine ref signal)
  only (.channel (← channelInfo ref))

/-- Report the exports of a module, and define them in the root dictionary if that is asked. -/
def reportModule (result : Except Failure (Ref .dictionary)) (name : Option String) :
    Desk Outcome := do
  match result with
  | .ok ref =>
    match name with
    | some name => modify fun bench =>
      { bench with machine := bench.machine.define name (.object ref) }
    | none => pure ()
    reportValue (.object ref)
  | .error failure => only (.failed failure)

/-- Perform an instruction. -/
def perform : Instruction → Desk Outcome
  | .boot => do
    match ← attempt (Wordstream.boot engine) with
    | .ok _ => only .done
    | .error failure => only (.failed failure)
  | .eval source => do reportResult (← attempt (evaluate engine source))
  | .run source => performRun source
  | .settle => do only (.driven (← settleTasks))
  | .drive task => do
    let task ← findTask task
    only (.driven (← driveTask task))
  | .define name operand => do
    let value ← build operand
    modify fun bench => { bench with machine := bench.machine.define name value }
    only .done
  | .get name => do
    match (← get).machine.lookup? name with
    | some value => reportValue value
    | none => only .absent
  | .keys => do
    let machine := (← get).machine
    only (.names (machine.dictionary machine.root).keys)
  | .value operand => do reportValue (← build operand)
  | .info operand => do
    let value ← build operand
    only (.info (valueInfo (← get).machine value))
  | .equal left right => do
    let left ← build left
    let right ← build right
    match (← get).machine.equal? left right with
    | some same => only (.truth same)
    | none => failure
  | .call native args => do
    match ← build native with
    | .native native =>
      let args ← buildAll args
      reportResult (← attempt (engine.call native args))
    | _ => failure
  | .assign object key operand => do
    let ref ← findObject object
    let value ← build operand
    modify fun bench => { bench with machine := bench.machine.assign ref key value }
    only .done
  | .code source bound => do
    match ← readCode "host.y" source with
    | .error failure => only (.failed failure)
    | .ok code =>
      if bound then performBind code .root
      pure (.text code.display, some (.value (.block code)))
  | .copy name => do
    let code ← findCode name
    let copy ← make (·.copy code)
    pure (.copied copy.display (copy.id = code.id), some (.value (.block copy)))
  | .bind name binder => do
    let code ← findCode name
    performBind code binder
    only .done
  | .bindings name => do
    let code ← findCode name
    only (.bindings (← lookups (Item.preorders 0 code.items)))
  | .boundSet name index operand => do
    let code ← findCode name
    let value ← build operand
    only (← performBoundSet code index value)
  | .execute name => do
    let code ← findCode name
    reportResult (← attempt (engine.execute code))
  | .cursor name => do
    let code ← findCode name
    let cursor := Cursor.start code
    pure (.cursor cursor.position cursor.atEnd, some (.cursor code cursor))
  | .read reading name => performRead reading name
  | .deferred source => do
    match ← readCode "host.y" source with
    | .error failure => only (.failed failure)
    | .ok code =>
      performBind code .root
      reportResult (← attempt (withCursor (.start code) (engine.read .deferred)))
  | .channel => do
    let ref ← make Machine.newChannel
    pure (.channel (← channelInfo ref), some (.channel ref))
  | .write name operand => do
    let ref ← findChannel name
    let value ← build operand
    performEmit ref (.next value)
  | .fail name message => do
    let ref ← findChannel name
    performEmit ref (.failed (.thrown message))
  | .complete name => do
    let ref ← findChannel name
    performEmit ref .complete
  | .channelInfo name => do
    let ref ← findChannel name
    only (.channel (← channelInfo ref))
  | .subscribe name kind => do
    let ref ← findChannel name
    performSubscribe ref kind
  | .collected name => do
    match ← find name with
    | .collector ref => only (.collected (← collectedNow ref))
    | .probe ref => only (.sightings ((← get).machine.probes.get ref).log)
    | _ => failure
  | .drop name => do
    modify fun bench => { bench with held := bench.held.erase name }
    only .done
  | .source values ticks ending acceptsInput mime => do
    let values ← buildAll values
    let source := if ticks then .ticking values ending else .steady values ending
    reportResult (← attempt (suspend (.source source) acceptsInput mime))
  | .resume name input => do
    let ref ← findSuspension name
    let input ← match input with
      | some input => do pure (some (← findChannel input))
      | none => pure none
    let result ← attempt (Wordstream.resume ref input)
    reportResult (result.map .task)
  | .pipe left right => do
    let left ← findSuspension left
    let right ← findSuspension right
    let result ← attempt (Wordstream.pipe engine left right)
    reportResult (result.map .suspension)
  | .suspensionInfo name => do
    let suspension := (← get).machine.suspension (← findSuspension name)
    only (.suspension suspension (← channelInfo suspension.out))
  | .taskInfo name => do
    let task := (← get).machine.task (← findTask name)
    only (.task task.result? (← channelInfo task.out))
  | .backing name exports startFailure stopFailure => do
    let entries ← buildFields exports
    let ref ← make (·.newDictionary (.ofList entries))
    modify fun bench =>
      let machine := bench.machine
      { bench with machine := { machine with
          backings := machine.backings.insert name ⟨name, ref, startFailure, stopFailure⟩ } }
    only .done
  | .load id name text define => do
    reportModule (← attempt (loadText engine id name text)) define
  | .loadFile id path define => do
    let files := (← get).files
    reportModule (← attempt (Wordstream.loadFile engine files id path)) define
  | .stop id => do
    match ← attempt (stopModule id) with
    | .ok _ => only .done
    | .error failure => only (.failed failure)
  | .running => do only (.names (← get).machine.running.keys)

/-! ## Steps -/

/-- Perform an instruction, keep what it gives under a name if one is given, and answer. -/
def step (instruction : Instruction) (keep : Option String) : Desk Answer := do
  let before := (← get).machine
  let printed := before.printed.length
  let events := before.events.length
  let (report, held) ← perform instruction
  match keep, held with
  | some name, some held =>
    modify fun bench => { bench with held := bench.held.insert name held }
  | _, _ => pure ()
  let machine := (← get).machine
  pure {
    report := report
    stack := machine.stack.size
    pending := machine.pending.length
    last := machine.snapshot machine.result
    printed := machine.printed.drop printed
    events := machine.events.drop events }

/-- Perform instructions one after the other. -/
def steps : List (Instruction × Option String) → Desk (List Answer)
  | [] => pure []
  | (instruction, keep) :: rest => do
    let answer ← step instruction keep
    let answers ← steps rest
    pure (answer :: answers)

/-- A bench with a new machine, booted and with the toolkit defined if that is asked. -/
def start (config : Config) (files : FileTree) (booted withToolkit : Bool) : Option Bench := do
  let machine := Machine.ofConfig config
  let machine ← if booted then
      match Wordstream.boot engine machine with
      | (some (.ok _), machine) => some machine
      | _ => none
    else some machine
  let machine := if withToolkit then installToolkit machine else machine
  some ⟨machine, .empty, files⟩

end Wordstream.Bench
