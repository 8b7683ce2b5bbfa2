import Wordstream.Eval.Task
import Wordstream.Library.Boot
import Wordstream.Library.Module
import Wordstream.Library.Toolkit

/-!
# The workbench

A workbench is a machine in the hands of somebody who holds things by name: values, cursors,
channels and listeners. What can be asked of it is an instruction; what it answers is a report.
-/

namespace Wordstream

/-- What is held under a name. -/
inductive Held where
  | value (value : Value)
  | cursor (code : Code) (cursor : Cursor)
  | channel (channel : Ref .channel)
  | collector (collector : Ref .collector)
  | probe (probe : Ref .probe)

/-- How a value is given: by what it is, as code that is not bound, as a new object, function or
toolkit value, or as what is held under a name. -/
inductive Operand where
  | none
  | bool (value : Bool)
  | number (value : Float)
  | text (value : String)
  | block (source : String)
  | object (fields : List (String × Operand))
  | core (name : String)
  | toolkit (name : String)
  | held (name : String)
  deriving Inhabited

/-- How code is bound. Dictionaries are given by the names of what is held. -/
inductive Binder where
  | root
  | assigned (object : String)
  | words (object : String)
  | chain (objects : List String)

/-- Who is to listen to a channel. -/
inductive ListenerKind where
  | collector
  | forward (target : String)
  | probe (below completeAt : Option Float)

/-- What can be asked of a workbench. Names without more are those of held things. -/
inductive Instruction where
  | boot
  | eval (source : String)
  | run (source : String)
  | settle
  | drive (task : String)
  | define (name : String) (value : Operand)
  | get (name : String)
  | keys
  | value (value : Operand)
  | info (value : Operand)
  | equal (left right : Operand)
  | call (native : Operand) (args : List Operand)
  | assign (object key : String) (value : Operand)
  | code (source : String) (bound : Bool)
  | copy (code : String)
  | bind (code : String) (binder : Binder)
  | bindings (code : String)
  | boundSet (code : String) (index : Nat) (value : Operand)
  | execute (code : String)
  | cursor (code : String)
  | read (reading : Reading) (cursor : String)
  | deferred (source : String)
  | channel
  | write (channel : String) (value : Operand)
  | fail (channel message : String)
  | complete (channel : String)
  | channelInfo (channel : String)
  | subscribe (channel : String) (listener : ListenerKind)
  | collected (listener : String)
  | drop (name : String)
  | source (values : List Operand) (ticks : Bool) (ending : Ending) (acceptsInput : Bool)
      (mime : Option String)
  | resume (suspension : String) (input : Option String)
  | pipe (left right : String)
  | suspensionInfo (suspension : String)
  | taskInfo (task : String)
  | backing (name : String) (exports : List (String × Operand))
      (startFailure stopFailure : Option String)
  | load (id name text : String) (define : Option String)
  | loadFile (id path : String) (define : Option String)
  | stop (id : String)
  | running

/-- What can be seen of a channel. -/
structure ChannelInfo where
  queued : Nat
  subscribed : Bool
  terminated : Bool

/-- What can be seen of a value. -/
structure ValueInfo where
  type : String
  truthy : Bool
  display : Option String
  debug : Option String
  number : Option Float
  text : Option String
  blockSize : Option Nat
  keys : Option (List String)

/-- What a collector has received. -/
structure Collected where
  items : List Snapshot
  completed : Bool
  failure : Option Failure

/-- What reading a name gave. -/
inductive Lookup where
  | unbound
  | value (value : Snapshot)
  | failed (failure : Failure)

/-- What is answered to an instruction. -/
inductive Report where
  | done
  | unbound
  | absent
  | value (value : Snapshot)
  | failed (failure : Failure)
  | truth (value : Bool)
  | text (value : String)
  | names (names : List String)
  | driven (driven : Driven)
  | ran (value : Except Failure Snapshot) (settled : Option (Nat × Driven))
      (received : Option (Except Failure Collected))
  | info (info : ValueInfo)
  | copied (display : String) (same : Bool)
  | bindings (entries : List (Nat × String × Lookup))
  | cursor (position : Nat) (atEnd : Bool)
  | read (value : Except Failure Snapshot) (position : Nat) (atEnd : Bool)
  | channel (info : ChannelInfo)
  | collected (collected : Collected)
  | sightings (log : List Sighting)
  | suspension (suspension : Suspension) (out : ChannelInfo)
  | task (result : Option Result) (out : ChannelInfo)

/-- A report with what can be seen of the machine after it. -/
structure Answer where
  report : Report
  stack : Nat
  pending : Nat
  last : Snapshot
  printed : List String
  events : List String

/-- A machine, what is held by name, and the files at hand. -/
structure Bench where
  machine : Machine
  held : Table Held
  files : FileTree

/-- Work at the bench; nothing when an instruction makes no sense there. -/
abbrev Desk := StateT Bench Option

namespace Bench

/-- How deep evaluation may be nested at a bench. -/
def fuel : Nat := 1000000

/-- The engine that a bench uses. -/
def engine : Engine := .ofFuel toolkit fuel

/-- Do something with the machine of a bench that cannot fail. -/
def effect {α : Type} (action : Effect Machine α) : Desk α :=
  fun ⟨machine, held, files⟩ =>
    match action machine with
    | (some result, machine) => some (result, ⟨machine, held, files⟩)
    | (none, _) => none

/-- Do something with the machine of a bench that may fail. -/
def attempt {α : Type} (action : Run Machine α) : Desk (Except Failure α) :=
  effect (outcome action)

/-- Take something new from the machine. -/
def make {α : Type} (allocation : Machine → α × Machine) : Desk α :=
  effect fun machine =>
    let (result, machine) := allocation machine
    (some result, machine)

/-- The things of a machine that a held thing holds on to. -/
def heldThings (m : Machine) : Held → List Thing
  | .value value => m.valueThings value
  | .cursor code _ => m.codeThings code
  | .channel ref => [ref.thing]
  | .collector ref => [ref.thing]
  | .probe ref => [ref.thing]

/-- The things of its machine that a bench holds on to. -/
def outside (bench : Bench) : List Thing :=
  bench.held.entries.flatMap fun entry => heldThings bench.machine entry.2

/-- Drive one task to its end, as far as it goes. -/
def driveTask (task : Ref .task) : Desk Driven := do
  effect (drive engine fuel (← get).outside task)

/-- Drive all pending tasks to their ends, as far as they go. -/
def settleTasks : Desk Driven := do
  effect (settle engine fuel (← get).outside)

/-- What is held under a name. -/
def find (name : String) : Desk Held := do
  match (← get).held.get? name with
  | some held => pure held
  | none => failure

/-- The value that is held under a name. -/
def findValue (name : String) : Desk Value := do
  match ← find name with
  | .value value => pure value
  | _ => failure

/-- The code that is held under a name. -/
def findCode (name : String) : Desk Code := do
  match ← findValue name with
  | .block code => pure code
  | _ => failure

/-- The object that is held under a name. -/
def findObject (name : String) : Desk (Ref .dictionary) := do
  match ← findValue name with
  | .object ref => pure ref
  | _ => failure

/-- The suspension that is held under a name. -/
def findSuspension (name : String) : Desk (Ref .suspension) := do
  match ← findValue name with
  | .suspension ref => pure ref
  | _ => failure

/-- The task that is held under a name. -/
def findTask (name : String) : Desk (Ref .task) := do
  match ← findValue name with
  | .task ref => pure ref
  | _ => failure

/-- The channel that is held under a name, or the output of what is held. -/
def findChannel (name : String) : Desk (Ref .channel) := do
  match ← find name with
  | .channel ref => pure ref
  | .value (.suspension ref) => pure ((← get).machine.suspension ref).out
  | .value (.task ref) => pure ((← get).machine.task ref).out
  | _ => failure

/-- Code of a source text, not bound. -/
def readCode (name source : String) : Desk (Except Failure Code) := do
  match Node.parse (.ofString name source) with
  | .ok nodes => pure (.ok (← make (·.lower nodes)))
  | .error found => pure (.error (.unreadable found))

mutual

/-- The value that an operand gives. -/
def build : Operand → Desk Value
  | .none => pure .none
  | .bool value => pure (.bool value)
  | .number value => pure (.number value)
  | .text value => pure (.text value)
  | .block source => do
    match ← readCode "host.y" source with
    | .ok code => pure (.block code)
    | .error _ => failure
  | .object fields => do
    let entries ← buildFields fields
    let ref ← make (·.newDictionary (.ofList entries))
    pure (.object ref)
  | .core name =>
    match CoreFunction.all.find? fun function => function.name = name with
    | some function => make (·.newNative (.core function))
    | none => failure
  | .toolkit name => make (toolkitValue · name)
  | .held name => findValue name

/-- The values of named operands. -/
def buildFields : List (String × Operand) → Desk (List (String × Value))
  | [] => pure []
  | (name, operand) :: rest => do
    let value ← build operand
    let values ← buildFields rest
    pure ((name, value) :: values)

end

/-- The values of operands. -/
def buildAll : List Operand → Desk (List Value)
  | [] => pure []
  | operand :: rest => do
    let value ← build operand
    let values ← buildAll rest
    pure (value :: values)

/-- What can be seen of a channel now. -/
def channelInfo (ref : Ref .channel) : Desk ChannelInfo := do
  let channel := (← get).machine.channel ref
  pure ⟨channel.queued, channel.isSubscribed, channel.terminated⟩

/-- What a collector has received, as it is seen now. -/
def collectedNow (ref : Ref .collector) : Desk Collected := do
  let machine := (← get).machine
  let collector := machine.collectors.get ref
  pure ⟨collector.items.map machine.snapshot, collector.completed, collector.failure⟩

/-- A new collector. -/
def newCollector : Desk (Ref .collector) :=
  make fun m => (m.collectors.next, { m with collectors := m.collectors.alloc default })

/-- What can be seen of a value now. -/
def valueInfo (m : Machine) (value : Value) : ValueInfo where
  type := value.typeName
  truthy := value.isTruthy
  display := m.display? value
  debug := m.debug? value
  number := match value with
    | .number n => some n
    | _ => none
  text := match value with
    | .text text => some text
    | _ => none
  blockSize := match value with
    | .block code => some code.items.length
    | _ => none
  keys := match value with
    | .object ref => some (m.dictionary ref).keys
    | _ => none

end Bench

end Wordstream
