import Wordstream.Config
import Wordstream.Machine.Arena
import Wordstream.Suspension
import Wordstream.Table

/-!
# The machine

The whole state of a running system: its settings, the root dictionary, the stack, the store of
cells, the tasks that wait to be settled, and what it has printed.
-/

namespace Wordstream

/-- Values under names. -/
abbrev Dictionary := Table Value

/-- A procedure whose calls lay their arguments and locals on the stack: how many arguments it
reads, the names of its slots, its body, and the base from which the slots that its body is bound
to are counted. -/
structure FrameDefinition where
  arity : Nat
  names : List String
  body : Code
  base : Nat

instance : Inhabited FrameDefinition := ⟨⟨0, [], ⟨⟨0⟩, []⟩, 0⟩⟩

/-- An active call of a procedure with frames: its definition, where its slots start on the stack,
and the base that its definition gets back when the call is left. -/
structure Call where
  definition : Ref .frame
  start : Nat
  previous : Nat
  deriving DecidableEq, Repr

/-- One call of a streaming procedure: its definition, its slots, the value that it is given, the
channel it writes to, and its slots as the last run of its body has left them. -/
structure Activation where
  body : Code
  scene : Ref .scene
  slots : List Value
  input : Value
  out : Ref .channel
  left : List Value

instance : Inhabited Activation := ⟨⟨⟨⟨0⟩, []⟩, default, [], .none, default, []⟩⟩

/-- Give an activation a value. -/
def Activation.give (activation : Activation) (value : Value) : Activation :=
  { activation with input := value }

/-- An activation when a run of its body is over. -/
def Activation.rest (activation : Activation) : Activation :=
  { activation with left := activation.slots }

/-- A run of the body of an activation: the activation, the scene that it is on meanwhile, and the
value that it was given for this run. -/
structure Turn where
  activation : Ref .activation
  scene : Ref .scene
  value : Value

/-- A listener that keeps all it receives. -/
structure Collector where
  items : List Value
  failure : Option Failure
  completed : Bool

instance : Inhabited Collector := ⟨⟨[], none, false⟩⟩

/-- Keep a signal. -/
def Collector.hear (collector : Collector) : Signal → Collector
  | .next value => { collector with items := collector.items ++ [value] }
  | .failed failure => { collector with failure := some failure }
  | .complete => { collector with completed := true }

/-- A backing that the host offers under a name: what it exports, and why its start or its stop
fails, if they do. -/
structure Backing where
  name : String
  exports : Ref .dictionary
  startFailure : Option String
  stopFailure : Option String
  deriving DecidableEq, Repr

/-- A backing that was started for a module: the id of the module, and whether it was stopped. -/
structure Implementation where
  id : String
  backing : Backing
  stopped : Bool
  deriving DecidableEq, Repr

instance : Inhabited Implementation := ⟨⟨"", ⟨"", default, none, none⟩, false⟩⟩

/-- A value as it is seen at some moment. An object is seen with its fields, unless it is within
itself; then it has no text either. -/
inductive Snapshot where
  | plain (type text : String)
  | number (value : Float) (text : String)
  | object (fields : List (String × Snapshot)) (text : Option String)
  | cycle
  | procedure (isOperator : Bool)
  | suspension (phase : Phase)
  | task (result : Option Result)

/-- What a probe has seen and done. -/
inductive Sighting where
  | next (value : Snapshot)
  | wrote
  | failed (failure : Failure)
  | complete

/-- What a probe can ask for: to write a signal to its channel, to listen to it, or to note that it
has written. -/
inductive Request where
  | send (signal : Signal)
  | listen
  | note

/-- What passes between a probe and its channel, as the probe sees it: it is about to write a
signal, it is about to listen, it is refused as a listener, it is handed a signal, it is done with
that signal. -/
inductive Exchange where
  | sent (signal : Signal)
  | listened
  | refused (failure : Failure)
  | received (signal : Signal)
  | answered

/-- A listener that answers what it receives on the channel it listens to, by any rule. Its journal
has all that passed, in order; its log has what it saw. -/
structure Probe where
  channel : Ref .channel
  /-- What it asks for when it has received a signal, the last of its journal. -/
  answer : List Exchange → List Request
  journal : List Exchange
  log : List Sighting

instance : Inhabited Probe := ⟨⟨default, fun _ => [], [], []⟩⟩

namespace Probe

/-- Answer a value: at one number complete the channel, and below another write the number that
follows. -/
def echoValue (below completeAt : Option Float) : Value → List Request
  | .number n =>
    (if completeAt.any (n == ·) then [.send .complete] else []) ++
      (if below.any (n < ·) then [.send (.next (.number (n + 1))), .note] else [])
  | _ => []

/-- Answer values by those that follow them, and try to write behind a terminal signal. -/
def echo (below completeAt : Option Float) (journal : List Exchange) : List Request :=
  match journal.getLast? with
  | some (.received (.next value)) => echoValue below completeAt value
  | some (.received (.failed _)) => [.send (.next (.text "after error"))]
  | some (.received .complete) => [.send (.next (.text "after complete"))]
  | _ => []

end Probe

/-- The state of a running system. -/
structure Machine where
  config : Config
  root : Ref .dictionary
  /-- The last value that was computed. -/
  result : Value
  /-- The slots of all active calls. -/
  stack : Array Value
  /-- The count of active calls, which is held against the limit. -/
  depth : Nat
  /-- The active calls, the newest first. -/
  calls : List Call
  /-- The bodies of activations that are running, the newest first. -/
  turns : List Turn
  /-- The tasks that wait to be settled, in the order in which they were resumed. -/
  pending : List (Ref .task)
  /-- The lines printed. -/
  printed : List String
  /-- What backings were started and stopped. -/
  events : List String
  backings : Table Backing
  /-- The backings that run, by the id of their module. -/
  running : Table (Ref .implementation)
  /-- Whether polling got something going that has to be polled again. -/
  woken : Bool
  /-- The next identity to be given. -/
  fresh : Nat
  slots : Array (Option Binding)
  dictionaries : Arena .dictionary Dictionary
  frames : Arena .frame FrameDefinition
  /-- The activation whose body is running, for each streaming definition. -/
  scenes : Arena .scene (Option (Ref .activation))
  activations : Arena .activation Activation
  channels : Arena .channel Channel
  collectors : Arena .collector Collector
  probes : Arena .probe Probe
  stages : Arena .stage Stage
  suspensions : Arena .suspension Suspension
  tasks : Arena .task TaskState
  /-- The backings that were started. -/
  implementations : Arena .implementation Implementation

namespace Machine

/-- A machine that has only an empty root dictionary. -/
def ofConfig (config : Config) : Machine where
  config := config
  root := ⟨0⟩
  result := .none
  stack := #[]
  depth := 0
  calls := []
  turns := []
  pending := []
  printed := []
  events := []
  backings := .empty
  running := .empty
  woken := false
  fresh := 0
  slots := #[]
  dictionaries := Arena.empty.alloc .empty
  frames := .empty
  scenes := .empty
  activations := .empty
  channels := .empty
  collectors := .empty
  probes := .empty
  stages := .empty
  suspensions := .empty
  tasks := .empty
  implementations := .empty

/-- The dictionary at a reference. -/
def dictionary (m : Machine) (ref : Ref .dictionary) : Dictionary := m.dictionaries.get ref

/-- Put a value under a name into a dictionary. -/
def assign (m : Machine) (ref : Ref .dictionary) (name : String) (value : Value) : Machine :=
  { m with dictionaries := m.dictionaries.set ref ((m.dictionaries.get ref).insert name value) }

/-- Put a value under a name into the root dictionary. -/
def define (m : Machine) (name : String) (value : Value) : Machine := m.assign m.root name value

/-- What stands under a name in the root dictionary. -/
def lookup? (m : Machine) (name : String) : Option Value := (m.dictionary m.root).get? name

/-- The channel at a reference. -/
def channel (m : Machine) (ref : Ref .channel) : Channel := m.channels.get ref

/-- Overwrite the channel at a reference. -/
def setChannel (m : Machine) (ref : Ref .channel) (channel : Channel) : Machine :=
  { m with channels := m.channels.set ref channel }

/-- What is read behind a write to a channel. -/
@[simp]
theorem channel_setChannel (m : Machine) (ref other : Ref .channel) (channel : Channel) :
    (m.setChannel ref channel).channel other = if other = ref then channel else m.channel other :=
  Arena.get_set ..

/-- Overwrite the probe at a reference. -/
def setProbe (m : Machine) (ref : Ref .probe) (probe : Probe) : Machine :=
  { m with probes := m.probes.set ref probe }

/-- The suspension at a reference. -/
def suspension (m : Machine) (ref : Ref .suspension) : Suspension := m.suspensions.get ref

/-- The task at a reference. -/
def task (m : Machine) (ref : Ref .task) : TaskState := m.tasks.get ref

/-- A suspension that was not resumed is one of the machine. -/
theorem has_of_created {m : Machine} {ref : Ref .suspension}
    (created : (m.suspension ref).phase = .created) : m.suspensions.Has ref :=
  Arena.has_of_get_ne fun none => by
    rw [suspension, none] at created
    cases created

/-- A task that has anything to do is one of the machine. -/
theorem has_of_progress {m : Machine} {task : Ref .task}
    (busy : (m.task task).progress ≠ .hanging) : m.tasks.Has task :=
  Arena.has_of_get_ne fun none => busy (by rw [Machine.task, none]; rfl)

/-- A new dictionary. -/
def newDictionary (m : Machine) (dictionary : Dictionary) : Ref .dictionary × Machine :=
  (m.dictionaries.next, { m with dictionaries := m.dictionaries.alloc dictionary })

/-- A new channel. -/
def newChannel (m : Machine) : Ref .channel × Machine :=
  (m.channels.next, { m with channels := m.channels.alloc .fresh })

/-- A new probe of a channel, which answers by a rule. -/
def newProbe (m : Machine) (channel : Ref .channel) (answer : List Exchange → List Request) :
    Ref .probe × Machine :=
  (m.probes.next, { m with probes := m.probes.alloc ⟨channel, answer, [], []⟩ })

/-- Add a stage. -/
def addStage (m : Machine) (stage : Stage) : Machine := { m with stages := m.stages.alloc stage }

/-- A new suspension. -/
def newSuspension (m : Machine) (suspension : Suspension) : Ref .suspension × Machine :=
  (m.suspensions.next, { m with suspensions := m.suspensions.alloc suspension })

/-- Put an activation on a scene for the value that it was given. -/
def mount (m : Machine) (scene : Ref .scene) (activation : Ref .activation) : Machine :=
  { m with
    scenes := m.scenes.set scene (some activation)
    turns := ⟨activation, scene, (m.activations.get activation).input⟩ :: m.turns }

/-- Take an activation off a scene, and give that back to who was there before. -/
def dismount (m : Machine) (scene : Ref .scene) (activation : Ref .activation)
    (previous : Option (Ref .activation)) : Machine :=
  { m with
    scenes := m.scenes.set scene previous
    turns := m.turns.tail
    activations := m.activations.set activation (m.activations.get activation).rest }

/-- Keep a backing that was started for a module, and track it under the id of the module. -/
def track (m : Machine) (id : String) (backing : Backing) : Machine :=
  { m with
    running := m.running.insert id m.implementations.next
    implementations := m.implementations.alloc ⟨id, backing, false⟩ }

/-- Note that a backing was stopped. -/
def markStopped (m : Machine) (ref : Ref .implementation) : Machine :=
  { m with
    implementations :=
      m.implementations.set ref { m.implementations.get ref with stopped := true } }

/-- A new identity. -/
def newId (m : Machine) : Nat × Machine := (m.fresh, { m with fresh := m.fresh + 1 })

/-- A new procedure that reads its arguments. -/
def newLeading (m : Machine) (action : Action) : Value × Machine :=
  let (id, m) := m.newId
  (.procedure (.leading id action), m)

/-- A new operator. -/
def newOperator (m : Machine) (action : OperatorAction) : Value × Machine :=
  let (id, m) := m.newId
  (.procedure (.operator id action), m)

/-- A new function. -/
def newNative (m : Machine) (operation : Operation) : Value × Machine :=
  let (id, m) := m.newId
  (.native ⟨id, operation⟩, m)

end Machine

end Wordstream
