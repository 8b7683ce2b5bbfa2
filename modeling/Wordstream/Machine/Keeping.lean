import Std.Data.HashSet
import Wordstream.Machine.Code

/-!
# What lasts

A thing of a machine lasts as long as something that lasts holds on to it, or somebody outside does.
Things that hold on to each other in a circle last, even if nothing else holds on to any of them.

So what lasts is the greatest set of things each of which is anchored or held by one of the set. It
is found by leaving out, again and again, what nothing that is left holds on to.
-/

namespace Wordstream

/-- A cell of a store, of whatever kind. -/
structure Thing where
  kind : Entity
  index : Nat
  deriving DecidableEq, Hashable, Repr

/-- The thing that a reference points to. -/
def Ref.thing {kind : Entity} (ref : Ref kind) : Thing := ⟨kind, ref.index⟩

/-- What a binding holds on to. -/
def Binding.things : Binding → List Thing
  | dictionary ref => [ref.thing]
  | frameSlot frame _ => [frame.thing]
  | cell scene _ => [scene.thing]
  | input scene => [scene.thing]
  | output (.leading _ (.emit scene)) => [scene.thing]
  | output _ => []

namespace Machine

/-- What a code holds on to: what its sites are bound to. -/
def codeThings (m : Machine) (code : Code) : List Thing :=
  code.sites.flatMap fun site =>
    match m.binding? site.slot with
    | some binding => binding.things
    | none => []

/-- What a procedure holds on to. -/
def procedureThings (m : Machine) : Procedure → List Thing
  | .leading _ (.frame ref) => ref.thing :: m.codeThings (m.frames.get ref).body
  | .leading _ (.streaming definition) => definition.scene.thing :: m.codeThings definition.body
  | .leading _ (.emit scene) => [scene.thing]
  | _ => []

/-- What a value holds on to. -/
def valueThings (m : Machine) : Value → List Thing
  | .block code => m.codeThings code
  | .object ref => [ref.thing]
  | .procedure procedure => m.procedureThings procedure
  | .suspension ref => [ref.thing]
  | .task ref => [ref.thing]
  | _ => []

/-- What a signal holds on to. -/
def signalThings (m : Machine) : Signal → List Thing
  | .next value => m.valueThings value
  | _ => []

/-- What a listener is. -/
def listenerThing : Listener → Thing
  | .forward target => target.thing
  | .collector ref => ref.thing
  | .stage ref => ref.thing
  | .probe ref => ref.thing

/-- What work that has not begun holds on to. -/
def workThings (m : Machine) : Work → List Thing
  | .body activation => [activation.thing]
  | .call _ args => args.flatMap m.valueThings
  | .pipe left right relay => [left.thing, right.thing, relay.thing]
  | .source source => source.values.flatMap m.valueThings

/-- What the step of a stage holds on to. -/
def stepThings (m : Machine) : Step → List Thing
  | .body activation => [activation.thing]
  | .call _ args => args.flatMap m.valueThings

/-- What a task holds on to by how far it has come. Before it begins it holds on to its input; while
it waits for a stage, the input is what holds on to the stage. -/
def progressThings (m : Machine) : Progress → List Thing
  | .ready work input => (input.map Ref.thing).toList ++ m.workThings work
  | .joining left right =>
    [left.thing, right.thing, (m.task left).suspension.thing, (m.task right).suspension.thing]
  | .writing source => source.values.flatMap m.valueThings
  | _ => []

/-- What a channel holds on to: its listener, and the values that wait. -/
def channelThings (m : Machine) (channel : Channel) : List Thing :=
  let waiting := channel.backlog.flatMap m.signalThings
  match channel.attachment with
  | .buffering => waiting
  | .listening listener _ => listenerThing listener :: waiting

/-- What an activation holds on to. -/
def activationThings (m : Machine) (activation : Activation) : List Thing :=
  activation.out.thing :: m.valueThings activation.input ++
    activation.slots.flatMap m.valueThings ++ m.codeThings activation.body

/-- What a thing holds on to. -/
def holds (m : Machine) (thing : Thing) : List Thing :=
  match thing.kind with
  | .dictionary =>
    (m.dictionary ⟨thing.index⟩).entries.flatMap fun entry => m.valueThings entry.2
  | .frame => []
  | .scene => ((m.scenes.get ⟨thing.index⟩).map Ref.thing).toList
  | .activation => m.activationThings (m.activations.get ⟨thing.index⟩)
  | .channel => m.channelThings (m.channel ⟨thing.index⟩)
  | .collector => (m.collectors.get ⟨thing.index⟩).items.flatMap m.valueThings
  | .probe => [(m.probes.get ⟨thing.index⟩).channel.thing]
  | .stage =>
    let stage := m.stages.get ⟨thing.index⟩
    stage.out.thing :: m.stepThings stage.step
  | .suspension =>
    let suspension := m.suspension ⟨thing.index⟩
    suspension.out.thing :: (suspension.work.map m.workThings).getD []
  | .task =>
    let task := m.task ⟨thing.index⟩
    task.out.thing :: m.progressThings task.progress
  | .implementation => [(m.implementations.get ⟨thing.index⟩).backing.exports.thing]

/-- All things of one kind. -/
def thingsOf (kind : Entity) (count : Nat) : List Thing := (List.range count).map (Thing.mk kind)

/-- All things of a machine. -/
def things (m : Machine) : List Thing :=
  thingsOf .dictionary m.dictionaries.cells.size ++ thingsOf .frame m.frames.cells.size ++
    thingsOf .scene m.scenes.cells.size ++ thingsOf .activation m.activations.cells.size ++
    thingsOf .channel m.channels.cells.size ++ thingsOf .collector m.collectors.cells.size ++
    thingsOf .probe m.probes.cells.size ++ thingsOf .stage m.stages.cells.size ++
    thingsOf .suspension m.suspensions.cells.size ++ thingsOf .task m.tasks.cells.size

/-- What the machine itself holds on to: the root dictionary, the last result, the stack, the
pending tasks, and what backings export. -/
def anchors (m : Machine) : List Thing :=
  m.root.thing :: m.valueThings m.result ++ m.stack.toList.flatMap m.valueThings ++
    m.pending.map Ref.thing ++
    m.backings.entries.map (fun entry => entry.2.exports.thing) ++
    m.running.entries.map fun entry => (m.implementations.get entry.2).backing.exports.thing

/-- Those of a list of things that are anchored or held by one of the list. -/
def keepHeld (m : Machine) (anchored : Std.HashSet Thing) (things : List Thing) : List Thing :=
  let held := things.foldl (fun held thing => held.insertMany (m.holds thing)) anchored
  things.filter held.contains

/-- Leave out what is not held until nothing more is left out, at most `bound` times. -/
def lastingWithin (m : Machine) (anchored : Std.HashSet Thing) :
    (bound : Nat) → List Thing → List Thing
  | 0, things => things
  | bound + 1, things =>
    let kept := m.keepHeld anchored things
    if kept.length = things.length then kept else m.lastingWithin anchored bound kept

/-- What lasts, given what is held on to from outside. Each round but the last leaves something out,
so there are at most as many rounds as things. -/
def lasting (m : Machine) (outside : List Thing) : List Thing :=
  m.lastingWithin (.ofList (m.anchors ++ outside)) m.things.length m.things

end Machine

end Wordstream
