import Wordstream.Eval.Task
import Wordstream.Proofs.Confinement
import Wordstream.Proofs.Library

/-!
# Demands on a machine

What a host can ask of a machine, and all the states in which that leaves it. Evaluation can be
interrupted: an engine may look at the machine before each of its calls and stop where a condition
holds. So the states that an evaluation goes through, those of one that never ends included, are the
states in which it is left by some interruption.

## Main results

* `Demand.confined` — whatever is asked of a machine is confined
* `isConfined_toolkit` — the toolkit is a confined host
-/

namespace Wordstream

/-! ## Interruptions -/

open HasMachine (machine)

/-- Do something unless a condition on the machine holds; then stop. -/
def unlessStopped {σ α : Type} [HasMachine σ] (stop : Machine → Bool) (action : Effect σ α) :
    Effect σ α :=
  fun state => if stop (machine state) then (none, state) else action state

theorem Confined.unlessStopped {σ α : Type} [HasMachine σ] {action : Effect σ α}
    (h : Confined action) (stop : Machine → Bool) :
    Confined (Wordstream.unlessStopped stop action) := by
  intro state
  unfold Wordstream.unlessStopped
  split
  · exact ⟨.ended (.refl _), fun ended => Bool.noConfusion ended⟩
  · exact h state

namespace Engine

/-- Stop before each call at which a condition on the machine holds. -/
def stoppedBy (stop : Machine → Bool) (engine : Engine) : Engine where
  execute code := unlessStopped stop (engine.execute code)
  read reading := unlessStopped stop (engine.read reading)
  deliver ref := unlessStopped stop (engine.deliver ref)
  call native args := unlessStopped stop (engine.call native args)
  hostAction name := unlessStopped stop (engine.hostAction name)
  hostOperator name left right := unlessStopped stop (engine.hostOperator name left right)

/-- The calls that some fuel allows, up to the first at which a condition on the machine holds. -/
def interrupted (host : Host) (stop : Machine → Bool) : Nat → Engine
  | 0 => exhausted
  | fuel + 1 => (step host (interrupted host stop fuel)).stoppedBy stop

/-- Without interruptions the calls are those that the fuel allows. -/
theorem interrupted_never (host : Host) (fuel : Nat) :
    interrupted host (fun _ => false) fuel = ofFuel host fuel := by
  induction fuel with
  | zero => rfl
  | succ fuel ih => rw [ofFuel_succ, ← ih]; rfl

theorem IsConfined.stoppedBy {engine : Engine} (h : engine.IsConfined) (stop : Machine → Bool) :
    (engine.stoppedBy stop).IsConfined where
  execute code := (h.execute code).unlessStopped stop
  read reading := (h.read reading).unlessStopped stop
  deliver ref := (h.deliver ref).unlessStopped stop
  call native args := (h.call native args).unlessStopped stop
  hostAction name := (h.hostAction name).unlessStopped stop
  hostOperator name left right := (h.hostOperator name left right).unlessStopped stop

/-- Evaluation is confined, however much fuel it has and wherever it is interrupted. -/
theorem isConfined_interrupted {host : Host} (hosted : host.IsConfined) (stop : Machine → Bool)
    (fuel : Nat) : (interrupted host stop fuel).IsConfined := by
  induction fuel with
  | zero => exact isConfined_exhausted
  | succ fuel ih => exact (ih.step hosted).stoppedBy stop

end Engine

/-- Evaluation keeps to a trend, however much fuel it has and wherever it is interrupted. -/
theorem Trend.relates_interrupted {T : Trend} {host : Host}
    (hosted : T.modest.discipline.Admits host) (stop : Machine → Bool) (fuel : Nat) :
    T.modest.discipline.Relates (Engine.interrupted host stop fuel)
      (Engine.interrupted host stop fuel) := by
  have stopped {σ α : Type} [HasMachine σ] {action : Effect σ α} (h : T.modest.Allows action) :
      T.modest.Allows (unlessStopped stop action) := fun state => by
    unfold unlessStopped
    split
    · exact T.refl _
    · exact h state
  induction fuel with
  | zero => exact relates_ofFuel hosted 0
  | succ fuel ih =>
    have next := Modest.step ih hosted
    exact ⟨fun code => stopped (next.execute code),
      fun reading use => stopped (next.read reading use),
      stopped next.deferred, fun ref => stopped (next.deliver ref),
      fun native args free => stopped (next.call native args free),
      fun name => stopped (next.hostAction name),
      fun name left right free free' => stopped (next.hostOperator name left right free free')⟩

/-! ## Tasks -/

/-- The phase of a suspension whose task has come so far. -/
def Progress.phase : Progress → Phase
  | finished result => .ofResult result
  | _ => .resuming

namespace Modest

theorem allows_startPipe {P : Modest} (resumes : P.Resumes) (left right : Ref .suspension)
    (relay : Ref .channel) (input : Option (Ref .channel)) :
    P.Allows (startPipe left right relay input) :=
  (resumes left input).andThen fun _ => (resumes right (some relay)).andThen fun _ =>
    P.allows_done _

section Engine

variable {P : Modest} {engine engine' : Engine} (h : P.discipline.Relates engine engine')

include h

theorem tellOutput (out : Ref .channel) (result : Result) :
    P.Fits (tellOutput engine out result) (tellOutput engine' out result) := by
  cases result with
  | ok _ => exact emit h.deliver out _
  | error failure => exact emit h.deliver out _

theorem writeValues (ref : Ref .task) (values : List Value) :
    P.Fits (writeValues engine ref values) (writeValues engine' ref values) := by
  induction values with
  | nil => exact P.allows_pure _
  | cons value rest ih =>
    exact P.allows_get.bind fun _ => (emit h.deliver _ _).bind fun _ => ih

end Engine

end Modest

namespace Plain

section Alone

variable (P : Plain)

theorem allows_setProgress (ref : Ref .task) (progress : Progress) :
    P.Allows (setProgress ref progress) := P.quiet fun _ => rfl

theorem allows_finishTask (ref : Ref .task) (result : Result) :
    P.Allows (finishTask ref result) := P.quiet fun _ => rfl

theorem allows_abandonLost (outside : List Thing) : P.Allows (abandonLost outside) := by
  refine P.allows_get.bind fun m => .bind ?_ fun _ => P.allows_pure _
  induction lostInputs m outside with
  | nil => exact P.allows_pure _
  | cons input rest ih => exact (P.allows_modifyChannel input _).bind fun _ => ih

end Alone

section Engine

variable {P : Plain} {engine engine' : Engine} (h : P.discipline.Relates engine engine')

include h

theorem runOnce (ref : Ref .task) {work work' : Run Machine Unit} (working : P.Fits work work') :
    P.Fits (runOnce engine ref work) (runOnce engine' ref work') :=
  .bind working fun _ => P.allows_get.bind fun _ =>
    (Modest.tellOutput h _ _).bind fun _ => P.allows_finishTask ref _

theorem startStage (ref : Ref .task) (step : Step) (input : Ref .channel) :
    P.Fits (startStage engine ref step input) (startStage engine' ref step input) := by
  refine P.allows_get.bind fun _ => P.allows_get.bind fun _ =>
    .bind (P.quiet fun _ => rfl) fun _ =>
      .bind (Modest.subscribe h.deliver input _) fun result => ?_
  cases result with
  | ok _ => exact (P.allows_setProgress ref _).bind fun _ => P.allows_pure _
  | error failure => exact P.allows_finishTask ref _

theorem endSource (ref : Ref .task) (ending : Ending) :
    P.Fits (endSource engine ref ending) (endSource engine' ref ending) := by
  cases ending with
  | complete | fail failure =>
    exact P.allows_get.bind fun _ => (Modest.emit h.deliver _ _).bind fun _ =>
      P.allows_finishTask ref _
  | quiet failure => exact P.allows_finishTask ref _
  | hang => exact (P.allows_setProgress ref _).bind fun _ => P.allows_pure _

theorem continueSource (ref : Ref .task) (source : Source) :
    P.Fits (continueSource engine ref source) (continueSource engine' ref source) := by
  refine (Modest.writeValues h ref _).bind fun _ => ?_
  cases source.portions.tail with
  | nil => exact endSource h ref _
  | cons portion rest =>
    exact (P.allows_setProgress ref _).bind fun _ => .bind (P.quiet fun _ => rfl) fun _ =>
      P.allows_pure _

theorem startWork (ref : Ref .task) (work : Work) (input : Option (Ref .channel)) :
    P.Fits (startWork engine ref work input) (startWork engine' ref work input) := by
  cases work with
  | body activation =>
    cases input with
    | none => exact runOnce h ref (Modest.runBody h _ _)
    | some input => exact startStage h ref _ _
  | call native args =>
    cases input with
    | none => exact P.allows_get.bind fun _ => runOnce h ref (Congruence.Practice.runCall h _ _ _)
    | some input => exact startStage h ref _ _
  | pipe left right relay =>
    refine .bind (Modest.allows_startPipe P.resumes left right relay input) fun result => ?_
    cases result with
    | ok progress => exact (P.allows_setProgress ref _).bind fun _ => P.allows_pure _
    | error failure => exact P.allows_finishTask ref _
  | source source =>
    cases input with
    | none => exact continueSource h ref _
    | some input =>
      exact P.allows_get.bind fun _ => .bind (Modest.subscribe h.deliver _ _) fun _ =>
        P.allows_finishTask ref _

theorem poll (fuel : Nat) (ref : Ref .task) :
    P.Fits (poll engine fuel ref) (poll engine' fuel ref) := by
  induction fuel generalizing ref with
  | zero => exact P.allows_unchanged fun _ => rfl
  | succ fuel ih =>
    refine P.allows_get.bind fun m => ?_
    cases (m.task ref).progress with
    | finished result => exact P.allows_pure _
    | hanging => exact P.allows_pure _
    | writing source => exact continueSource h ref source
    | waiting stage input =>
      refine P.allows_get.bind fun m => ?_
      cases stageResult? m stage input with
      | some result => exact P.allows_finishTask ref _
      | none => exact P.allows_pure _
    | joining left right =>
      refine (ih left).bind fun first => (ih right).bind fun second => ?_
      unfold finishJoint
      split
      · exact P.allows_finishTask ref _
      · exact P.allows_pure _
    | ready work input =>
      refine (startWork h ref work input).bind fun result => ?_
      unfold goOn
      cases result with
      | some result => exact P.allows_pure _
      | none =>
        refine P.allows_get.bind fun m => ?_
        cases (m.task ref).progress with
        | waiting | joining => exact ih ref
        | _ => exact P.allows_pure _

omit h in
theorem driveUntil {α : Type} {pollOnce pollOnce' : Effect Machine (Option α)}
    (polls : P.Fits pollOnce pollOnce') (driven : List (Ref .task)) (outside : List Thing)
    (fuel : Nat) :
    P.Fits (driveUntil pollOnce driven outside fuel)
      (driveUntil pollOnce' driven outside fuel) := by
  induction fuel with
  | zero => exact P.allows_unchanged fun _ => rfl
  | succ fuel ih =>
    refine .bind (P.quiet fun _ => rfl) fun _ => polls.bind fun result => ?_
    cases result with
    | some result => exact P.allows_pure _
    | none =>
      refine P.allows_get.bind fun m => ?_
      split
      · exact ih
      · refine P.allows_get.bind fun m => (P.allows_abandonLost _).bind fun lost => ?_
        split
        · exact ih
        · exact P.allows_pure _

theorem drive (fuel : Nat) (outside : List Thing) (ref : Ref .task) :
    P.Fits (drive engine fuel outside ref) (drive engine' fuel outside ref) := by
  refine (driveUntil (poll h fuel ref) _ outside fuel).bind fun result => ?_
  cases result with
  | some result => exact P.allows_pure _
  | none => exact P.allows_pure _

theorem pollAll (fuel : Nat) (tasks : List (Ref .task)) :
    P.Fits (pollAll engine fuel tasks) (pollAll engine' fuel tasks) := by
  induction tasks with
  | nil => exact P.allows_pure _
  | cons ref rest ih =>
    exact (poll h fuel ref).bind fun _ => ih.bind fun _ => P.allows_pure _

theorem settleBatches (clears : P.Allows clearPending) (pollFuel : Nat) (outside : List Thing)
    (fuel : Nat) (failure : Option Failure) :
    P.Fits (settleBatches engine pollFuel outside fuel failure)
      (settleBatches engine' pollFuel outside fuel failure) := by
  induction fuel generalizing failure with
  | zero => exact P.allows_unchanged fun _ => rfl
  | succ fuel ih =>
    refine P.allows_get.bind fun m => .bind clears fun _ => ?_
    split
    · split
      · exact P.allows_pure _
      · exact P.allows_pure _
    · refine (driveUntil ((pollAll h pollFuel _).bind fun _ => P.allows_pure _)
        _ outside pollFuel).bind fun results => ?_
      cases results with
      | some results => exact ih _
      | none => exact P.allows_pure _

end Engine

end Plain

/-- Confinement has nothing to do with backings. -/
theorem tracks_confinement : confinement.discipline.Tracks where
  track _ _ := .of_evolves fun _ => .quiet rfl
  untrack _ := .of_evolves fun _ => .quiet rfl
  markStopped _ := .of_evolves fun _ => .quiet rfl

/-- The toolkit is a confined host. -/
theorem isConfined_toolkit : toolkit.IsConfined where
  native h name args := h.relates.toolkitNative confinement.practice.isLax name args
  action h name := h.relates.toolkitAction confinement.practice.isLax name
  operator {engine} _ name left right :=
    Discipline.Relates.toolkitOperator confinement.practice.isLax engine engine name left right

/-! ## Demands -/

/-- What a host can ask of a machine, by what it gets for an answer. -/
inductive Demand : Type → Type
  | boot : Demand (Except Failure Unit)
  | evaluate (text : String) : Demand (Except Failure Value)
  | execute (code : Code) : Demand (Except Failure Value)
  | read (reading : Reading) (cursor : Cursor) : Demand (Except Failure Value)
  | call (native : Native) (args : List Value) : Demand (Except Failure Value)
  | deliver (ref : Ref .channel) : Demand Unit
  | hostAction (name : String) (cursor : Cursor) : Demand (Except Failure Value)
  | hostOperator (name : String) (left right : Value) (cursor : Cursor) :
      Demand (Except Failure Value)
  | look (binding : Binding) (symbol : String) : Demand (Except Failure Value)
  | store (binding : Binding) (symbol : String) (value : Value) : Demand (Except Failure Unit)
  | emit (ref : Ref .channel) (signal : Signal) : Demand Unit
  | subscribe (ref : Ref .channel) (listener : Listener) : Demand (Except Failure Unit)
  | fulfil (probe : Ref .probe) (requests : List Request) : Demand Unit
  | resume (ref : Ref .suspension) (input : Option (Ref .channel)) :
      Demand (Except Failure (Ref .task))
  | pipe (left right : Ref .suspension) : Demand (Except Failure (Ref .suspension))
  | drive (outside : List Thing) (ref : Ref .task) : Demand Driven
  | settle (outside : List Thing) : Demand Driven
  | load (id name text : String) : Demand (Except Failure (Ref .dictionary))
  | loadFile (files : FileTree) (id path : String) : Demand (Except Failure (Ref .dictionary))
  | stop (id : String) : Demand (Except Failure Unit)

namespace Demand

/-- Do what is asked; tasks are polled with some fuel of their own. -/
def run {α : Type} (engine : Engine) (fuel : Nat) : Demand α → Effect Machine α
  | boot => outcome (Wordstream.boot engine)
  | evaluate text => outcome (Wordstream.evaluate engine text)
  | execute code => outcome (engine.execute code)
  | read reading cursor => outcome (withCursor cursor (engine.read reading))
  | call native args => outcome (engine.call native args)
  | deliver ref => engine.deliver ref
  | hostAction name cursor => outcome (withCursor cursor (engine.hostAction name))
  | hostOperator name left right cursor =>
    outcome (withCursor cursor (engine.hostOperator name left right))
  | look binding symbol => outcome (binding.get symbol)
  | store binding symbol value => outcome (binding.set symbol value)
  | emit ref signal => Wordstream.emit engine ref signal
  | subscribe ref listener => outcome (Wordstream.subscribe engine ref listener)
  | fulfil probe requests => fulfilAll engine probe requests
  | resume ref input => outcome (Wordstream.resume ref input)
  | pipe left right => outcome (Wordstream.pipe engine left right)
  | drive outside ref => Wordstream.drive engine fuel outside ref
  | settle outside => Wordstream.settle engine fuel outside
  | load id name text => outcome (loadText engine id name text)
  | loadFile files id path => outcome (Wordstream.loadFile engine files id path)
  | stop id => outcome (stopModule id)

/-- Whether tasks are driven. -/
def drives {α : Type} : Demand α → Bool
  | drive .. | settle .. => true
  | _ => false

/-- Whether modules are loaded or stopped. -/
def tracks {α : Type} : Demand α → Bool
  | load .. | loadFile .. | stop .. => true
  | _ => false

/-- What is asked of a machine, unless it is to drive tasks, respects modest disciplines. -/
theorem fits_of_not_drives {α : Type} {P : Modest} {engine engine' : Engine}
    (h : P.discipline.Relates engine engine') (fuel : Nat) {demand : Demand α}
    (resumes : P.Resumes) (tracks : demand.tracks → P.discipline.Tracks)
    (rests : demand.drives = false) :
    P.Fits (demand.run engine fuel) (demand.run engine' fuel) := by
  cases demand with
  | boot => exact h.boot
  | evaluate text => exact h.evaluate text
  | execute code => exact h.execute code
  | read reading cursor => exact P.withCursor (Modest.reads h reading) cursor
  | call native args => exact h.call native args nofun
  | deliver ref => exact h.deliver ref
  | hostAction name cursor => exact P.withCursor (h.hostAction name) cursor
  | hostOperator name left right cursor =>
    exact P.withCursor (h.hostOperator name left right nofun nofun) cursor
  | look binding symbol => exact P.discipline.allows_bindingGet binding symbol
  | store binding symbol value => exact P.discipline.allows_bindingSet binding symbol value nofun
  | emit ref signal => exact Modest.emit h.deliver ref signal
  | subscribe ref listener => exact Modest.subscribe h.deliver ref listener
  | fulfil probe requests =>
    exact Congruence.fulfilAll P.allows_modifyProbe (Modest.emit h.deliver)
      (fun c ref => Modest.subscribe h.deliver c (.probe ref)) probe requests
  | resume ref input => exact resumes ref input
  | pipe left right => exact Modest.pipe h.deliver left right
  | drive | settle => cases rests
  | load id name text => exact h.loadText (tracks rfl) id name text
  | loadFile files id path => exact h.loadFile (tracks rfl) files id path
  | stop id => exact Discipline.allows_stopModule (tracks rfl) id

/-- Whatever is asked of a machine respects the disciplines that concern calls only. -/
theorem fits {α : Type} {P : Plain} {engine engine' : Engine}
    (h : P.discipline.Relates engine engine') (fuel : Nat) (demand : Demand α)
    (tracks : demand.tracks → P.discipline.Tracks) (clears : P.Allows clearPending) :
    P.Fits (demand.run engine fuel) (demand.run engine' fuel) := by
  cases drives : demand.drives with
  | false => exact fits_of_not_drives h fuel P.resumes tracks drives
  | true =>
    cases demand with
    | drive outside ref => exact Plain.drive h fuel outside ref
    | settle outside => exact Plain.settleBatches h clears fuel outside fuel none
    | _ => cases drives

/-- Whatever is asked of a machine is confined. -/
theorem confined {α : Type} {engine : Engine} (h : engine.IsConfined) (fuel : Nat)
    (demand : Demand α) : Confined (demand.run engine fuel) :=
  fits (P := confinement) h.relates fuel demand
    (fun _ => tracks_confinement) (.of_evolves fun _ => .quiet rfl)

end Demand

/-- The states that machines can be in, those in the middle of an evaluation included: a new
machine, one that the host has prepared, and one of which something is asked, whether that has
ended or is interrupted. Every call that evaluation makes to itself can be asked for too, so a
state behind such a call is one that an interruption before it and that demand lead to. -/
inductive Reachable (host : Host) : Machine → Prop
  | new (config : Config) : Reachable host (.ofConfig config)
  | prepare {m m' : Machine} (h : Reachable host m) (quiet : m'.footing = m.footing) :
      Reachable host m'
  | demand {m : Machine} {α : Type} (h : Reachable host m) (demand : Demand α)
      (stop : Machine → Bool) (fuel : Nat) :
      Reachable host (demand.run (.interrupted host stop fuel) fuel m).2

/-- A machine that has the library, but no words for it yet. -/
def Machine.stocked : Machine := installLibrary (.ofConfig .standard)

theorem reachable_stocked (host : Host) : Reachable host .stocked :=
  .prepare (.new .standard) (Machine.footing_of_bearings (Machine.bearings_installLibrary _))

/-- Every state that a machine can be in is in the middle of a course of events that began with a
new machine. -/
theorem Reachable.passes {host : Host} (hosted : host.IsConfined) {m : Machine}
    (h : Reachable host m) : ∃ config, (Machine.ofConfig config).Passes m := by
  induction h with
  | new config => exact ⟨config, .ended (.refl _)⟩
  | prepare _ quiet ih =>
    obtain ⟨config, passes⟩ := ih
    exact ⟨config, passes.trans (.ended (.quiet quiet))⟩
  | demand _ demand stop fuel ih =>
    obtain ⟨config, passes⟩ := ih
    have confined := demand.confined (Engine.isConfined_interrupted hosted stop fuel) fuel
    exact ⟨config, passes.trans (confined.passes _)⟩

end Wordstream
