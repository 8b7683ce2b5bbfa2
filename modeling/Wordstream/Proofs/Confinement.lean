import Wordstream.Proofs.Handover

/-!
# What can happen to a machine

Evaluation changes a machine in few ways that matter to calls: it makes definitions, it writes to
slots of the stack, and it enters calls and leaves them again. Likewise it puts activations on scene
and takes them off again. All else that it does leaves calls and scenes alone.

Here these ways are listed once. A computation is confined to them when every run of it that ends
goes through them, with each call that was entered left again, and every run that stops is in the
middle of such a course of events. What a confined computation does to calls and scenes follows from
the list alone.

## Main results

* `Confined.bind`, `Confined.andThen` — computations in sequence are confined
-/

namespace Wordstream

namespace Machine

/-- A course of events in which every call that is entered is left, and every scene is given back to
whoever was on it. -/
inductive Evolves : Machine → Machine → Prop
  | quiet {m m' : Machine} (h : m'.footing = m.footing) : Evolves m m'
  | define (m : Machine) (arity : Nat) (names : List String) (body : Code) :
      Evolves m { m with frames := m.frames.alloc ⟨arity, names, body, 0⟩ }
  | store (m : Machine) (place : Nat) (value : Value) :
      Evolves m { m with stack := m.stack.setIfInBounds place value }
  | scene (m : Machine) : Evolves m { m with scenes := m.scenes.alloc none }
  | call {m m' : Machine} (ref : Ref .frame) (args : List Value)
      (room : m.depth < m.config.maxCallDepth) (h : Evolves (m.enter ref args) m') :
      Evolves m m'.leave
  | play {m m' : Machine} (scene : Ref .scene) (activation : Ref .activation)
      (h : Evolves (m.mount scene activation) m') :
      Evolves m (m'.dismount scene activation (m.scenes.get scene))
  | trans {m m' m'' : Machine} (first : Evolves m m') (second : Evolves m' m'') : Evolves m m''

/-- The beginning of a course of events: some of the calls that were entered are active still, and
some scenes are still taken. -/
inductive Passes : Machine → Machine → Prop
  | ended {m m' : Machine} (h : Evolves m m') : Passes m m'
  | calling {m m' m'' : Machine} (ref : Ref .frame) (args : List Value) (before : Evolves m m')
      (room : m'.depth < m'.config.maxCallDepth) (h : Passes (m'.enter ref args) m'') : Passes m m''
  | playing {m m' m'' : Machine} (scene : Ref .scene) (activation : Ref .activation)
      (before : Evolves m m') (h : Passes (m'.mount scene activation) m'') : Passes m m''

/-- Nothing happens. -/
theorem Evolves.refl (m : Machine) : m.Evolves m := .quiet rfl

/-- What evaluation does by itself is a course of events. -/
theorem Stirs.evolves {strict : Prop} {m m' : Machine} (h : m.Stirs strict m') : m.Evolves m' := by
  induction h with
  | aside bearings => exact .quiet (footing_of_bearings bearings)
  | assign | dictionary | cell => exact .quiet rfl
  | define m arity names body => exact .define m arity names body
  | store m place value => exact .store m place value
  | scene m => exact .scene m
  | trans _ _ first second => exact first.trans second

/-- A course of events can be put before the beginning of another. -/
theorem Evolves.passes {m m' m'' : Machine} (first : m.Evolves m') (second : m'.Passes m'') :
    m.Passes m'' := by
  cases second with
  | ended h => exact .ended (first.trans h)
  | calling ref args before room h => exact .calling ref args (first.trans before) room h
  | playing scene activation before h => exact .playing scene activation (first.trans before) h

/-- What begins in the middle of a course of events goes on with it. -/
theorem Passes.trans {m m' m'' : Machine} (first : m.Passes m') (second : m'.Passes m'') :
    m.Passes m'' := by
  -- On the calls and scenes that are open when the second part begins.
  induction first with
  | ended h => exact h.passes second
  | calling ref args before room _ ih => exact .calling ref args before room (ih second)
  | playing scene activation before _ ih => exact .playing scene activation before (ih second)

end Machine

open HasMachine (machine)

section Confined

variable {σ α β : Type} [HasMachine σ]

/-- What a computation does to a machine is a course of events, or the beginning of one if it
stops. -/
def Confined (action : Effect σ α) : Prop :=
  ∀ state, (machine state).Passes (machine (action state).2) ∧
    ((action state).1.isSome → (machine state).Evolves (machine (action state).2))

/-- A computation that ends goes through a course of events. -/
theorem Confined.evolves {action : Effect σ α} (h : Confined action) {state state' : σ} {result : α}
    (ran : action state = (some result, state')) :
    (machine state).Evolves (machine state') := by
  have ended := (h state).2
  rw [ran] at ended
  exact ended rfl

/-- A computation leaves its machine in the midst of a course of events. -/
theorem Confined.passes {action : Effect σ α} (h : Confined action) (state : σ) :
    (machine state).Passes (machine (action state).2) := (h state).1

/-- A computation that always ends after a course of events is confined. -/
theorem Confined.of_evolves {action : Effect σ α}
    (h : ∀ state, (machine state).Evolves (machine (action state).2)) : Confined action :=
  fun state => ⟨.ended (h state), fun _ => h state⟩

/-- A run that is stopped before it begins is confined. -/
theorem confined_outOfFuel : Confined (outOfFuel : Effect σ α) := .of_evolves fun _ => .refl _

/-- One effect after another is confined if both are. -/
theorem Confined.bind {first : Effect σ α} {next : α → Effect σ β} (before : Confined first)
    (after : ∀ result, Confined (next result)) : Confined (first >>= next) := by
  intro state
  have ran := before state
  rw [Effect.bind_apply]
  -- A run that stopped stands where the first effect left it; the next one plays no part.
  generalize first state = outcome at ran ⊢
  obtain ⟨passes, evolves⟩ := ran
  obtain ⟨_ | result, middle⟩ := outcome
  · exact ⟨passes, fun ended => Bool.noConfusion ended⟩
  · have evolved := evolves rfl
    exact ⟨evolved.passes ((after result).passes middle),
      fun ended => evolved.trans ((after result middle).2 ended)⟩

end Confined

/-! ## Calls and scenes -/

/-- What is done with an activation on scene is a part of the course of events in which the scene is
taken and given back. -/
theorem Confined.withScene {α : Type} {action : Run Machine α} (h : Confined action)
    (scene : Ref .scene) (activation : Ref .activation) :
    Confined (withScene scene activation action) := by
  intro m
  have ran := h (m.mount scene activation)
  rw [withScene_apply]
  generalize action (m.mount scene activation) = outcome at ran ⊢
  obtain ⟨passes, evolves⟩ := ran
  obtain ⟨_ | result, m'⟩ := outcome
  · -- Stopped while the scene is taken: it is not given back.
    exact ⟨.playing scene activation (.refl m) passes, fun ended => Bool.noConfusion ended⟩
  · have evolved := Machine.Evolves.play scene activation (evolves rfl)
    exact ⟨.ended evolved, fun _ => evolved⟩

/-- A body on its frame is a part of the course of events in which the call is entered and left. -/
theorem confined_runFrame {engine : Engine} (h : ∀ code, Confined (engine.execute code))
    (ref : Ref .frame) (args : List Value) : Confined (runFrame engine ref args) := by
  intro m
  have ran := h (m.frames.get ref).body (m.enter ref args)
  rw [runFrame_apply]
  split
  -- A call that there is no room for is not entered at all.
  case isTrue => exact ⟨.ended (.refl m), fun _ => .refl m⟩
  case isFalse room =>
    have room : m.depth < m.config.maxCallDepth := Nat.lt_of_not_le room
    generalize engine.execute (m.frames.get ref).body (m.enter ref args) = outcome at ran ⊢
    obtain ⟨passes, evolves⟩ := ran
    obtain ⟨_ | result, m'⟩ := outcome
    · exact ⟨.calling ref args (.refl m) room passes, fun ended => Bool.noConfusion ended⟩
    · have evolved := Machine.Evolves.call ref args room (evolves rfl)
      exact ⟨.ended evolved, fun _ => evolved⟩

/-- Confinement is a matter of calls and scenes only. -/
def confinement : Plain where
  Fits action _ := Confined action
  stir h := .of_evolves fun state => (h state).evolves
  bind before after := before.bind after
  onMachine h := fun reader => h reader.machine
  withCursor h cursor := fun m => h ⟨m, cursor⟩
  arrange h _ := .of_evolves fun m => .quiet (congrArg Prod.fst (h m))
  enlist value := .of_evolves fun m => .quiet (footing_autoResume value m)
  quiet h := .of_evolves fun m => .quiet (congrArg Prod.fst (h m))
  frame h ref args := confined_runFrame h ref args
  play scene activation h := h.withScene scene activation

/-! ## Engines -/

/-- All calls of an engine are confined. -/
structure Engine.IsConfined (engine : Engine) : Prop where
  execute (code : Code) : Confined (engine.execute code)
  read (reading : Reading) : Confined (engine.read reading)
  deliver (ref : Ref .channel) : Confined (engine.deliver ref)
  call (native : Native) (args : List Value) : Confined (engine.call native args)
  hostAction (name : String) : Confined (engine.hostAction name)
  hostOperator (name : String) (left right : Value) :
    Confined (engine.hostOperator name left right)

/-- All that a host does is confined if the calls that it makes are. -/
structure Host.IsConfined (host : Host) : Prop where
  native {engine : Engine} (h : engine.IsConfined) (name : String) (args : List Value) :
    Confined (host.native engine name args)
  action {engine : Engine} (h : engine.IsConfined) (name : String) :
    Confined (host.action engine name)
  operator {engine : Engine} (h : engine.IsConfined) (name : String) (left right : Value) :
    Confined (host.operator engine name left right)

namespace Engine

/-- A confined engine is one whose calls confinement relates to themselves. -/
theorem IsConfined.relates {engine : Engine} (h : engine.IsConfined) :
    confinement.discipline.Relates engine engine where
  execute := h.execute
  read reading _ := h.read reading
  deferred := h.read .deferred
  deliver := h.deliver
  call native args _ := h.call native args
  hostAction := h.hostAction
  hostOperator name left right _ _ := h.hostOperator name left right

theorem isConfined_of_relates {engine engine' : Engine}
    (h : confinement.discipline.Relates engine engine') : engine.IsConfined where
  execute := h.execute
  read := Modest.reads h
  deliver := h.deliver
  call native args := h.call native args nofun
  hostAction := h.hostAction
  hostOperator name left right := h.hostOperator name left right nofun nofun

/-- Without fuel nothing happens. -/
theorem isConfined_exhausted : exhausted.IsConfined where
  execute _ := confined_outOfFuel
  read _ := confined_outOfFuel
  deliver _ := confined_outOfFuel
  call _ _ := confined_outOfFuel
  hostAction _ := confined_outOfFuel
  hostOperator _ _ _ := confined_outOfFuel

/-- One more unit of fuel leaves an engine confined. -/
theorem IsConfined.step {host : Host} (hosted : host.IsConfined) {engine : Engine}
    (h : engine.IsConfined) : (step host engine).IsConfined := by
  have admits : confinement.discipline.Admits host :=
    { native := fun h name args _ => hosted.native (isConfined_of_relates h) name args
      action := fun h name => hosted.action (isConfined_of_relates h) name
      operator := fun h name left right _ _ =>
        hosted.operator (isConfined_of_relates h) name left right }
  exact isConfined_of_relates (Modest.step h.relates admits)

end Engine

end Wordstream
