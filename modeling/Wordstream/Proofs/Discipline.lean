import Wordstream.Eval.Engine

/-!
# Disciplines

Evaluation is written against the record of its recursive calls. What is shown of evaluation is
mostly shown in one way: if the calls have some property then so has everything that is made of
them. A discipline is such a property, of two computations that run side by side. It has to be
kept by sequencing and by the few things that evaluation does by itself; the walk over all parts
of evaluation, which is the same for every discipline, needs nothing else.

Many disciplines look at one computation only and relate it to itself. A discipline may let the
second computation run on a machine with another limit on calls, and a strict one knows that
evaluation uses no suspension as a value: it stores none, passes none and writes none.

## Main results

* `Congruence.Fits.andThen`, `Congruence.Fits.lift`, `Congruence.Fits.attempt` — what holds of
  effects holds of computations that may fail
-/

namespace Wordstream

/-- States that have a machine within them. -/
class HasMachine (σ : Type) where
  machine : σ → Machine
  /-- The state with its machine changed. -/
  change : (Machine → Machine) → σ → σ
  change_id (state : σ) : change (fun m => m) state = state

instance : HasMachine Machine := ⟨id, fun change m => change m, fun _ => rfl⟩

instance : HasMachine Reader :=
  ⟨Reader.machine, fun change reader => { reader with machine := change reader.machine },
    fun _ => rfl⟩

open HasMachine (machine)

/-! ## Values in use -/

/-- What stands under a name is an entry. -/
theorem Table.mem_entries_of_get? {α : Type} {table : Table α} {name : String} {value : α}
    (found : table.get? name = some value) : (name, value) ∈ table.entries := by
  obtain ⟨entries⟩ := table
  change findValue? name entries = some value at found
  change (name, value) ∈ entries
  induction entries with
  | nil => cases found
  | cons entry rest ih => grind [findValue?]

/-- The entries behind an insertion are the new one and those before. -/
theorem Table.mem_entries_insert {α : Type} {table : Table α} {name : String} {value : α}
    {entry : String × α} (mem : entry ∈ (table.insert name value).entries) :
    entry = (name, value) ∨ entry ∈ table.entries := by
  obtain ⟨entries⟩ := table
  change entry ∈ insertEntry name value entries at mem
  change entry = (name, value) ∨ entry ∈ entries
  induction entries with
  | nil => exact Or.inl (List.mem_singleton.1 mem)
  | cons other rest ih => grind [insertEntry]

/-- Whether a value is a suspension. -/
def Value.isSuspension : Value → Bool
  | .suspension _ => true
  | _ => false

/-- A failure that is not about a suspension or a channel being used a second time. -/
def Failure.isOrdinary : Failure → Bool
  | .alreadyResumed | .alreadySubscribed => false
  | _ => true

/-- Results that may hold values, and when none of these is a suspension. -/
class Graded (α : Type) where
  IsFree : α → Prop

instance (priority := low) {α : Type} : Graded α := ⟨fun _ => True⟩

instance : Graded Value := ⟨fun value => value.isSuspension = false⟩

instance : Graded (List Value) := ⟨fun values => ∀ value ∈ values, value.isSuspension = false⟩

instance : Graded (Value × Value) :=
  ⟨fun pair => pair.1.isSuspension = false ∧ pair.2.isSuspension = false⟩

instance : Graded Dictionary :=
  ⟨fun table => ∀ entry ∈ table.entries, entry.2.isSuspension = false⟩

/-! ## Machines -/

namespace Machine

/-- The part of a machine that calls and scenes are about. -/
structure Footing where
  config : Config
  stack : Array Value
  depth : Nat
  calls : List Call
  frames : Arena .frame FrameDefinition
  scenes : Arena .scene (Option (Ref .activation))
  turns : List Turn

/-- What a machine stands on. -/
def footing (m : Machine) : Footing :=
  ⟨m.config, m.stack, m.depth, m.calls, m.frames, m.scenes, m.turns⟩

/-- The part of a machine that signals travel through and tasks work with. -/
structure Plumbing where
  channels : Arena .channel Channel
  collectors : Arena .collector Collector
  probes : Arena .probe Probe
  stages : Arena .stage Stage
  suspensions : Arena .suspension Suspension
  tasks : Arena .task TaskState

/-- What signals travel through. -/
def plumbing (m : Machine) : Plumbing :=
  ⟨m.channels, m.collectors, m.probes, m.stages, m.suspensions, m.tasks⟩

/-- The part of a machine that the host sees to: the tasks that wait to be settled, and the
backings that were started and those that run. -/
structure Agenda where
  pending : List (Ref .task)
  running : Table (Ref .implementation)
  implementations : Arena .implementation Implementation

/-- What the host sees to. -/
def agenda (m : Machine) : Agenda := ⟨m.pending, m.running, m.implementations⟩

/-- What a machine stands on, what signals travel through, and what the host sees to. -/
def bearings (m : Machine) : Footing × Plumbing × Agenda := (m.footing, m.plumbing, m.agenda)

/-- The part of a machine, besides the stack, that stores the values of names. -/
def holdings (m : Machine) : Arena .dictionary Dictionary × Arena .activation Activation :=
  (m.dictionaries, m.activations)

/-- The sites that there are keep their bindings; there may be new ones. -/
def AddsSlots (m m' : Machine) : Prop :=
  ∀ index, index < m.slots.size → m'.slots[index]? = m.slots[index]?

/-- No site is bound in another way than before, except to the dictionary that is made next. -/
def BindsNext (m : Machine) (slots : Array (Option Binding)) : Prop :=
  ∀ index : Nat, slots[index]? = m.slots[index]? ∨
    slots[index]? = some (some (.dictionary m.dictionaries.next))

/-- What evaluation does to a machine by itself: it makes definitions, scenes and dictionaries,
writes to the slots of the stack, of dictionaries and of activations, and does things aside, which
concern neither calls nor signals, the host's affairs and the values of names. Only the activation
on a scene is written to, and sites that there are already are bound to new dictionaries only.
Where it is strict, it stores no suspension. -/
inductive Stirs (strict : Prop) : Machine → Machine → Prop
  | aside {m m' : Machine} (bearings : m'.bearings = m.bearings)
      (holdings : m'.holdings = m.holdings) (adds : m.AddsSlots m') : Stirs strict m m'
  | assign (m : Machine) (ref : Ref .dictionary) (name : String) (value : Value)
      (free : strict → value.isSuspension = false) : Stirs strict m (m.assign ref name value)
  | dictionary (m : Machine) (table : Dictionary) (slots : Array (Option Binding))
      (free : strict → ∀ entry ∈ table.entries, entry.2.isSuspension = false)
      (binds : m.BindsNext slots) :
      Stirs strict m { m with dictionaries := m.dictionaries.alloc table, slots := slots }
  | cell (m : Machine) {scene : Ref .scene} {ref : Ref .activation}
      (on : m.scenes.get scene = some ref) (index : Nat) (value : Value)
      (free : strict → value.isSuspension = false) :
      Stirs strict m { m with activations := m.activations.set ref { m.activations.get ref with
        slots := (m.activations.get ref).slots.set index value } }
  | define (m : Machine) (arity : Nat) (names : List String) (body : Code) :
      Stirs strict m { m with frames := m.frames.alloc ⟨arity, names, body, 0⟩ }
  | store (m : Machine) (place : Nat) (value : Value)
      (free : strict → value.isSuspension = false) :
      Stirs strict m { m with stack := m.stack.setIfInBounds place value }
  | scene (m : Machine) : Stirs strict m { m with scenes := m.scenes.alloc none }
  | trans {m m' m'' : Machine} (first : Stirs strict m m') (second : Stirs strict m' m'') :
      Stirs strict m m''

/-- Nothing happens. -/
theorem Stirs.refl {strict : Prop} (m : Machine) : Stirs strict m m :=
  .aside rfl rfl fun _ _ => rfl

/-- What is done aside concerns no calls. -/
theorem footing_of_bearings {m m' : Machine} (h : m'.bearings = m.bearings) :
    m'.footing = m.footing := congrArg Prod.fst h

/-- What is done aside concerns no signals. -/
theorem plumbing_of_bearings {m m' : Machine} (h : m'.bearings = m.bearings) :
    m'.plumbing = m.plumbing := congrArg (fun bearings => bearings.2.1) h

/-- What is done aside concerns nothing that the host sees to. -/
theorem agenda_of_bearings {m m' : Machine} (h : m'.bearings = m.bearings) :
    m'.agenda = m.agenda := congrArg (fun bearings => bearings.2.2) h

/-- Nothing that evaluation does by itself concerns signals. -/
theorem Stirs.plumbing_eq {strict : Prop} {m m' : Machine} (h : m.Stirs strict m') :
    m'.plumbing = m.plumbing := by
  induction h with
  | aside bearings => exact plumbing_of_bearings bearings
  | assign | dictionary | cell | define | store | scene => rfl
  | trans _ _ first second => exact second.trans first

/-- Nothing that evaluation does by itself concerns what the host sees to. -/
theorem Stirs.agenda_eq {strict : Prop} {m m' : Machine} (h : m.Stirs strict m') :
    m'.agenda = m.agenda := by
  induction h with
  | aside bearings => exact agenda_of_bearings bearings
  | assign | dictionary | cell | define | store | scene => rfl
  | trans _ _ first second => exact second.trans first

/-- No name has a suspension for its value. -/
structure Stores (m : Machine) : Prop where
  entry (ref : Ref .dictionary) :
    ∀ entry ∈ (m.dictionary ref).entries, entry.2.isSuspension = false
  stack {place : Nat} {value : Value} (h : m.stack[place]? = some value) :
    value.isSuspension = false
  cell {ref : Ref .activation} {index : Nat} {value : Value}
    (h : (m.activations.get ref).slots[index]? = some value) : value.isSuspension = false
  input (ref : Ref .activation) : (m.activations.get ref).input.isSuspension = false

theorem Stores.dictionary {m : Machine} (h : m.Stores) {ref : Ref .dictionary} {name : String}
    {value : Value} (found : (m.dictionary ref).get? name = some value) :
    value.isSuspension = false := h.entry ref _ (Table.mem_entries_of_get? found)

/-- A machine with another limit on calls. -/
def relimit (limit : Nat → Nat) (m : Machine) : Machine :=
  { m with config := { m.config with maxCallDepth := limit m.config.maxCallDepth } }

end Machine

/-! ## Effects -/

/-- A relation between computations that sequencing keeps. What evaluation does by itself is related
to itself. -/
structure Congruence where
  /-- The relation. -/
  Fits {σ α : Type} [HasMachine σ] : Effect σ α → Effect σ α → Prop
  stir {σ α : Type} [HasMachine σ] {action : Effect σ α}
    (h : ∀ state, (machine state).Stirs False (machine (action state).2)) : Fits action action
  bind {σ α β : Type} [HasMachine σ] {first first' : Effect σ α} {next next' : α → Effect σ β}
    (before : Fits first first') (after : ∀ result, Fits (next result) (next' result)) :
    Fits (first >>= next) (first' >>= next')
  onMachine {α : Type} {action action' : Run Machine α} (h : Fits action action') :
    Fits (onMachine action) (onMachine action')
  withCursor {α : Type} {action action' : Run Reader α} (h : Fits action action')
    (cursor : Cursor) : Fits (withCursor cursor action) (withCursor cursor action')

namespace Congruence

/-- A computation is allowed when it is related to itself. -/
abbrev Allows (D : Congruence) {σ α : Type} [HasMachine σ] (action : Effect σ α) : Prop :=
  D.Fits action action

section Computations

variable (D : Congruence) {σ α β : Type} [HasMachine σ]

/-- A computation that does not touch its state is allowed. -/
theorem allows_unchanged {action : Effect σ α} (h : ∀ state, (action state).2 = state) :
    D.Allows action :=
  D.stir fun state => by rw [h state]; exact .refl _

theorem allows_pure (result : α) : D.Allows (pure result : Effect σ α) :=
  D.allows_unchanged fun _ => rfl

theorem allows_get : D.Allows (get : Effect σ σ) := D.allows_unchanged fun _ => rfl

theorem allows_done (result : α) : D.Allows (pure result : Run σ α) :=
  D.allows_unchanged fun _ => rfl

theorem allows_throw (failure : Failure) : D.Allows (throw failure : Run σ α) :=
  D.allows_unchanged fun _ => rfl

theorem allows_read : D.Allows (get : Run σ σ) := D.allows_unchanged fun _ => rfl

variable {D}

/-- One effect after another. -/
theorem Fits.bind {first first' : Effect σ α} {next next' : α → Effect σ β}
    (before : D.Fits first first') (after : ∀ result, D.Fits (next result) (next' result)) :
    D.Fits (first >>= next) (first' >>= next') := D.bind before after

/-- One computation after another: a failure of the first is the end of both. -/
theorem Fits.andThen {first first' : Run σ α} {next next' : α → Run σ β}
    (before : D.Fits first first') (after : ∀ result, D.Fits (next result) (next' result)) :
    D.Fits (first >>= next : Run σ β) (first' >>= next' : Run σ β) := by
  refine D.bind before fun result => ?_
  cases result with
  | error failure => exact D.allows_unchanged fun _ => rfl
  | ok result => exact after result

/-- Effects among computations that may fail. -/
theorem Fits.lift {effect effect' : Effect σ α} (h : D.Fits effect effect') :
    D.Fits (liftM effect : Run σ α) (liftM effect' : Run σ α) :=
  D.bind h fun _ => D.allows_unchanged fun _ => rfl

/-- Going on with a failure as with a result. -/
theorem Fits.attempt {action action' : Run σ α} (h : D.Fits action action') :
    D.Fits (attempt action) (attempt action') := by
  have attempt_eq (action : Run σ α) :
      Wordstream.attempt action = (action >>= fun result => pure (.ok result) : Effect σ _) := by
    funext state
    rw [Effect.bind_apply, Wordstream.attempt]
    rcases action state with ⟨_ | result, state⟩ <;> rfl
  rw [attempt_eq, attempt_eq]
  exact D.bind h fun _ => D.allows_unchanged fun _ => rfl

end Computations

end Congruence

/-! ## Computations -/

/-- Write a value to the output of the activation on scene, and go on with it. -/
def writeOnScene (engine : Engine) (scene : Ref .scene) (value : Value) : Run Machine Value := do
  let activation ← onScene scene "out"
  let out := ((← get).activations.get activation).out
  emit engine out (.next value)
  pure value

/-- A value is written if somebody is on scene. -/
theorem writeOnScene_apply (engine : Engine) (scene : Ref .scene) (value : Value) (m : Machine) :
    writeOnScene engine scene value m =
      match m.scenes.get scene with
      | some activation =>
        ((emit engine (m.activations.get activation).out (.next value) m).1.map fun _ => .ok value,
          (emit engine (m.activations.get activation).out (.next value) m).2)
      | none => (some (.error (.malformedUse "out used outside its procedure body")), m) := by
  rw [writeOnScene, Run.bind_apply, onScene_apply]
  cases m.scenes.get scene with
  | none => rfl
  | some activation =>
    change (liftM (emit engine (m.activations.get activation).out (.next value)) >>= fun _ =>
      pure value : Run Machine Value) m = _
    rw [Run.bind_apply, Run.lift_apply]
    dsimp only
    rcases emit engine (m.activations.get activation).out (.next value) m with ⟨_ | _, m'⟩ <;> rfl

/-- Whether work is no part of a program: a call of a function, or a source. -/
def Work.isAlien : Work → Bool
  | .call _ _ | .source _ => true
  | .body _ | .pipe .. => false

/-- What evaluation makes a suspension do, pipes apart: to run a body, or to call a function
without a suspension among its arguments. -/
def Work.IsFree : Work → Prop
  | .body _ => True
  | .call _ args => ∀ value ∈ args, value.isSuspension = false
  | .pipe .. | .source _ => False

/-- A relation between computations that evaluation respects. -/
structure Discipline where
  /-- What becomes of the limit on calls in the second computation. -/
  limit : Nat → Nat
  /-- Whether no suspension is used as a value. -/
  strict : Prop
  /-- The relation between computations whose results are in use. -/
  Fits {σ α : Type} [HasMachine σ] [Graded α] : Run σ α → Run σ α → Prop
  /-- The relation between computations that may give a new suspension. -/
  Yields {σ : Type} [HasMachine σ] : Run σ Value → Run σ Value → Prop
  /-- What takes the place of the relation where the signals that wait on a channel are handed
  over. -/
  Hands : Ref .channel → Effect Machine Unit → Effect Machine Unit → Prop
  stir {σ α : Type} [HasMachine σ] [Graded α] {action : Run σ α}
    (h : ∀ state, (machine state).Stirs strict (machine (action state).2))
    (blind : ∀ state, action (HasMachine.change (·.relimit limit) state) =
      ((action state).1, HasMachine.change (·.relimit limit) (action state).2))
    (free : strict → ∀ state result, (action state).1 = some (.ok result) → Graded.IsFree result)
    (ordinary : strict → ∀ state failure,
      (action state).1 = some (.error failure) → failure.isOrdinary) : Fits action action
  read {σ α : Type} [HasMachine σ] [Graded α] {next next' : σ → Run σ α}
    (blind : ∀ state, next' (HasMachine.change (·.relimit limit) state) = next' state)
    (after : ∀ state, (strict → (machine state).Stores) → Fits (next state) (next' state)) :
    Fits (get >>= next : Run σ α) (get >>= next' : Run σ α)
  andThen {σ α β : Type} [HasMachine σ] [Graded α] [Graded β] {first first' : Run σ α}
    {next next' : α → Run σ β} (before : Fits first first')
    (after : ∀ result, (strict → Graded.IsFree result) → Fits (next result) (next' result)) :
    Fits (first >>= next : Run σ β) (first' >>= next' : Run σ β)
  onMachine {α : Type} [Graded α] {action action' : Run Machine α} (h : Fits action action') :
    Fits (onMachine action) (onMachine action')
  withCursor {α : Type} [Graded α] {action action' : Run Reader α} (h : Fits action action')
    (cursor : Cursor) : Fits (withCursor cursor action) (withCursor cursor action')
  yield {σ : Type} [HasMachine σ] {action action' : Run σ Value} (h : Fits action action') :
    Yields action action'
  readYield {σ : Type} [HasMachine σ] {next next' : σ → Run σ Value}
    (blind : ∀ state, next' (HasMachine.change (·.relimit limit) state) = next' state)
    (after : ∀ state, (strict → (machine state).Stores) → Yields (next state) (next' state)) :
    Yields (get >>= next : Run σ Value) (get >>= next' : Run σ Value)
  andYield {σ α : Type} [HasMachine σ] [Graded α] {first first' : Run σ α}
    {next next' : α → Run σ Value} (before : Fits first first')
    (after : ∀ result, (strict → Graded.IsFree result) → Yields (next result) (next' result)) :
    Yields (first >>= next : Run σ Value) (first' >>= next' : Run σ Value)
  yieldOnMachine {action action' : Run Machine Value} (h : Yields action action') :
    Yields (Wordstream.onMachine action) (Wordstream.onMachine action')
  /-- A value that is taken into use is no suspension any more. -/
  use {action action' : Run Reader Value} (h : Yields action action') :
    Fits (action >>= fun value => Wordstream.onMachine (autoResume value) >>= keepResult)
      (action' >>= fun value => Wordstream.onMachine (autoResume value) >>= keepResult)
  keep {action action' : Run Reader Value} (h : Yields action action') :
    Yields (action >>= keepResult) (action' >>= keepResult)
  frame {engine engine' : Engine}
    (h : ∀ code, Fits (engine.execute code) (engine'.execute code)) (ref : Ref .frame)
    (args : List Value) (free : strict → Graded.IsFree args) :
    Fits (runFrame engine ref args) (runFrame engine' ref args)
  suspend (work : Work) (alien : work.isAlien)
    (free : strict → work.IsFree) (acceptsInput : Bool) (mime : Option String) :
    Yields (suspend work acceptsInput mime) (suspend work acceptsInput mime)
  suspendBody (definition : StreamDefinition) (args : List Value)
    (free : strict → Graded.IsFree args) :
    Yields (suspendBody definition args) (suspendBody definition args)
  write {engine engine' : Engine}
    (h : ∀ ref, Hands ref (engine.deliver ref) (engine'.deliver ref)) (scene : Ref .scene)
    (value : Value) (free : strict → value.isSuspension = false) :
    Fits (writeOnScene engine scene value) (writeOnScene engine' scene value)
  pipe {engine engine' : Engine}
    (h : ∀ ref, Hands ref (engine.deliver ref) (engine'.deliver ref))
    (deferred : Yields (engine.read .deferred) (engine'.read .deferred)) :
    Yields (performPipe engine) (performPipe engine')

namespace Discipline

/-- A result is in use if a strict discipline knows that it holds no suspension. -/
abbrev Free (D : Discipline) {α : Type} [Graded α] (result : α) : Prop :=
  D.strict → Graded.IsFree result

/-- A computation is allowed when it is related to itself. -/
abbrev Allows (D : Discipline) {σ α : Type} [HasMachine σ] [Graded α] (action : Run σ α) : Prop :=
  D.Fits action action

section Computations

variable (D : Discipline) {σ α β : Type} [HasMachine σ] [Graded α] [Graded β]

theorem allows_done (result : α) (free : D.Free result) : D.Allows (pure result : Run σ α) :=
  D.stir (fun _ => .refl _) (fun _ => rfl) (fun strict _ _ same => by cases same; exact free strict)
    fun _ _ _ same => by cases same

theorem allows_throw {failure : Failure} (ordinary : D.strict → failure.isOrdinary) :
    D.Allows (throw failure : Run σ α) :=
  D.stir (fun _ => .refl _) (fun _ => rfl) (fun _ _ _ same => by cases same)
    fun strict _ _ same => by cases same; exact ordinary strict

omit [Graded α] in
/-- What stands behind a failure does nothing. -/
theorem fits_refuse {failure : Failure} (ordinary : D.strict → failure.isOrdinary)
    (next next' : α → Run σ β) :
    D.Fits (σ := σ) (throw failure >>= next : Run σ β) (throw failure >>= next' : Run σ β) :=
  D.allows_throw ordinary

theorem allows_settleWith (result : Except Failure α)
    (free : D.strict → ∀ value, result = .ok value → Graded.IsFree value)
    (ordinary : D.strict → ∀ failure, result = .error failure → failure.isOrdinary) :
    D.Allows (settleWith result : Run σ α) :=
  D.stir (fun _ => .refl _) (fun _ => rfl)
    (fun strict _ _ same => free strict _ (Option.some.inj same))
    fun strict _ _ same => ordinary strict _ (Option.some.inj same)

theorem allows_endless : D.Allows (endless : Run σ α) :=
  D.stir (fun _ => .refl _) (fun _ => rfl) (fun _ _ _ same => by cases same)
    fun _ _ _ same => by cases same

variable {D}

/-- One computation after another. -/
theorem Fits.andThen {first first' : Run σ α} {next next' : α → Run σ β}
    (before : D.Fits first first')
    (after : ∀ result, D.Free result → D.Fits (next result) (next' result)) :
    D.Fits (first >>= next : Run σ β) (first' >>= next' : Run σ β) := D.andThen before after

/-- A computation before one that may give a new suspension. -/
theorem Fits.andYield {first first' : Run σ α} {next next' : α → Run σ Value}
    (before : D.Fits first first')
    (after : ∀ result, D.Free result → D.Yields (next result) (next' result)) :
    D.Yields (first >>= next : Run σ Value) (first' >>= next' : Run σ Value) :=
  D.andYield before after

/-- A value that is taken into use, and what is done with it. -/
theorem Yields.used {first first' : Run Reader Value} {next next' : Value → Run Reader α}
    (before : D.Yields first first')
    (after : ∀ value, D.Free value → D.Fits (next value) (next' value)) :
    D.Fits
      (do
        let value ← first
        let value ← Wordstream.onMachine (autoResume value)
        let value ← keepResult value
        next value)
      (do
        let value ← first'
        let value ← Wordstream.onMachine (autoResume value)
        let value ← keepResult value
        next' value) := by
  have used := (D.use before).andThen after
  simpa only [bind_assoc] using used

end Computations

section Changes

variable (D : Discipline) {α : Type} [Graded α]

/-- A change of a machine that evaluation makes by itself. -/
theorem allows_change {change : Machine → Machine} (h : ∀ m : Machine, m.Stirs D.strict (change m))
    (blind : ∀ m : Machine, change (m.relimit D.limit) = (change m).relimit D.limit) :
    D.Allows (modify change : Run Machine PUnit) :=
  D.stir h (fun m => congrArg (Prod.mk _) (blind m)) (fun _ _ _ _ => trivial)
    fun _ _ _ same => by cases same

/-- Taking something new from the machine. -/
theorem allows_allocate {allocation : Machine → α × Machine}
    (h : ∀ m : Machine, m.Stirs D.strict (allocation m).2)
    (blind : ∀ m : Machine, allocation (m.relimit D.limit) =
      ((allocation m).1, (allocation m).2.relimit D.limit))
    (free : ∀ m : Machine, D.Free (allocation m).1) : D.Allows (allocate allocation) := by
  refine D.stir h (fun m => ?_) (fun strict m _ same => ?_) fun _ _ _ same => by cases same
  · exact congrArg (fun result => (some (Except.ok result.1), result.2)) (blind m)
  · cases same
    exact free m strict

end Changes

/-- All calls of two engines are related. -/
structure Relates (D : Discipline) (engine engine' : Engine) : Prop where
  execute (code : Code) : D.Fits (engine.execute code) (engine'.execute code)
  read (reading : Reading) (use : reading ≠ .deferred) :
    D.Fits (engine.read reading) (engine'.read reading)
  deferred : D.Yields (engine.read .deferred) (engine'.read .deferred)
  deliver (ref : Ref .channel) : D.Hands ref (engine.deliver ref) (engine'.deliver ref)
  call (native : Native) (args : List Value) (free : D.Free args) :
    D.Fits (engine.call native args) (engine'.call native args)
  hostAction (name : String) : D.Yields (engine.hostAction name) (engine'.hostAction name)
  hostOperator (name : String) (left right : Value) (freeLeft : D.Free left)
    (freeRight : D.Free right) :
    D.Yields (engine.hostOperator name left right) (engine'.hostOperator name left right)

/-- All that a host does with related engines is related. -/
structure Admits (D : Discipline) (host : Host) : Prop where
  native {engine engine' : Engine} (h : D.Relates engine engine') (name : String)
    (args : List Value) (free : D.Free args) :
    D.Fits (host.native engine name args) (host.native engine' name args)
  action {engine engine' : Engine} (h : D.Relates engine engine') (name : String) :
    D.Yields (host.action engine name) (host.action engine' name)
  operator {engine engine' : Engine} (h : D.Relates engine engine') (name : String)
    (left right : Value) (freeLeft : D.Free left) (freeRight : D.Free right) :
    D.Yields (host.operator engine name left right) (host.operator engine' name left right)

end Discipline

end Wordstream
