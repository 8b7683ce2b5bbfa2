import Wordstream.Machine.Code

/-!
# Running

Evaluation changes a state and gives a value, fails, or stops because its fuel has run out. However
it ends, it leaves the state as it was then. Steps that cannot fail are a kind of their own.

While code is read, the state is a machine together with a cursor into the code.
-/

namespace Wordstream

/-- A computation over a state that cannot fail. It may stop before it has a result; then it leaves
the state in which it stopped. -/
abbrev Effect (σ : Type) := OptionT (StateM σ)

/-- A computation over a state that may fail. A failure leaves the state as it was then. -/
abbrev Run (σ : Type) := ExceptT Failure (Effect σ)

/-- A place in code: how many items came before, and those that follow. -/
structure Cursor where
  position : Nat
  rest : List Item

namespace Cursor

/-- The start of a code. -/
def start (code : Code) : Cursor := ⟨0, code.items⟩

/-- Whether no item follows. -/
def atEnd (cursor : Cursor) : Bool := cursor.rest.isEmpty

/-- The place behind the next item. -/
def forward (cursor : Cursor) : Cursor := ⟨cursor.position + 1, cursor.rest.tail⟩

end Cursor

/-- A machine that is reading code. -/
structure Reader where
  machine : Machine
  cursor : Cursor

/-- Do something with the machine of a reader. -/
def onMachine {α : Type} (action : Run Machine α) : Run Reader α :=
  fun ⟨machine, cursor⟩ =>
    let (result, machine) := action machine
    (result, ⟨machine, cursor⟩)

/-- Change the machine of a reader. -/
def modifyMachine (change : Machine → Machine) : Run Reader Unit :=
  onMachine (modify change)

/-- Read with a cursor of its own. -/
def withCursor {α : Type} (cursor : Cursor) (action : Run Reader α) : Run Machine α :=
  fun machine =>
    let (result, reader) := action ⟨machine, cursor⟩
    (result, reader.machine)

/-- Take something new from the machine: apply an allocation and keep its result. -/
def allocate {α : Type} (allocation : Machine → α × Machine) : Run Machine α :=
  fun machine =>
    let (result, machine) := allocation machine
    (some (.ok result), machine)

/-- No result: the fuel has run out. -/
def outOfFuel {σ α : Type} : Effect σ α := fun state => (none, state)

/-- A computation that never ends: no fuel is enough for it. -/
def endless {σ α : Type} : Run σ α := fun state => (none, state)

/-- The result of a computation, whether it failed or not, as a step that cannot fail. -/
def outcome {σ α : Type} (action : Run σ α) : Effect σ (Except Failure α) := ExceptT.run action

/-- Go on with the result of a computation, whether it failed or not. -/
def attempt {σ α : Type} (action : Run σ α) : Run σ (Except Failure α) :=
  fun state =>
    let (result, state) := action state
    (result.map .ok, state)

/-- Go on with a value, or fail. -/
def settleWith {σ α : Type} (result : Except Failure α) : Run σ α :=
  fun state => (some result, state)

/-- What is done to the state when a computation has come to an end, and left out when it
stopped. -/
def whenEnded {σ α : Type} (finish : σ → σ) : Option α × σ → Option α × σ
  | (some result, state) => (some result, finish state)
  | (none, state) => (none, state)

/-! ## Running step by step -/

section Apply

variable {σ α β : Type}

theorem Effect.get_apply (state : σ) : (get : Effect σ σ) state = (some state, state) := rfl

theorem Effect.get_bind_apply (next : σ → Effect σ α) (state : σ) :
    ((get : Effect σ σ) >>= next) state = next state state := rfl

/-- An effect is followed by the next unless it stops. -/
theorem Effect.bind_apply (first : Effect σ α) (next : α → Effect σ β) (state : σ) :
    (first >>= next) state = match first state with
      | (some result, state) => next result state
      | (none, state) => (none, state) := by
  simp only [bind, OptionT.bind, OptionT.mk, StateT.bind]
  rcases first state with ⟨_ | result, state⟩ <;> rfl

/-- Of one effect after another that come to an end, both do. -/
theorem Effect.of_bind {first : Effect σ α} {next : α → Effect σ β} {state state' : σ} {result : β}
    (h : (first >>= next) state = (some result, state')) :
    ∃ given middle, first state = (some given, middle) ∧
      next given middle = (some result, state') := by
  rw [Effect.bind_apply] at h
  rcases ran : first state with ⟨_ | given, middle⟩
  · rw [ran] at h
    cases h
  · rw [ran] at h
    exact ⟨given, middle, rfl, h⟩

/-- A computation is followed by the next unless it fails or stops. -/
theorem Run.bind_apply (first : Run σ α) (next : α → Run σ β) (state : σ) :
    (first >>= next) state = match first state with
      | (some (.ok result), state) => next result state
      | (some (.error failure), state) => (some (.error failure), state)
      | (none, state) => (none, state) := by
  simp only [bind, ExceptT.bind, ExceptT.mk, OptionT.bind, OptionT.mk, StateT.bind]
  rcases first state with ⟨_ | (_ | _), state⟩ <;> rfl

/-- Of one computation after another that give a result, both do. -/
theorem Run.of_bind {first : Run σ α} {next : α → Run σ β} {state state' : σ} {result : β}
    (h : (first >>= next) state = (some (.ok result), state')) :
    ∃ given middle, first state = (some (.ok given), middle) ∧
      next given middle = (some (.ok result), state') := by
  rw [Run.bind_apply] at h
  rcases ran : first state with ⟨_ | (_ | given), middle⟩
  · rw [ran] at h
    cases h
  · rw [ran] at h
    cases h
  · rw [ran] at h
    exact ⟨given, middle, rfl, h⟩

/-- Taking the result of a computation as a value does nothing else. -/
theorem outcome_apply (action : Run σ α) (state : σ) : outcome action state = action state := rfl

/-- An effect that stands among computations that may fail does not fail. -/
theorem Run.lift_apply (effect : Effect σ α) (state : σ) :
    (liftM effect : Run σ α) state = ((effect state).1.map .ok, (effect state).2) := by
  change (effect >>= fun result => (pure (.ok result) : Effect σ (Except Failure α))) state = _
  rw [Effect.bind_apply]
  rcases effect state with ⟨_ | result, state⟩ <;> rfl

/-- What is done with the machine of a reader leaves its cursor alone. -/
theorem onMachine_apply (action : Run Machine α) (reader : Reader) :
    onMachine action reader =
      ((action reader.machine).1, ⟨(action reader.machine).2, reader.cursor⟩) := rfl

/-- What is read with a cursor of its own leaves a machine. -/
theorem withCursor_apply (cursor : Cursor) (action : Run Reader α) (m : Machine) :
    withCursor cursor action m = ((action ⟨m, cursor⟩).1, (action ⟨m, cursor⟩).2.machine) := rfl

end Apply

/-- How much is read at once. -/
inductive Reading where
  /-- An operand and the operators behind it, suspensions being resumed. -/
  | whole
  /-- An operand, a suspension being resumed. -/
  | operand
  /-- An operand; a suspension is left as it is. -/
  | deferred
  deriving DecidableEq, Repr

/-- The calls that evaluation makes to itself and to its host. Each part of evaluation is written
against this record; tying it to itself with some fuel gives evaluation. -/
structure Engine where
  /-- Run code from its start to its end. -/
  execute : Code → Run Machine Value
  /-- Read a value from the code that follows. -/
  read : Reading → Run Reader Value
  /-- Hand over the signals that wait on a channel. -/
  deliver : Ref .channel → Effect Machine Unit
  /-- Call a function. -/
  call : Native → List Value → Run Machine Value
  /-- Perform a procedure of the host. -/
  hostAction : String → Run Reader Value
  /-- Apply an operator of the host. -/
  hostOperator : String → Value → Value → Run Reader Value

end Wordstream
