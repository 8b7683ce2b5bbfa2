import Wordstream.Code.Parameters
import Wordstream.Eval.Suspension
import Wordstream.Machine.Call

/-!
# Procedures

A procedure reads its arguments from the code behind it. A call of an ordinary procedure lays its
arguments and locals on the stack as a frame and runs its body; a call of a streaming procedure is a
suspension with an activation of its own.
-/

namespace Wordstream

/-- Read a number of arguments. -/
def readArgs (engine : Engine) : Nat → Run Reader (List Value)
  | 0 => pure []
  | n + 1 => do
    let value ← engine.read .whole
    let values ← readArgs engine n
    pure (value :: values)

/-! ## Definitions -/

/-- The place of a name among those that are declared. -/
def slotIndex? (names : List String) (symbol : String) : Option Nat :=
  names.findIdx? fun name => name = symbol

/-- The scope of a procedure with frames: each name is a slot of the frame. -/
def frameScope (frame : Ref .frame) (names : List String) : Scope :=
  fun symbol => (slotIndex? names symbol).map fun index => .frameSlot frame index

/-- The scope of a streaming procedure: its input and its output if it has them, and its names as
slots of the activation on scene. -/
def streamScope (scene : Ref .scene) (emitter : Procedure) (params : Parameters) : Scope :=
  fun symbol =>
    if params.input && symbol = "in" then some (.input scene)
    else if params.output && symbol = "out" then some (.output emitter)
    else (slotIndex? params.names symbol).map fun index => .cell scene index

/-- A new procedure whose calls have frames. -/
def makeFrameProcedure (params : Parameters) (body : Code) : Run Machine Value := do
  let ref := (← get).frames.next
  let body ← allocate (·.enclose body (frameScope ref params.names))
  modify fun m => { m with
    frames := m.frames.alloc ⟨params.positional.length, params.names, body, 0⟩ }
  allocate fun m => m.newLeading (.frame ref)

/-- A new procedure whose calls are suspensions. -/
def makeStreamProcedure (params : Parameters) (body : Code) : Run Machine Value := do
  let scene := (← get).scenes.next
  modify fun m => { m with scenes := m.scenes.alloc none }
  let emitterId ← allocate Machine.newId
  let body ← allocate
    (·.enclose body (streamScope scene (.leading emitterId (.emit scene)) params))
  allocate fun m => m.newLeading
    (.streaming ⟨params.positional.length, params.names.length, body, params.input, scene⟩)

/-- A new procedure of a parameter list and a body. Slots of a copy are bound, so the block that was
given keeps its meaning. -/
def makeProcedure (params body : Code) (streaming : Bool) : Run Machine Value := do
  let declared ← settleWith (Parameters.scan params streaming)
  if declared.isStreaming then makeStreamProcedure declared body
  else makeFrameProcedure declared body

/-! ## Frames -/

/-- Enter a call if there is room for one more, and give the body that it is to run. -/
def enterCall (ref : Ref .frame) (args : List Value) : Run Machine Code := do
  let m ← get
  if m.config.maxCallDepth ≤ m.depth then throw (.callDepthExceeded m.config.maxCallDepth)
  modify (·.enter ref args)
  pure (m.frames.get ref).body

/-- A call is entered if there is room for one more. -/
theorem enterCall_apply (ref : Ref .frame) (args : List Value) (m : Machine) :
    enterCall ref args m =
      if m.config.maxCallDepth ≤ m.depth then
        (some (.error (.callDepthExceeded m.config.maxCallDepth)), m)
      else (some (.ok (m.frames.get ref).body), m.enter ref args) := by
  change (ite _ _ _ : Run Machine Code) m = _
  split <;> rfl

/-- Run the body of a definition on a new frame, which is left however the body ends. -/
def runFrame (engine : Engine) (ref : Ref .frame) (args : List Value) : Run Machine Value := do
  let body ← enterCall ref args
  let result ← attempt (engine.execute body)
  modify Machine.leave
  settleWith result

/-- A body runs on its new frame if there is room for one more, and the frame is left afterwards. -/
theorem runFrame_apply (engine : Engine) (ref : Ref .frame) (args : List Value) (m : Machine) :
    runFrame engine ref args m =
      if m.config.maxCallDepth ≤ m.depth then
        (some (.error (.callDepthExceeded m.config.maxCallDepth)), m)
      else whenEnded Machine.leave (engine.execute (m.frames.get ref).body (m.enter ref args)) := by
  rw [runFrame, Run.bind_apply, enterCall_apply]
  by_cases full : m.config.maxCallDepth ≤ m.depth
  · simp only [if_pos full]
  · simp only [if_neg full]
    rw [Run.bind_apply, attempt]
    rcases engine.execute (m.frames.get ref).body (m.enter ref args) with ⟨_ | result, m'⟩ <;> rfl

/-! ## Wrapping functions -/

/-- The code of a block, or the failure of not being one. -/
def expectBlock (what : String) : Value → Run Machine Code
  | .block code => pure code
  | value => throw (.typeMismatch s!"{what} must be a block, got {value.typeName}")

/-- A function, or the failure of not being one. -/
def expectNative (what : String) : Value → Run Machine Native
  | .native native => pure native
  | value => throw (.typeMismatch s!"{what} needs a native function, got {value.typeName}")

/-- A text, or the failure of not being one. -/
def expectText (what : String) : Value → Run Machine String
  | .text text => pure text
  | value => throw (.typeMismatch s!"{what} must be a string, got {value.typeName}")

/-- The number of parameters of a list that has no locals. -/
def arityOf (what : String) (params : Code) : Run Machine Nat := do
  let declared ← settleWith (Parameters.scan params false)
  if declared.locals.isEmpty then pure declared.positional.length
  else throw (.malformedUse s!"{what} takes no /local")

/-- Read a parameter list and a function and make a procedure that calls it. -/
def defineNative (engine : Engine) : Run Reader Value := do
  let params ← engine.read .whole
  let params ← onMachine (expectBlock "native parameters" params)
  let native ← engine.read .whole
  let native ← onMachine (expectNative "native" native)
  let arity ← onMachine (arityOf "native" params)
  onMachine (allocate (·.newLeading (.native arity native)))

/-- Read a parameter list and a function and make an operator that calls it. -/
def defineOperator (engine : Engine) : Run Reader Value := do
  let params ← engine.read .whole
  let params ← onMachine (expectBlock "native-infix parameters" params)
  let native ← engine.read .whole
  let native ← onMachine (expectNative "native-infix" native)
  let arity ← onMachine (arityOf "native-infix" params)
  if arity ≠ 2 then
    throw (.malformedUse s!"native-infix takes exactly two parameters, got {arity}")
  onMachine (allocate (·.newOperator (.native native)))

/-- Read a parameter list, a content type and a function and make a procedure whose calls are
suspended. -/
def defineAsync (engine : Engine) : Run Reader Value := do
  let params ← engine.read .whole
  let params ← onMachine (expectBlock "native-async parameters" params)
  let mime ← engine.read .whole
  let mime ← onMachine (expectText "native-async content type" mime)
  let native ← engine.read .whole
  let native ← onMachine (expectNative "native-async" native)
  let arity ← onMachine (arityOf "native-async" params)
  onMachine (allocate (·.newLeading (.async arity mime native)))

/-! ## Performing -/

/-- Read two suspensions as they are and join them. -/
def performPipe (engine : Engine) : Run Reader Value := do
  let left ← engine.read .deferred
  let right ← engine.read .deferred
  match left, right with
  | .suspension left, .suspension right =>
    let joined ← onMachine (pipe engine left right)
    pure (.suspension joined)
  | left, right =>
    throw (.typeMismatch
      s!"pipe needs two suspends, got {left.typeName} and {right.typeName}")

/-- Call a procedure with frames. -/
def callFrame (engine : Engine) (ref : Ref .frame) : Run Reader Value := do
  -- A call that there is no room for fails when its arguments have been read.
  let args ← readArgs engine ((← get).machine.frames.get ref).arity
  onMachine (runFrame engine ref args)

/-- Suspend the body of a streaming procedure with a new activation. -/
def suspendBody (definition : StreamDefinition) (args : List Value) : Run Machine Value := do
  let out ← allocate Machine.newChannel
  let activation := (← get).activations.next
  let slots := padded definition.width args
  modify fun m => { m with
    activations := m.activations.alloc
      ⟨definition.body, definition.scene, slots, .none, out, slots⟩ }
  let ref ← allocate fun m => m.newSuspension
    ⟨.created, some (.body activation), out, definition.acceptsInput, none⟩
  pure (.suspension ref)

/-- Call a streaming procedure: its body is suspended. -/
def callStreaming (engine : Engine) (definition : StreamDefinition) : Run Reader Value := do
  let args ← readArgs engine definition.arity
  onMachine (suspendBody definition args)

/-- Read a value and write it to the output of the activation on scene. -/
def performEmit (engine : Engine) (scene : Ref .scene) : Run Reader Value := do
  let value ← engine.read .whole
  onMachine do
    let activation ← onScene scene "out"
    let out := ((← get).activations.get activation).out
    emit engine out (.next value)
    pure value

/-- What a procedure does that reads its own arguments. -/
def perform (engine : Engine) : Action → Run Reader Value
  | .defineNative => defineNative engine
  | .defineOperator => defineOperator engine
  | .defineAsync => defineAsync engine
  | .pipe => performPipe engine
  | .native arity native => do
    let args ← readArgs engine arity
    onMachine (engine.call native args)
  | .async arity mime native => do
    let args ← readArgs engine arity
    onMachine (suspend (.call native args) true (some mime))
  | .frame ref => callFrame engine ref
  | .streaming definition => callStreaming engine definition
  | .emit scene => performEmit engine scene
  | .host name => engine.hostAction name

/-- What an operator does with its operands. -/
def operate (engine : Engine) (left right : Value) : OperatorAction → Run Reader Value
  | .native native => onMachine (engine.call native [left, right])
  | .host name => engine.hostOperator name left right

end Wordstream
