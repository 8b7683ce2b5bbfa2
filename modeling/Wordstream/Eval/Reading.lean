import Wordstream.Eval.Core

/-!
# Reading values from code

Reading takes the item under the cursor and evaluates it; the operators that follow are applied
strictly from left to right. A value that was read becomes the last result of the machine.
-/

namespace Wordstream

/-- Make a value the last result, and go on with it. -/
def keepResult (value : Value) : Run Reader Value := do
  modifyMachine fun m => { m with result := value }
  pure value

/-! ## Paths -/

/-- Follow the fields of a path from the value of its head; `seen` are the segments before. -/
def projectFields (seen : List String) : List String → Value → Run Machine Value
  | [], value => pure value
  | field :: rest, .object ref => do
    match ((← get).dictionary ref).get? field with
    | some value => projectFields (seen ++ [field]) rest value
    | none => throw (.unboundReference (Node.joinPath (seen ++ [field])))
  | _ :: _, value =>
    throw (.typeMismatch s!"{Node.joinPath seen} is a {value.typeName}, not an object")

/-- The value at the end of a path: that of its head, and then field by field. -/
def project (head : Site) (fields : List String) : Run Machine Value := do
  projectFields [head.symbol] fields (← head.get)

/-- Give the last field of a path a value. -/
def assignField (head : Site) (fields : List String) (value : Value) : Run Machine Unit := do
  match fields.getLast? with
  | none => throw (.malformedUse "empty path")
  | some field =>
    match ← project head fields.dropLast with
    | .object ref => modify (·.assign ref field value)
    | target => throw (.typeMismatch s!"cannot set {field} on a {target.typeName}")

/-! ## Items -/

/-- Perform a procedure that stands before its arguments. -/
def performProcedure (engine : Engine) : Procedure → Run Reader Value
  | .leading _ action => perform engine action
  | .operator _ action => do
    -- Operators that follow belong to what the call gives, not to its operands.
    let left ← engine.read .operand
    let right ← engine.read .operand
    operate engine left right action

/-- Use a value that a plain word or path names: procedures are performed, and so is the default of
an object; every other value stands for itself. -/
def invoke (engine : Engine) : Value → Run Reader Value
  | .procedure procedure => performProcedure engine procedure
  | .object ref => do
    match ((← get).machine.dictionary ref).get? "default" with
    | some (.procedure procedure) => performProcedure engine procedure
    | _ => pure (.object ref)
  | value => pure value

/-- The value of a word. -/
def evaluateWord (engine : Engine) (kind : WordKind) (site : Site) : Run Reader Value :=
  match kind with
  | .quote => pure (.text site.symbol)
  | .get => onMachine site.get
  | .set => do
    -- The value comes first: a name that is not bound fails only when it has been read.
    let value ← engine.read .whole
    onMachine (site.set value)
    pure value
  | .plain => do
    let value ← onMachine site.get
    invoke engine value

/-- The value of a path. -/
def evaluatePath (engine : Engine) (kind : WordKind) (head : Site) (fields : List String) :
    Run Reader Value :=
  match kind with
  | .quote => pure (.text (Node.joinPath (head.symbol :: fields)))
  | .get => onMachine (project head fields)
  | .set => do
    let value ← engine.read .whole
    onMachine (assignField head fields value)
    pure value
  | .plain => do
    let value ← onMachine (project head fields)
    invoke engine value

/-- The value of an item. -/
def evaluateItem (engine : Engine) : Item → Run Reader Value
  | .word kind symbol slot => evaluateWord engine kind ⟨symbol, slot⟩
  | .path kind head fields slot => evaluatePath engine kind ⟨head, slot⟩ fields
  | .group .square id items => pure (.block ⟨id, items⟩)
  | .group .round id items => onMachine (engine.execute ⟨id, items⟩)
  | .literal value => pure value.value
  | .refinement name => throw (.malformedUse s!"refinement /{name} outside a parameter list")

/-! ## Reading -/

/-- Move the cursor behind the next item. -/
def step : Run Reader Unit := modify fun reader => { reader with cursor := reader.cursor.forward }

/-- Take the next item and evaluate it. -/
def fetch (engine : Engine) : Run Reader Value := do
  match (← get).cursor.rest with
  | [] => throw .exhaustedCode
  | item :: _ =>
    step
    evaluateItem engine item

/-- The next item is evaluated, if there is one. -/
theorem fetch_apply (engine : Engine) (reader : Reader) :
    fetch engine reader =
      match reader.cursor.rest with
      | [] => (some (.error .exhaustedCode), reader)
      | item :: _ => evaluateItem engine item ⟨reader.machine, reader.cursor.forward⟩ := by
  change (match reader.cursor.rest with
    | [] => throw Failure.exhaustedCode
    | item :: _ => step >>= fun _ => evaluateItem engine item : Run Reader Value) reader = _
  cases reader.cursor.rest <;> rfl

/-- Read an operand; a suspension is resumed. -/
def readOperand (engine : Engine) : Run Reader Value := do
  let value ← fetch engine
  let value ← onMachine (autoResume value)
  keepResult value

/-- Read an operand and leave a suspension as it is. -/
def readDeferred (engine : Engine) : Run Reader Value := do
  let value ← fetch engine
  keepResult value

/-- Apply an operator to the value on its left. -/
def applyOperator (engine : Engine) (site : Site) (left : Value) : Run Reader Value := do
  match ← onMachine site.get with
  | .procedure (.operator _ action) =>
    let right ← engine.read .operand
    operate engine left right action
  | .native native =>
    let right ← engine.read .operand
    onMachine (engine.call native [left, right])
  | value => throw (.notInvocable s!"{site.symbol} is a {value.typeName}")

/-- Apply the operators that follow, at most one for each item of `bound`. -/
def readOperators (engine : Engine) : (bound : List Item) → Value → Run Reader Value
  | [], value => pure value
  | _ :: bound, value => do
    match (← get).cursor.rest with
    | .word kind symbol slot :: _ =>
      if isOperator kind symbol then
        step
        let value ← applyOperator engine ⟨symbol, slot⟩ value
        -- What an operator gives is in use like an operand.
        let value ← onMachine (autoResume value)
        let value ← keepResult value
        readOperators engine bound value
      else pure value
    | _ => pure value

/-- Read an operand and apply the operators that follow; there are at most as many as items. -/
def readWhole (engine : Engine) : Run Reader Value := do
  let value ← readOperand engine
  readOperators engine (← get).cursor.rest value

/-- Read as much as is asked for. -/
def readValue (engine : Engine) : Reading → Run Reader Value
  | .whole => readWhole engine
  | .operand => readOperand engine
  | .deferred => readDeferred engine

/-- At the end there is nothing to read, and nothing is done. -/
theorem readValue_atEnd (engine : Engine) (reading : Reading) {reader : Reader}
    (ended : reader.cursor.rest = []) :
    readValue engine reading reader = (some (.error .exhaustedCode), reader) := by
  have fetched : fetch engine reader = (some (.error .exhaustedCode), reader) := by
    rw [fetch_apply, ended]
  have operand : readOperand engine reader = (some (.error .exhaustedCode), reader) := by
    rw [readOperand, Run.bind_apply, fetched]
  cases reading with
  | whole => rw [readValue, readWhole, Run.bind_apply, operand]
  | operand => exact operand
  | deferred => rw [readValue, readDeferred, Run.bind_apply, fetched]

/-! ## Running code -/

/-- Read values to the end of the code, at most `bound` of them, and give the last. -/
def readToEnd (engine : Engine) : (bound : Nat) → Value → Run Reader Value
  | 0, last => pure last
  | bound + 1, last => do
    if (← get).cursor.atEnd then pure last
    else
      let value ← engine.read .whole
      readToEnd engine bound value

/-- Before the end a value is read, and then the rest. -/
theorem readToEnd_succ (engine : Engine) (bound : Nat) (last : Value) (reader : Reader) :
    readToEnd engine (bound + 1) last reader =
      if reader.cursor.atEnd then (some (.ok last), reader)
      else (engine.read .whole >>= readToEnd engine bound) reader := by
  change (ite _ _ _ : Run Reader Value) reader = _
  split <;> rfl

/-- Run a code from its start to its end and give its last value. Each value takes at least one
item, so there are at most as many as items. -/
def executeCode (engine : Engine) (code : Code) : Run Machine Value :=
  withCursor (.start code) (readToEnd engine code.items.length .none)

end Wordstream
