import Wordstream.Eval.Engine

/-!
# A toolkit of host values

A host for trying things out: functions that look at their arguments and at the machine, sources
that end in every way a source can end, procedures that look at the code they are called from, and
two operators.
-/

namespace Wordstream

/-- The texts of values with commas between them. -/
def joinedText (m : Machine) (values : List Value) : String :=
  ",".intercalate (values.map m.display)

/-- A new source that takes no input. -/
def newSource (source : Source) : Run Machine Value := suspend (.source source) false none

/-- A natural number as a value. -/
def countValue (n : Nat) : Value := .number (Float.ofNat n)

/-- The values but the last, and a failure with the text of the last one. -/
def withFailure (values : List Value) : Run Machine (List Value × Failure) := do
  let m ← get
  pure (values.dropLast, .thrown (m.display (values.getLast?.getD .none)))

/-- What each function of the toolkit does. -/
def toolkitNative (engine : Engine) (name : String) (args : List Value) : Run Machine Value := do
  let m ← get
  match name with
  | "join" => pure (.text (joinedText m args))
  | "count" => pure (countValue args.length)
  | "id" => pure (args.headD .none)
  | "none" => pure .none
  | "true" => pure (.bool true)
  | "false" => pure (.bool false)
  | "fail" => throw (.thrown (joinedText m args))
  | "hostfail" => throw (.hostTaskFailure (joinedText m args))
  | "stack" => pure (countValue m.stack.size)
  | "pending" => pure (countValue m.pending.length)
  | "result" => pure m.result
  | "eval" =>
    match args with
    | .text text :: _ => evaluate engine text
    | _ => throw (.typeMismatch "host/eval expects a string")
  | "emit" => newSource (.steady args .complete)
  | "tick" => newSource (.ticking args .complete)
  | "hang" => newSource (.steady args .hang)
  | "error" =>
    let (values, failure) ← withFailure args
    newSource (.steady values (.fail failure))
  | "quiet" =>
    let (values, failure) ← withFailure args
    newSource (.steady values (.quiet failure))
  | name => throw (.notInvocable name)

/-- Read values to the end of the code, at most `bound` of them. -/
def readRest (engine : Engine) : (bound : Nat) → Run Reader (List Value)
  | 0 => pure []
  | bound + 1 => do
    if (← get).cursor.atEnd then pure []
    else
      let value ← engine.read .whole
      let values ← readRest engine bound
      pure (value :: values)

/-- What each procedure of the toolkit does. -/
def toolkitAction (engine : Engine) (name : String) : Run Reader Value := do
  match name with
  | "pos" => pure (countValue (← get).cursor.position)
  | "raw2" =>
    let first ← engine.read .operand
    let second ← engine.read .operand
    pure (.text (joinedText (← get).machine [first, second]))
  | "defer" =>
    let value ← engine.read .deferred
    pure (.text value.typeName)
  | "rest" =>
    let bound := (← get).cursor.rest.length
    let values ← readRest engine bound
    pure (.text (joinedText (← get).machine values))
  | name => throw (.notInvocable name)

/-- What each operator of the toolkit does. -/
def toolkitOperator (_ : Engine) (name : String) (left right : Value) : Run Reader Value := do
  match name with
  | "pair" => pure (.text ("(" ++ joinedText (← get).machine [left, right] ++ ")"))
  | "both" => onMachine (newSource (.steady [left, right] .complete))
  | name => throw (.notInvocable name)

/-- The host that offers the toolkit. -/
def toolkit : Host where
  native := toolkitNative
  action := toolkitAction
  operator := toolkitOperator

/-- The functions of the toolkit. -/
def toolkitNatives : List String :=
  ["join", "count", "id", "none", "true", "false", "fail", "hostfail", "stack", "pending",
    "result", "eval", "emit", "tick", "hang", "error", "quiet"]

/-- The procedures of the toolkit. -/
def toolkitActions : List String := ["pos", "raw2", "defer", "rest"]

/-- The operators of the toolkit. -/
def toolkitOperators : List String := ["pair", "both"]

/-- A new value of the toolkit. -/
def toolkitValue (m : Machine) (name : String) : Value × Machine :=
  if toolkitActions.contains name then m.newLeading (.host name)
  else if toolkitOperators.contains name then m.newOperator (.host name)
  else m.newNative (.host name)

/-- All values of the toolkit under their names, each new. -/
def toolkitTable (m : Machine) : Dictionary × Machine :=
  (toolkitNatives ++ toolkitActions ++ toolkitOperators).foldl (fun (table, m) name =>
    let (value, m) := toolkitValue m name
    (table.insert name value, m)) (.empty, m)

/-- Define the toolkit in the root dictionary. -/
def installToolkit (m : Machine) : Machine :=
  let (table, m) := toolkitTable m
  let (ref, m) := m.newDictionary table
  m.define "host" (.object ref)

end Wordstream
