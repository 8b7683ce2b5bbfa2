import Wordstream.Eval.Procedure

/-!
# The core library

Arithmetic and comparison, choice, the making of procedures and modules, throwing and printing.
-/

namespace Wordstream

/-! ## Modules -/

/-- Run code with the symbols it assigns bound to a new dictionary, which may be given entries, and
give the dictionary. -/
def executeInto (engine : Engine) (code : Code) (entries : Dictionary := .empty) :
    Run Machine (Ref .dictionary) := do
  let dictionary ← allocate (·.openScope code entries)
  let _ ← engine.execute code
  pure dictionary

/-- Evaluate the description and the body of a module and give what the body assigned. -/
def evaluateModule (engine : Engine) (description body : Code) : Run Machine (Ref .dictionary) := do
  let _ ← executeInto engine description
  executeInto engine body

/-! ## Arguments -/

/-- The two arguments of a function. -/
def twoArgs (name : String) : List Value → Run Machine (Value × Value)
  | [a, b] => pure (a, b)
  | args => throw (.typeMismatch s!"{name} takes 2 arguments, got {args.length}")

/-- The code of an argument. -/
def blockArg (name : String) : Value → Run Machine Code
  | .block code => pure code
  | value => throw (.typeMismatch s!"{name} expects a block, got {value.typeName}")

/-- Two arguments as numbers. -/
def numberArgs (name : String) : Value → Value → Run Machine (Float × Float)
  | .number a, .number b => pure (a, b)
  | a, b => throw (.typeMismatch s!"{name} expects numbers, got {a.typeName} and {b.typeName}")

/-! ## Texts and equality -/

/-- The text of a value. There is no end to showing an object that is within itself. -/
def shown (value : Value) : Run Machine String := do
  match (← get).display? value with
  | some text => pure text
  | none => endless

/-- Whether two values are equal. There need not be an end to comparing objects that are within
themselves. -/
def compared (a b : Value) : Run Machine Bool := do
  match (← get).equal? a b with
  | some same => pure same
  | none => endless

/-! ## Functions -/

namespace CoreFunction

/-- The sum of numbers; with a text on either side, the texts put together. -/
def applyAdd (a b : Value) : Run Machine Value := do
  let joined : Run Machine Value := do
    let left ← shown a
    let right ← shown b
    pure (.text (left ++ right))
  match a, b with
  | .text _, _ => joined
  | _, .text _ => joined
  | a, b =>
    let (a, b) ← numberArgs "add" a b
    pure (.number (a + b))

/-- Whether the first is greater: of two texts by code points, of two numbers by size. -/
def applyGt (a b : Value) : Run Machine Value := do
  match a, b with
  | .text a, .text b => pure (.bool (b < a))
  | a, b =>
    let (a, b) ← numberArgs "gt" a b
    pure (.bool (b < a))

/-- One of two values; a block is executed. -/
def applyEither (engine : Engine) (condition ifTrue ifFalse : Value) : Run Machine Value :=
  match if condition.isTruthy then ifTrue else ifFalse with
  | .block code => engine.execute code
  | value => pure value

/-- A procedure of a parameter list and a body. -/
def applyProcedure (name : String) (streaming : Bool) (args : List Value) : Run Machine Value := do
  let (params, body) ← twoArgs name args
  let params ← blockArg name params
  let body ← blockArg name body
  makeProcedure params body streaming

/-- What a core function does with its arguments. -/
def apply (engine : Engine) (function : CoreFunction) (args : List Value) : Run Machine Value := do
  match function with
  | add =>
    let (a, b) ← twoArgs "add" args
    applyAdd a b
  | sub =>
    let (a, b) ← twoArgs "sub" args
    let (a, b) ← numberArgs "sub" a b
    pure (.number (a - b))
  | mul =>
    let (a, b) ← twoArgs "mul" args
    let (a, b) ← numberArgs "mul" a b
    pure (.number (a * b))
  | gt =>
    let (a, b) ← twoArgs "gt" args
    applyGt a b
  | eq =>
    let (a, b) ← twoArgs "eq" args
    let same ← compared a b
    pure (.bool same)
  | either =>
    match args with
    | [condition, ifTrue, ifFalse] => applyEither engine condition ifTrue ifFalse
    | args => MonadExcept.throw (.typeMismatch s!"either takes 3 arguments, got {args.length}")
  | proc => applyProcedure "proc" true args
  | fn => applyProcedure "fn" false args
  | module =>
    let (description, body) ← twoArgs "module" args
    let description ← blockArg "module" description
    let body ← blockArg "module" body
    let exports ← evaluateModule engine description body
    pure (.object exports)
  | throw =>
    let message ← shown (args.headD .none)
    MonadExcept.throw (.thrown message)
  | print =>
    let value := args.headD .none
    let text ← shown value
    modify fun m => { m with printed := m.printed ++ [text] }
    pure value

/-- The name of a core function. -/
def name : CoreFunction → String
  | add => "add"
  | sub => "sub"
  | mul => "mul"
  | gt => "gt"
  | eq => "eq"
  | either => "either"
  | proc => "proc"
  | fn => "fn"
  | module => "module"
  | throw => "throw"
  | print => "print"

/-- All core functions. -/
def all : List CoreFunction :=
  [add, sub, mul, gt, eq, either, proc, fn, module, throw, print]

end CoreFunction

/-- The core functions under their names, each new. -/
def coreTable (m : Machine) : Dictionary × Machine :=
  CoreFunction.all.foldl (fun (table, m) function =>
    let (value, m) := Machine.newNative m (.core function)
    (table.insert function.name value, m)) (.empty, m)

end Wordstream
