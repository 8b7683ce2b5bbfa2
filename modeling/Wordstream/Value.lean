import Wordstream.Code.Basic
import Wordstream.Failure

/-!
# Values

What evaluation computes with. Objects, suspensions and tasks are references into the store of a
machine; functions and procedures carry an identity, by which alone they are compared.
-/

namespace Wordstream

/-- The kinds of cells that a store holds. -/
inductive Entity where
  | dictionary
  | frame
  | scene
  | activation
  | channel
  | collector
  | probe
  | stage
  | suspension
  | task
  | implementation
  deriving DecidableEq, Hashable, Repr

/-- A reference to a cell of one kind. -/
structure Ref (kind : Entity) where
  index : Nat
  deriving DecidableEq, Repr

instance {kind : Entity} : Inhabited (Ref kind) := ⟨⟨0⟩⟩

/-- The functions of the core library. -/
inductive CoreFunction where
  | add
  | sub
  | mul
  | gt
  | eq
  | either
  | proc
  | fn
  | module
  | throw
  | print
  deriving DecidableEq, Repr

/-- What a function does: a function of the core library, or one that the host gives by name. -/
inductive Operation where
  | core (function : CoreFunction)
  | host (name : String)
  deriving DecidableEq, Repr

/-- A function over values that are evaluated already. -/
structure Native where
  id : Nat
  operation : Operation
  deriving DecidableEq, Repr

/-- A procedure whose calls are suspensions. Its body is bound to the activation that its scene cell
holds. -/
structure StreamDefinition where
  arity : Nat
  width : Nat
  body : Code
  acceptsInput : Bool
  scene : Ref .scene

/-- What a procedure does that reads its arguments from the code behind it. -/
inductive Action where
  /-- Make a procedure of a parameter list and a function. -/
  | defineNative
  /-- Make an operator of a parameter list and a function. -/
  | defineOperator
  /-- Make a procedure whose calls are suspended, of a parameter list, a content type and a
  function. -/
  | defineAsync
  /-- Join two suspensions. -/
  | pipe
  /-- Read arguments and call a function. -/
  | native (arity : Nat) (native : Native)
  /-- Read arguments and suspend the call of a function. -/
  | async (arity : Nat) (mime : String) (native : Native)
  /-- Read arguments and run the body of a definition on a new frame. -/
  | frame (definition : Ref .frame)
  /-- Read arguments and suspend a body with a new activation. -/
  | streaming (definition : StreamDefinition)
  /-- Write a value to the output of the activation that is on scene. -/
  | emit (scene : Ref .scene)
  /-- What the host does under a name. -/
  | host (name : String)

/-- What an operator does with its two operands. -/
inductive OperatorAction where
  | native (native : Native)
  | host (name : String)

/-- Something that reads its own arguments. -/
inductive Procedure where
  | leading (id : Nat) (action : Action)
  | operator (id : Nat) (action : OperatorAction)

namespace Procedure

/-- Whether a procedure stands between its operands. -/
def isOperator : Procedure → Bool
  | leading _ _ => false
  | operator _ _ => true

/-- Procedures are the same when they have the same place and the same identity. -/
def same : Procedure → Procedure → Bool
  | leading a _, leading b _ => a = b
  | operator a _, operator b _ => a = b
  | _, _ => false

end Procedure

/-- A value. -/
inductive Value where
  | none
  | bool (value : Bool)
  | number (value : Float)
  | text (value : String)
  | block (code : Code)
  | object (fields : Ref .dictionary)
  | native (native : Native)
  | procedure (procedure : Procedure)
  | suspension (suspension : Ref .suspension)
  | task (task : Ref .task)

instance : Inhabited Value := ⟨.none⟩

namespace Value

/-- The name of the type of a value. -/
def typeName : Value → String
  | none => "none"
  | bool _ => "bool"
  | number _ => "number"
  | text _ => "string"
  | block _ => "block"
  | object _ => "object"
  | native _ => "native"
  | procedure _ => "proc"
  | suspension _ => "suspend"
  | task _ => "task"

/-- All values count as true but nothing and false. -/
def isTruthy : Value → Bool
  | none => false
  | bool value => value
  | _ => true

end Value

/-- The value of a constant. -/
def Literal.value : Literal → Value
  | number value => .number value
  | text value => .text value

/-- What a name is bound to: an entry of a dictionary, a slot counted from the base of a frame, a
slot of the activation on a scene, the input of that activation, or the procedure that writes its
output. -/
inductive Binding where
  | dictionary (dictionary : Ref .dictionary)
  | frameSlot (frame : Ref .frame) (index : Nat)
  | cell (scene : Ref .scene) (index : Nat)
  | input (scene : Ref .scene)
  | output (procedure : Procedure)

/-- What travels on a channel: values, and in the end a failure or completion. -/
inductive Signal where
  | next (value : Value)
  | failed (failure : Failure)
  | complete

/-- Whether a signal is the last of its channel. -/
def Signal.isTerminal : Signal → Bool
  | next _ => false
  | failed _ => true
  | complete => true

end Wordstream
