import Wordstream.Code.Basic
import Wordstream.Failure

/-!
# Parameter lists

A parameter list names what a procedure is given, and after `/local` what it keeps for itself. Where
streaming is allowed, `/in` and `/out` say that it takes input and gives output; they take no names.
-/

namespace Wordstream

/-- What a parameter list declares. -/
structure Parameters where
  positional : List String
  locals : List String
  input : Bool
  output : Bool
  deriving DecidableEq, Repr

namespace Parameters

/-- Nothing declared. -/
def empty : Parameters := ⟨[], [], false, false⟩

/-- The names that get a slot, in the order of their slots. -/
def names (params : Parameters) : List String := params.positional ++ params.locals

/-- Whether a procedure with these parameters is a streaming one. -/
def isStreaming (params : Parameters) : Bool := params.input || params.output

/-- What the words behind a refinement are. -/
inductive Section where
  | positional
  | locals
  | input
  | output
  deriving DecidableEq, Repr

/-- Declare one name in a section. -/
def declare (params : Parameters) (section_ : Section) (name : String) :
    Except Failure Parameters :=
  let unlessTwice (declared : Parameters) : Except Failure Parameters :=
    if params.names.contains name then .error (.malformedUse s!"parameter {name} declared twice")
    else .ok declared
  match section_ with
  | .positional => unlessTwice { params with positional := params.positional ++ [name] }
  | .locals => unlessTwice { params with locals := params.locals ++ [name] }
  | .input => .error (.malformedUse s!"/in takes no names, found {name}")
  | .output => .error (.malformedUse s!"/out takes no names, found {name}")

/-- Turn to the section that a refinement opens. -/
def turn (streaming : Bool) (params : Parameters) (name : String) :
    Except Failure (Parameters × Section) :=
  if name = "local" then .ok (params, .locals)
  else if streaming && name = "in" then .ok ({ params with input := true }, .input)
  else if streaming && name = "out" then .ok ({ params with output := true }, .output)
  else .error (.unsupportedParameterKind name)

/-- Scan the items that are left, the last refinement having opened a section. -/
def scanItems (streaming : Bool) : List Item → Parameters → Section → Except Failure Parameters
  | [], params, _ => .ok params
  | .refinement name :: rest, params, _ => do
    let (params, section_) ← params.turn streaming name
    scanItems streaming rest params section_
  | .word .plain name _ :: rest, params, section_ => do
    let params ← params.declare section_ name
    scanItems streaming rest params section_
  | item :: _, _, _ =>
    .error (.malformedUse s!"{item.display} is not allowed in a parameter list")

/-- The names that a streaming procedure may not declare. -/
def isReserved (name : String) : Bool := name = "in" || name = "out"

/-- The declarations of a parameter list; `streaming` says whether `/in` and `/out` are allowed. -/
def scan (params : Code) (streaming : Bool) : Except Failure Parameters := do
  let declared ← scanItems streaming params.items empty .positional
  match declared.isStreaming, declared.names.find? isReserved with
  | true, some name => .error (.malformedUse s!"{name} is reserved in a streaming proc")
  | _, _ => .ok declared

end Parameters

end Wordstream
