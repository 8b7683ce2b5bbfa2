import Wordstream.Eval.Reading
import Wordstream.Node.Nest

/-!
# Evaluation with fuel

Evaluation calls itself through the record of its recursive calls. With no fuel every call runs out;
with one more unit of fuel every call may use the calls that the fuel before allows. Fuel bounds how
deep evaluation is nested, so what ends with some fuel ends in the same way with more.
-/

namespace Wordstream

/-- What a host offers by name: functions, procedures and operators. -/
structure Host where
  native : Engine → String → List Value → Run Machine Value
  action : Engine → String → Run Reader Value
  operator : Engine → String → Value → Value → Run Reader Value

namespace Host

/-- The host that offers nothing. -/
def none : Host where
  native _ name _ := throw (.notInvocable name)
  action _ name := throw (.notInvocable name)
  operator _ name _ _ := throw (.notInvocable name)

end Host

/-- Call a function: one of the core library, or one of the host. -/
def callNative (host : Host) (engine : Engine) (native : Native) (args : List Value) :
    Run Machine Value :=
  match native.operation with
  | .core function => function.apply engine args
  | .host name => host.native engine name args

namespace Engine

/-- The calls that are possible without fuel: none. -/
def exhausted : Engine where
  execute _ := outOfFuel
  read _ := outOfFuel
  deliver _ := outOfFuel
  call _ _ := outOfFuel
  hostAction _ := outOfFuel
  hostOperator _ _ _ := outOfFuel

/-- The calls that are possible when those of a given engine may be used within them. -/
def step (host : Host) (engine : Engine) : Engine where
  execute code := executeCode engine code
  read reading := readValue engine reading
  deliver ref := deliverAll engine ref
  call native args := callNative host engine native args
  hostAction name := host.action engine name
  hostOperator name left right := host.operator engine name left right

/-- The calls that some fuel allows. The fields are spelled out, so that an engine is made only when
one of its calls is. -/
def ofFuel (host : Host) : Nat → Engine
  | 0 => exhausted
  | fuel + 1 => {
      execute := fun code => executeCode (ofFuel host fuel) code
      read := fun reading => readValue (ofFuel host fuel) reading
      deliver := fun ref => deliverAll (ofFuel host fuel) ref
      call := fun native args => callNative host (ofFuel host fuel) native args
      hostAction := fun name => host.action (ofFuel host fuel) name
      hostOperator := fun name left right => host.operator (ofFuel host fuel) name left right }

/-- One more unit of fuel is one more step. -/
theorem ofFuel_succ (host : Host) (fuel : Nat) :
    ofFuel host (fuel + 1) = step host (ofFuel host fuel) := rfl

end Engine

/-- Evaluate a source text in a machine: read it, bind its words to the root dictionary, run it. -/
def evaluate (engine : Engine) (text : String) : Run Machine Value := do
  match Node.parse (.ofString "<eval>" text) with
  | .error found => throw (.unreadable found)
  | .ok nodes =>
    let code ← allocate (·.load nodes)
    engine.execute code

end Wordstream
