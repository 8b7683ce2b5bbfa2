import Wordstream.Eval.Run

/-!
# Reading and writing through bindings

A name is read and written through what its site is bound to. A slot of a frame is addressed from
the base of the newest call of its definition; it can be used only while the stack reaches it. A
slot of an activation is that of the activation on scene.
-/

namespace Wordstream

/-- The failure of using a slot of a frame that the stack does not reach. -/
def outsideCall (symbol : String) : Failure :=
  .malformedUse s!"{symbol} used outside its procedure call"

/-- The activation on a scene. -/
def onScene (scene : Ref .scene) (symbol : String) : Run Machine (Ref .activation) := do
  match (← get).scenes.get scene with
  | some activation => pure activation
  | none => throw (.malformedUse s!"{symbol} used outside its procedure body")

/-- A symbol of a streaming procedure has a meaning only while somebody is on scene. -/
theorem onScene_apply (scene : Ref .scene) (symbol : String) (m : Machine) :
    onScene scene symbol m =
      match m.scenes.get scene with
      | some activation => (some (.ok activation), m)
      | none =>
        (some (.error (.malformedUse s!"{symbol} used outside its procedure body")), m) := by
  change (match m.scenes.get scene with
    | some activation => pure activation
    | none => throw (Failure.malformedUse s!"{symbol} used outside its procedure body") :
      Run Machine (Ref .activation)) m = _
  cases m.scenes.get scene <;> rfl

namespace Binding

/-- The value that a symbol has. -/
def get (binding : Binding) (symbol : String) : Run Machine Value := do
  let m ← MonadState.get
  match binding with
  | dictionary ref =>
    match (m.dictionary ref).get? symbol with
    | some value => pure value
    | none => throw (.unboundReference symbol)
  | frameSlot frame index =>
    match m.stack[(m.frames.get frame).base + index]? with
    | some value => pure value
    | none => throw (outsideCall symbol)
  | cell scene index =>
    let activation ← onScene scene symbol
    match (m.activations.get activation).slots[index]? with
    | some value => pure value
    | none => throw (.malformedUse s!"no slot for {symbol}")
  | input scene =>
    let activation ← onScene scene symbol
    pure (m.activations.get activation).input
  | output procedure => pure (.procedure procedure)

/-- A symbol that is bound to a dictionary has the value of its entry. -/
theorem getDictionary_apply (ref : Ref .dictionary) (symbol : String) (m : Machine) :
    (dictionary ref).get symbol m =
      match (m.dictionary ref).get? symbol with
      | some value => (some (.ok value), m)
      | none => (some (.error (.unboundReference symbol)), m) := by
  change (match (m.dictionary ref).get? symbol with
    | some value => pure value
    | none => throw (Failure.unboundReference symbol) : Run Machine Value) m = _
  cases (m.dictionary ref).get? symbol <;> rfl

/-- Give a symbol a value. -/
def set (binding : Binding) (symbol : String) (value : Value) : Run Machine Unit := do
  let m ← MonadState.get
  match binding with
  | dictionary ref => modify (·.assign ref symbol value)
  | frameSlot frame index =>
    let place := (m.frames.get frame).base + index
    if place < m.stack.size then
      modify fun m => { m with stack := m.stack.setIfInBounds place value }
    else throw (outsideCall symbol)
  | cell scene index =>
    let ref ← onScene scene symbol
    let activation := m.activations.get ref
    if index < activation.slots.length then
      modify fun m =>
        { m with activations :=
            m.activations.set ref { activation with slots := activation.slots.set index value } }
    else throw (.malformedUse s!"no slot for {symbol}")
  | input _ => throw (.malformedUse "cannot assign to in")
  | output _ => throw (.malformedUse "cannot assign to out")

end Binding

namespace Site

/-- What a site is bound to. -/
def binding (site : Site) : Run Machine Binding := do
  match (← MonadState.get).binding? site.slot with
  | some binding => pure binding
  | none => throw (.unboundReference site.symbol)

/-- The symbol of a site has a meaning only if the site is bound. -/
theorem binding_apply (site : Site) (m : Machine) :
    site.binding m =
      match m.binding? site.slot with
      | some binding => (some (.ok binding), m)
      | none => (some (.error (.unboundReference site.symbol)), m) := by
  change (match m.binding? site.slot with
    | some binding => pure binding
    | none => throw (Failure.unboundReference site.symbol) : Run Machine Binding) m = _
  cases m.binding? site.slot <;> rfl

/-- The value that the symbol of a site has. -/
def get (site : Site) : Run Machine Value := do
  (← site.binding).get site.symbol

/-- Give the symbol of a site a value. -/
def set (site : Site) (value : Value) : Run Machine Unit := do
  (← site.binding).set site.symbol value

end Site

end Wordstream
