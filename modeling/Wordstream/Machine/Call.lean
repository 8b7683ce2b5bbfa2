import Wordstream.Machine.Basic

/-!
# Entering and leaving calls

A call of a procedure with frames lays its slots on top of the stack and moves the base of its
definition there. Leaving the newest call takes its slots off again and gives the definition back
the base that it had.

## Main results

* `Machine.get_enter`, `Machine.leave_of_calls` — what both do to definitions and to the stack
-/

namespace Wordstream

/-- Arguments as the slots of a call: filled up with nothing, or cut off, to their number. -/
def padded (width : Nat) (args : List Value) : List Value :=
  (args ++ List.replicate (width - args.length) Value.none).take width

/-- There are as many slots as asked for. -/
@[simp]
theorem length_padded (width : Nat) (args : List Value) : (padded width args).length = width := by
  simp only [padded, List.length_take, List.length_append, List.length_replicate]
  omega

namespace Machine

/-- How many slots the calls of a definition have. -/
def width (m : Machine) (ref : Ref .frame) : Nat := (m.frames.get ref).names.length

/-- Set the base of a definition. -/
def setBase (m : Machine) (ref : Ref .frame) (base : Nat) : Machine :=
  { m with frames := m.frames.set ref { m.frames.get ref with base := base } }

/-- Enter a call: count it, lay its slots on the stack, and make it the newest of its definition. -/
def enter (m : Machine) (ref : Ref .frame) (args : List Value) : Machine :=
  { m.setBase ref m.stack.size with
    depth := m.depth + 1
    calls := ⟨ref, m.stack.size, (m.frames.get ref).base⟩ :: m.calls
    stack := m.stack ++ padded (m.width ref) args }

/-- Leave the newest call: take its slots off the stack and restore the base of its definition. -/
def leave (m : Machine) : Machine :=
  match m.calls with
  | [] => m
  -- All above the start goes, not only the slots of the call.
  | call :: calls => { m.setBase call.definition call.previous with
      depth := m.depth - 1
      calls := calls
      stack := m.stack.shrink call.start }

/-- Setting a base changes nothing else of any definition. -/
@[simp]
theorem get_setBase (m : Machine) (ref other : Ref .frame) (base : Nat) :
    (m.setBase ref base).frames.get other =
      if other = ref then { m.frames.get ref with base := base } else m.frames.get other :=
  Arena.get_set ..

/-- Setting a base leaves the slots of every definition as many as they are. -/
@[simp]
theorem width_setBase (m : Machine) (ref : Ref .frame) (base : Nat) :
    (m.setBase ref base).width = m.width := by
  funext other
  simp only [width, get_setBase]
  split
  · next same => rw [same]
  · rfl

/-- Entering a call moves the base of its definition to the top of the stack. -/
@[simp]
theorem get_enter (m : Machine) (ref other : Ref .frame) (args : List Value) :
    (m.enter ref args).frames.get other =
      if other = ref then { m.frames.get ref with base := m.stack.size }
      else m.frames.get other :=
  get_setBase ..

/-- Entering a call makes the stack higher by the slots of its definition. -/
@[simp]
theorem size_enter (m : Machine) (ref : Ref .frame) (args : List Value) :
    (m.enter ref args).stack.size = m.stack.size + m.width ref := by
  rw [← Array.length_toList]
  simp [enter]

/-- What leaving the newest call does. -/
theorem leave_of_calls {m : Machine} {call : Call} {calls : List Call}
    (h : m.calls = call :: calls) :
    m.leave = { m.setBase call.definition call.previous with
      depth := m.depth - 1
      calls := calls
      stack := m.stack.shrink call.start } := by
  unfold leave
  rw [h]

end Machine

end Wordstream
