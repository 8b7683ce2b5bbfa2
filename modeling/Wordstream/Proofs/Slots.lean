import Wordstream.Proofs.Frames

/-!
# Slots of calls

A name of a procedure with frames is a slot, counted from the base of the definition. While a call
of the definition is active, that slot is one of its newest call, whatever other calls are on the
stack above and below it.

When no call of the definition is active, its slots are counted from the bottom of the stack. Using
one fails only if the stack is not that high; otherwise it reaches a slot of another definition's
call.

## Main results

* `Reachable.slots_of_newest_call` — a name is the slot of the newest call, and of no other call
* `Reachable.slots_without_call` — what a name is when no call of its definition is active
-/

namespace Wordstream

/-- A place on the stack is one of the slots of a call. -/
def Machine.Owns (m : Machine) (call : Call) (place : Nat) : Prop :=
  call.start ≤ place ∧ place < call.start + m.width call.definition

instance (m : Machine) (call : Call) (place : Nat) : Decidable (m.Owns call place) :=
  inferInstanceAs (Decidable (_ ∧ _))

/-! ## Access by place -/

/-- A declared name has a slot, which is where the name stands among those declared. -/
theorem exists_slotIndex? {names : List String} {name : String} (declared : name ∈ names) :
    ∃ index, slotIndex? names name = some index ∧ names[index]? = some name := by
  have found : (slotIndex? names name).isSome := by
    rw [slotIndex?, List.findIdx?_isSome, List.any_eq_true]
    exact ⟨name, declared, decide_eq_true rfl⟩
  obtain ⟨index, index_eq⟩ := Option.isSome_iff_exists.1 found
  refine ⟨index, index_eq, ?_⟩
  obtain ⟨within, same, _⟩ := List.findIdx?_eq_some_iff_getElem.1 index_eq
  rw [List.getElem?_eq_getElem within, of_decide_eq_true same]

/-- Reading a slot changes nothing. It fails if the stack does not reach it. -/
theorem frameSlot_get_apply (ref : Ref .frame) (index : Nat) (symbol : String) (m : Machine) :
    (Binding.frameSlot ref index).get symbol m =
      match m.stack[(m.frames.get ref).base + index]? with
      | some value => (some (.ok value), m)
      | none => (some (.error (outsideCall symbol)), m) := by
  rw [Binding.get, Run.bind_apply]
  change (match m.stack[(m.frames.get ref).base + index]? with
    | some value => pure value
    | none => throw (outsideCall symbol) : Run Machine Value) m = _
  cases m.stack[(m.frames.get ref).base + index]? with
  | some value => rfl
  | none => rfl

/-- Writing a slot changes its place on the stack. It fails if the stack does not reach it. -/
theorem frameSlot_set_apply (ref : Ref .frame) (index : Nat) (symbol : String) (value : Value)
    (m : Machine) :
    (Binding.frameSlot ref index).set symbol value m =
      if (m.frames.get ref).base + index < m.stack.size then
        (some (.ok ()),
          { m with stack := m.stack.setIfInBounds ((m.frames.get ref).base + index) value })
      else (some (.error (outsideCall symbol)), m) := by
  rw [Binding.set, Run.bind_apply]
  change (ite _ _ _ : Run Machine Unit) m = _
  split
  · rfl
  · rfl

/-- A place that the stack reaches can be read and written. -/
theorem frameSlot_access {m : Machine} {ref : Ref .frame} {index place : Nat} (symbol : String)
    (at_place : (m.frames.get ref).base + index = place) (within : place < m.stack.size) :
    (∃ value, m.stack[place]? = some value ∧
      (Binding.frameSlot ref index).get symbol m = (some (.ok value), m)) ∧
    ∀ value, (Binding.frameSlot ref index).set symbol value m =
      (some (.ok ()), { m with stack := m.stack.setIfInBounds place value }) := by
  constructor
  · have value_eq := Array.getElem?_eq_getElem within
    refine ⟨_, value_eq, ?_⟩
    rw [frameSlot_get_apply, at_place, value_eq]
  · intro value
    rw [frameSlot_set_apply, at_place, if_pos within]

/-- A place that the stack does not reach can be neither read nor written. -/
theorem frameSlot_refused {m : Machine} {ref : Ref .frame} {index place : Nat} (symbol : String)
    (at_place : (m.frames.get ref).base + index = place) (beyond : m.stack.size ≤ place) :
    (Binding.frameSlot ref index).get symbol m = (some (.error (outsideCall symbol)), m) ∧
    ∀ value, (Binding.frameSlot ref index).set symbol value m =
      (some (.error (outsideCall symbol)), m) := by
  constructor
  · rw [frameSlot_get_apply, at_place, Array.getElem?_eq_none beyond]
  · intro value
    rw [frameSlot_set_apply, at_place, if_neg (Nat.not_lt.2 beyond)]

/-! ## Regions -/

namespace Machine.Framed

variable {m : Machine}

/-- The active calls make up the whole stack. -/
theorem lt_size_iff_exists_owner (h : m.Framed) (place : Nat) :
    place < m.stack.size ↔ ∃ call ∈ m.calls, m.Owns call place := by
  constructor
  · exact h.tiled.exists_owner
  · rintro ⟨call, member, owned⟩
    have below := h.tiled.end_le member
    exact Nat.lt_of_lt_of_le owned.2 below

/-- No place belongs to two active calls. -/
theorem disjoint (h : m.Framed) :
    m.calls.Pairwise fun newer older => ∀ place, m.Owns newer place → ¬ m.Owns older place := by
  refine h.tiled.pairwise.imp fun {newer older} below place owned owned_older => ?_
  have start_le := owned.1
  have lt_end := owned_older.2
  omega

/-- What belongs to one of the active calls belongs to none of the others. -/
theorem not_owns_of_other (h : m.Framed) {newer older : List Call} {call : Call}
    (calls : m.calls = newer ++ call :: older) {place : Nat} (owned : m.Owns call place) :
    ∀ other ∈ newer ++ older, ¬ m.Owns other place := by
  have disjoint := h.disjoint
  rw [calls, List.pairwise_append, List.pairwise_cons] at disjoint
  obtain ⟨_, ⟨below, _⟩, above⟩ := disjoint
  intro other member owned_other
  rcases List.mem_append.1 member with member | member
  · exact above other member call List.mem_cons_self place owned_other owned
  · exact below other member place owned owned_other

end Machine.Framed

/-- The active calls own consecutive and disjoint regions that make up the whole stack. A definition
that has an active call has its base at the start of its newest one, and the stack reaches as far as
that call does. So every declared name can be read and written: it is a slot of the newest call, the
one at the place of the name, and belongs to no other active call. -/
theorem Reachable.slots_of_newest_call {host : Host} (hosted : host.IsConfined) {m : Machine}
    (h : Reachable host m) :
    Tiled m.width m.calls m.stack.size ∧
    (∀ place, place < m.stack.size ↔ ∃ call ∈ m.calls, m.Owns call place) ∧
    (m.calls.Pairwise fun newer older => ∀ place, m.Owns newer place → ¬ m.Owns older place) ∧
    ∀ ref, (∃ call ∈ m.calls, call.definition = ref) →
      ∃ newer call older, m.calls = newer ++ call :: older ∧ call.definition = ref ∧
        (∀ other ∈ newer, other.definition ≠ ref) ∧
        (m.frames.get ref).base = call.start ∧
        (m.frames.get ref).base + m.width ref ≤ m.stack.size ∧
        ∀ name ∈ (m.frames.get ref).names, ∃ index,
          (m.frames.get ref).names[index]? = some name ∧
          frameScope ref (m.frames.get ref).names name = some (.frameSlot ref index) ∧
          m.Owns call (call.start + index) ∧
          (∀ other ∈ newer ++ older, ¬ m.Owns other (call.start + index)) ∧
          (∃ value, m.stack[call.start + index]? = some value ∧
            (Binding.frameSlot ref index).get name m = (some (.ok value), m)) ∧
          ∀ value, (Binding.frameSlot ref index).set name value m =
            (some (.ok ()),
              { m with stack := m.stack.setIfInBounds (call.start + index) value }) := by
  have framed := h.framed hosted
  refine ⟨framed.tiled, framed.lt_size_iff_exists_owner, framed.disjoint, fun ref active => ?_⟩
  obtain ⟨newer, call, older, calls, named, others, start⟩ := exists_newest active
  have base : (m.frames.get ref).base = call.start := (framed.based ref).trans start
  have member : call ∈ m.calls := by
    rw [calls]
    exact List.mem_append_right _ List.mem_cons_self
  have reach : call.start + m.width ref ≤ m.stack.size := by
    have below := framed.tiled.end_le member
    rwa [named] at below
  refine ⟨newer, call, older, calls, named, others, base, base ▸ reach, fun name declared => ?_⟩
  obtain ⟨index, index_eq, at_index⟩ := exists_slotIndex? declared
  have narrow : index < m.width ref := (List.getElem?_eq_some_iff.1 at_index).1
  have owned : m.Owns call (call.start + index) := by
    refine ⟨Nat.le_add_right _ _, ?_⟩
    rw [named]
    exact Nat.add_lt_add_left narrow _
  -- The region of the newest call lies within the stack, whatever has been laid on top of it.
  have within : call.start + index < m.stack.size := by omega
  refine ⟨index, at_index, ?_, owned, framed.not_owns_of_other calls owned,
    frameSlot_access name (by rw [base]) within⟩
  rw [frameScope, index_eq]
  rfl

/-- Two procedures that call each other, interrupted in the third call: the base of the first one is
at the start of the newest call, not of the oldest. -/
theorem Reachable.slots_of_newest_call_in_recursion :
    let inside := ((Demand.evaluate "proc: native [params body] :core/proc
        f: proc [x] [g x x] g: proc [y z] [f y] f \"a\"").run
      (.interrupted toolkit (fun m => 3 ≤ m.depth) 20) 20 .stocked).2
    inside.calls = [⟨⟨0⟩, 3, 0⟩, ⟨⟨1⟩, 1, 0⟩, ⟨⟨0⟩, 0, 0⟩] ∧
      ∃ call ∈ inside.calls, call.definition = ⟨0⟩ ∧
        (inside.frames.get ⟨0⟩).base = call.start ∧
        (inside.frames.get ⟨0⟩).base + inside.width ⟨0⟩ ≤ inside.stack.size := by
  intro inside
  have calls : inside.calls = [⟨⟨0⟩, 3, 0⟩, ⟨⟨1⟩, 1, 0⟩, ⟨⟨0⟩, 0, 0⟩] := by decide +kernel
  have reached : Reachable toolkit inside :=
    (reachable_stocked toolkit).demand (.evaluate _) (fun m => 3 ≤ m.depth) 20
  obtain ⟨_, _, _, newest⟩ := Reachable.slots_of_newest_call isConfined_toolkit reached
  obtain ⟨newer, call, older, split, named, _, base, reach, _⟩ :=
    newest ⟨0⟩ ⟨⟨⟨0⟩, 3, 0⟩, calls ▸ List.mem_cons_self, rfl⟩
  exact ⟨calls, call, split ▸ List.mem_append_right _ List.mem_cons_self, named, base, reach⟩

/-- When no call of a definition is active, its slots are counted from the bottom of the stack. A
slot that the stack does not reach is refused, and nothing changes; so every slot is when no call
is active at all. A slot that the stack reaches belongs to an active call of another definition,
and is read and written there. -/
theorem Reachable.slots_without_call {host : Host} (hosted : host.IsConfined) {m : Machine}
    (h : Reachable host m) {ref : Ref .frame} (absent : ∀ call ∈ m.calls, call.definition ≠ ref)
    (index : Nat) (symbol : String) :
    (m.calls = [] → m.stack.size ≤ index) ∧
    (m.stack.size ≤ index →
      (Binding.frameSlot ref index).get symbol m = (some (.error (outsideCall symbol)), m) ∧
      ∀ value, (Binding.frameSlot ref index).set symbol value m =
        (some (.error (outsideCall symbol)), m)) ∧
    (index < m.stack.size →
      (∃ call ∈ m.calls, call.definition ≠ ref ∧ m.Owns call index) ∧
      (∃ value, m.stack[index]? = some value ∧
        (Binding.frameSlot ref index).get symbol m = (some (.ok value), m)) ∧
      ∀ value, (Binding.frameSlot ref index).set symbol value m =
        (some (.ok ()), { m with stack := m.stack.setIfInBounds index value })) := by
  have framed := h.framed hosted
  -- The base went back to the bottom when the last call was left, and nothing marks it as unused.
  have at_index : (m.frames.get ref).base + index = index := by
    rw [framed.based ref, startOf_of_absent absent, Nat.zero_add]
  refine ⟨fun idle => ?_, frameSlot_refused symbol at_index, fun within => ⟨?_, ?_⟩⟩
  · have flat : Tiled m.width [] m.stack.size := idle ▸ framed.tiled
    exact Nat.le_trans (Nat.le_of_eq flat) (Nat.zero_le index)
  · obtain ⟨call, member, owned⟩ := (framed.lt_size_iff_exists_owner index).1 within
    exact ⟨call, member, absent call member, owned⟩
  · exact frameSlot_access symbol at_index within

/-- A call of one procedure gives another that uses its parameter, which is then called from a third
procedure. -/
def escapingText : String := "proc: native [params body] :core/proc
f: proc [x] [proc [] [x]] h: f \"own\" g: proc [y] [h] g \"foreign\""

/-- The machine in the call of the procedure that has escaped, with the third procedure's call
below. -/
def Machine.escaping : Machine :=
  ((Demand.evaluate escapingText).run (.interrupted toolkit (fun m => 2 ≤ m.depth) 20) 20
    .stocked).2

theorem reachable_escaping : Reachable toolkit .escaping :=
  (reachable_stocked toolkit).demand (.evaluate _) (fun m => 2 ≤ m.depth) 20

/-- No call of the first procedure is active there, but the stack reaches its slot. -/
theorem escaping_calls : (∀ call ∈ Machine.escaping.calls, call.definition ≠ ⟨0⟩) ∧
    0 < Machine.escaping.stack.size := by
  decide +kernel

/-- So the slot can be written, in the call of another procedure. -/
theorem Reachable.slots_without_call_escaping :
    (∃ call ∈ Machine.escaping.calls, call.definition ≠ ⟨0⟩ ∧ Machine.escaping.Owns call 0) ∧
    (Binding.frameSlot ⟨0⟩ 0).set "x" .none .escaping =
      (some (.ok ()), { Machine.escaping with
        stack := Machine.escaping.stack.setIfInBounds 0 .none }) := by
  obtain ⟨absent, within⟩ := escaping_calls
  obtain ⟨_, _, reached⟩ :=
    Reachable.slots_without_call isConfined_toolkit reachable_escaping absent 0 "x"
  obtain ⟨owner, _, written⟩ := reached within
  exact ⟨owner, written .none⟩

/-- The text that a computation has given, if it is one. -/
def textOf? : Option (Except Failure Value) → Option String
  | some (.ok (.text text)) => some text
  | _ => none

/-- A parameter of a procedure without active calls is read, and is the argument of another call:
its slot belongs to that call. The evaluation ends with it. -/
theorem stale_slot_is_foreign :
    (Machine.escaping.frames.get ⟨0⟩).names = ["x"] ∧
    (∀ call ∈ Machine.escaping.calls, call.definition ≠ ⟨0⟩) ∧
    (∃ call ∈ Machine.escaping.calls, Machine.escaping.Owns call 0) ∧
    textOf? ((Binding.frameSlot ⟨0⟩ 0).get "x" .escaping).1 = some "foreign" ∧
    textOf? (evaluate (.ofFuel toolkit 20) escapingText .stocked).1 = some "foreign" := by
  decide +kernel

end Wordstream
