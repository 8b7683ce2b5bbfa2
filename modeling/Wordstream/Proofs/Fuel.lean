import Wordstream.Proofs.Demand

/-!
# Enough fuel

Fuel bounds how deep evaluation is nested and nothing else: what ends with some fuel ends in the
same way with more. A computation that is given fuel ends if there is a bound from which on the
fuel makes no difference.

## Main results

* `Engine.extends_ofFuel` — evaluation with more fuel extends evaluation with less
* `Ends.bind`, `Ends.andThen` — computations in sequence end
-/

namespace Wordstream

/-! ## More fuel -/

/-- The second computation ends wherever the first does, and in the same way. -/
def Extends {σ α : Type} (first second : Effect σ α) : Prop :=
  ∀ state result state', first state = (some result, state') →
    second state = (some result, state')

namespace Extends

variable {σ α β : Type}

theorem refl (action : Effect σ α) : Extends action action := fun _ _ _ ended => ended

/-- A computation that never ends is extended by every other. -/
theorem outOfFuel (action : Effect σ α) : Extends Wordstream.outOfFuel action :=
  fun _ _ _ ended => by cases ended

theorem bind {first first' : Effect σ α} {next next' : α → Effect σ β}
    (before : Extends first first') (after : ∀ result, Extends (next result) (next' result)) :
    Extends (first >>= next) (first' >>= next') := by
  intro state result state' ended
  rw [Effect.bind_apply] at ended ⊢
  cases ran : first state with
  | mk outcome middle =>
    rw [ran] at ended
    cases outcome with
    | none => cases ended
    | some given =>
      rw [before state given middle ran]
      exact after given middle result state' ended

/-- Where the second stops the first does too. -/
theorem stopped {first second : Effect σ α} (h : Extends first second) {state : σ}
    (stops : (second state).1 = none) : (first state).1 = none := by
  cases ran : first state with
  | mk outcome state' =>
    cases outcome with
    | none => rfl
    | some result =>
      rw [h state result state' ran] at stops
      cases stops

theorem onMachine {action action' : Run Machine α} (h : Extends action action') :
    Extends (onMachine action) (onMachine action') := by
  intro reader result reader' ended
  cases ran : action reader.machine with
  | mk outcome m =>
    rw [onMachine_apply, ran] at ended
    cases ended
    rw [onMachine_apply, h _ _ _ ran]

theorem withCursor {action action' : Run Reader α} (h : Extends action action') (cursor : Cursor) :
    Extends (withCursor cursor action) (withCursor cursor action') := by
  intro m result m' ended
  cases ran : action ⟨m, cursor⟩ with
  | mk outcome reader =>
    rw [withCursor_apply, ran] at ended
    cases ended
    rw [withCursor_apply, h _ _ _ ran]

/-- What is done at the end does not depend on how the end was reached. -/
theorem whenEnded {action action' : Effect σ α} (h : Extends action action') (finish : σ → σ)
    {state state' : σ} {result : α}
    (ended : whenEnded finish (action state) = (some result, state')) :
    Wordstream.whenEnded finish (action' state) = (some result, state') := by
  cases ran : action state with
  | mk outcome middle =>
    rw [ran] at ended
    cases outcome with
    | none => cases ended
    | some given => rw [h state given middle ran]; exact ended

end Extends

/-- That one computation extends another is a matter of sequencing only. -/
def extension : Plain where
  Fits := Extends
  stir _ := .refl _
  bind before after := before.bind after
  onMachine h := h.onMachine
  withCursor h cursor := h.withCursor cursor
  arrange _ _ := .refl _
  enlist _ := .refl _
  quiet _ := .refl _
  frame h ref args := by
    intro m result m' ended
    rw [runFrame_apply] at ended ⊢
    split at ended
    · next full => rw [if_pos full]; exact ended
    · next room =>
      rw [if_neg room]
      exact (h _).whenEnded Machine.leave ended
  play scene activation h := by
    intro m result m' ended
    rw [withScene_apply] at ended ⊢
    exact h.whenEnded _ ended

namespace Engine

/-- Without fuel nothing ends, so every engine extends the one without fuel. -/
theorem extends_exhausted (engine : Engine) : extension.discipline.Relates exhausted engine where
  execute _ := .outOfFuel _
  read _ _ := .outOfFuel _
  deferred := .outOfFuel _
  deliver _ := .outOfFuel _
  call _ _ _ := .outOfFuel _
  hostAction _ := .outOfFuel _
  hostOperator _ _ _ _ _ := .outOfFuel _

/-- What ends with some fuel ends in the same way with more. -/
theorem extends_ofFuel {host : Host} (hosted : extension.discipline.Admits host) {fuel more : Nat}
    (h : fuel ≤ more) : extension.discipline.Relates (ofFuel host fuel) (ofFuel host more) := by
  induction fuel generalizing more with
  | zero => exact extends_exhausted _
  | succ fuel ih =>
    obtain ⟨more, rfl⟩ : ∃ rest, more = rest + 1 := ⟨more - 1, by omega⟩
    exact Modest.step (ih (by omega)) hosted

end Engine

/-! ## Coming to an end -/

/-- A computation that is given fuel comes to an end, which is the same for all fuel from some bound
on. -/
def Ends {σ α : Type} (run : Nat → Effect σ α) (state : σ) (result : α) (state' : σ) : Prop :=
  ∃ bound, ∀ fuel, bound ≤ fuel → run fuel state = (some result, state')

namespace Ends

variable {σ α β : Type} {state middle state' : σ}

/-- A computation that needs no fuel ends. -/
theorem of_eq {run : Nat → Effect σ α} {result : α}
    (h : ∀ fuel, run fuel state = (some result, state')) : Ends run state result state' :=
  ⟨0, fun fuel _ => h fuel⟩

/-- A computation ends where another does that does the same from another state. -/
theorem congr {run run' : Nat → Effect σ α} {result : α}
    (same : ∀ fuel, run fuel state = run' fuel middle) (h : Ends run' middle result state') :
    Ends run state result state' := by
  obtain ⟨bound, h⟩ := h
  exact ⟨bound, fun fuel enough => (same fuel).trans (h fuel enough)⟩

/-- What ends with one more unit of fuel ends. -/
theorem of_succ {run : Nat → Effect σ α} {result : α}
    (h : Ends (fun fuel => run (fuel + 1)) state result state') : Ends run state result state' := by
  obtain ⟨bound, ended⟩ := h
  refine ⟨bound + 1, fun fuel enough => ?_⟩
  obtain ⟨fuel, rfl⟩ : ∃ rest, fuel = rest + 1 := ⟨fuel - 1, by omega⟩
  exact ended fuel (by omega)

/-- One effect after another comes to an end if both do. -/
theorem bind {first : Nat → Effect σ α} {next : Nat → α → Effect σ β} {given : α} {result : β}
    (before : Ends first state given middle)
    (after : Ends (fun fuel => next fuel given) middle result state') :
    Ends (fun fuel => first fuel >>= next fuel) state result state' := by
  obtain ⟨bound, before⟩ := before
  obtain ⟨bound', after⟩ := after
  refine ⟨max bound bound', fun fuel enough => ?_⟩
  refine (Effect.bind_apply _ _ _).trans ?_
  rw [before fuel (by omega)]
  exact after fuel (by omega)

/-- One computation after another, the first of which does not fail. -/
theorem andThen {first : Nat → Run σ α} {next : Nat → α → Run σ β} {given : α}
    {result : Except Failure β} (before : Ends first state (.ok given) middle)
    (after : Ends (fun fuel => next fuel given) middle result state') :
    Ends (fun fuel => (first fuel >>= next fuel : Run σ β)) state result state' := by
  obtain ⟨bound, before⟩ := before
  obtain ⟨bound', after⟩ := after
  refine ⟨max bound bound', fun fuel enough => ?_⟩
  refine (Run.bind_apply _ _ _).trans ?_
  rw [before fuel (by omega)]
  exact after fuel (by omega)

/-- An effect that stands among computations that may fail comes to its end. -/
theorem lift {run : Nat → Effect σ α} {result : α} (h : Ends run state result state') :
    Ends (fun fuel => (liftM (run fuel) : Run σ α)) state (.ok result) state' := by
  obtain ⟨bound, h⟩ := h
  refine ⟨bound, fun fuel enough => (Run.lift_apply _ _).trans ?_⟩
  rw [h fuel enough]
  rfl

/-- Going on with a failure as with a result. -/
theorem attempt {run : Nat → Run σ α} {result : Except Failure α}
    (h : Ends run state result state') :
    Ends (fun fuel => Wordstream.attempt (run fuel)) state (.ok result) state' := by
  obtain ⟨bound, h⟩ := h
  refine ⟨bound, fun fuel enough => ?_⟩
  change (Option.map Except.ok (run fuel state).1, (run fuel state).2) = _
  rw [h fuel enough]
  rfl

/-- A failure is the end of all that follows. -/
theorem andThen_error {first : Nat → Run σ α} {next : Nat → α → Run σ β} {failure : Failure}
    (before : Ends first state (.error failure) state') :
    Ends (fun fuel => (first fuel >>= next fuel : Run σ β)) state (.error failure) state' := by
  obtain ⟨bound, before⟩ := before
  refine ⟨bound, fun fuel enough => ?_⟩
  refine (Run.bind_apply _ _ _).trans ?_
  rw [before fuel enough]

theorem onMachine {run : Nat → Run Machine α} {m m' : Machine} {result : Except Failure α}
    (h : Ends run m result m') (cursor : Cursor) :
    Ends (fun fuel => onMachine (run fuel)) ⟨m, cursor⟩ result ⟨m', cursor⟩ := by
  obtain ⟨bound, h⟩ := h
  refine ⟨bound, fun fuel enough => (onMachine_apply _ _).trans ?_⟩
  rw [h fuel enough]

theorem withCursor {run : Nat → Run Reader α} {m : Machine} {cursor : Cursor} {reader : Reader}
    {result : Except Failure α} (h : Ends run ⟨m, cursor⟩ result reader) :
    Ends (fun fuel => withCursor cursor (run fuel)) m result reader.machine := by
  obtain ⟨bound, h⟩ := h
  refine ⟨bound, fun fuel enough => (withCursor_apply _ _ _).trans ?_⟩
  rw [h fuel enough]

end Ends

/-- An evaluation that ends with some fuel ends in the same way with all fuel from there on. -/
theorem ends_evaluate {host : Host} (hosted : extension.discipline.Admits host) {fuel : Nat}
    {text : String} {m m' : Machine} {result : Except Failure Value}
    (ended : evaluate (.ofFuel host fuel) text m = (some result, m')) :
    Ends (fun fuel => evaluate (.ofFuel host fuel) text) m result m' :=
  ⟨fuel, fun _ enough => (Engine.extends_ofFuel hosted enough).evaluate text m result m' ended⟩

end Wordstream
