import Wordstream.Proofs.Pipeline

/-!
# Pipes are associative in effect

What comes of a source and the workers behind it is a function of the values of the source and of
the conduct of the workers. So it does not depend on how they were grouped, on how the values were
split, or on when a collector came to the output.

The results are shown at work on two kinds of steps: calls of functions that compute a value and do
nothing else, and the body of a streaming procedure that passes its input on.

## Main results

* `Piping.Ready.pipe_ends` — a source that is piped to a worker
* `Piping.Ready.pipe_assoc` — a source and two workers, grouped in both ways
* `Step.follows_ofFunction`, `PassingOn.follows` — steps that follow these conducts
-/

namespace Wordstream

/-- A stage that has a result takes no further values: its step does not run. -/
theorem deliverToStage_of_result (engine : Engine) {ref : Ref .stage} {m : Machine}
    (ended : (m.stages.get ref).result.isSome) (value : Value) :
    deliverToStage engine ref (.next value) m = (some (), m) := by
  have atEnd : ¬ (m.stages.get ref).result.isNone := by
    rw [Option.isNone_iff_eq_none]
    exact Option.isSome_iff_ne_none.1 ended
  rw [deliverToStage_next, if_neg atEnd]

/-- A step that fails leaves its stage with a result. -/
theorem isSome_of_failed_step {engine : Engine} {ref : Ref .stage} {value : Value}
    {failure : Failure} {m m₁ m' : Machine} (waiting : (m.stages.get ref).result = none)
    (failed : runStep engine (m.stages.get ref) value m = (some (.error failure), m₁))
    (ended : deliverToStage engine ref (.next value) m = (some (), m')) :
    (m'.stages.get ref).result.isSome := by
  rw [deliverToStage_next, if_pos (by rw [waiting]; rfl)] at ended
  obtain ⟨_, _, stepped, ended⟩ := Effect.of_bind ended
  cases stepped.symm.trans failed
  obtain ⟨_, m₂, told, ended⟩ := Effect.of_bind ended
  cases given : (m₂.stages.get ref).result with
  | none =>
    rw [finishStage_of_none _ given] at ended
    cases ended
    change ((m₂.stages.set ref _).get ref).result.isSome
    rw [Arena.get_set, if_pos rfl]
    rfl
  | some result =>
    rw [finishStage_of_some _ given] at ended
    cases ended
    rw [given]
    rfl

/-- Of three results, the first of which is also the last, the last makes no difference. -/
theorem bothResults_bothResults (first second : Result) :
    bothResults first (bothResults second first) = bothResults first second := by
  cases first with
  | error failure => rfl
  | ok => exact bothResults_ok second

/-! ## Steps that compute a value -/

/-- A step that calls a function, by which each value is answered with one, or fails. -/
def Conduct.ofFunction (args : List Value) (function : List Value → Except Failure Value) :
    Conduct where
  Suits memory := memory = none
  respond memory value :=
    match function (args ++ [value]) with
    | .ok output => ⟨[output], .ok (), memory⟩
    | .error failure => ⟨[], .error failure.asHostFailure, memory⟩

/-- Calling a function that computes a value and does nothing else follows the conduct of the
function. -/
theorem Step.follows_ofFunction {engine : Nat → Engine} {world : Setting} {native : Native}
    {args : List Value} {function : List Value → Except Failure Value}
    (computes : ∀ values m, Ends (fun fuel => (engine fuel).call native values) m
      (function values) m)
    (admits : ∀ value output, function (args ++ [value]) = .ok output → world.Admits output)
    (out : Ref .channel) :
    (Step.call native args).Follows engine world out (.ofFunction args function) where
  suits {memory value} suits _ ok := by
    rw [Conduct.ofFunction] at ok ⊢
    dsimp only at ok ⊢
    split at ok
    · exact suits
    · cases ok
  admits {memory value} _ _ output member := by
    rw [Conduct.ofFunction] at member
    dsimp only at member
    split at member
    · next computed => exact List.mem_singleton.1 member ▸ admits value _ computed
    · cases member
  runs Told _ write {m value} holds _ suits told := by
    have called := (computes (args ++ [value]) m).attempt
    rw [Conduct.ofFunction]
    dsimp only
    cases computed : function (args ++ [value]) with
    | ok output =>
      obtain ⟨m', written, told', holds', posture, own⟩ :=
        write told holds (admits value output computed)
      rw [computed] at called
      exact ⟨m', called.andThen written.lift, told', holds', posture, own⟩
    | error failure =>
      rw [computed] at called
      -- Nothing is written, and the step fails with what the host makes of the failure.
      have refused : Ends (fun _ => (throw failure.asHostFailure : Run Machine Unit)) m
        (.error failure.asHostFailure) m := .of_eq fun _ => rfl
      exact ⟨m, called.andThen refused, told, holds, .of_footing rfl, rfl⟩

/-! ## Steps that pass values on -/

/-- Whether a value stands for itself wherever it is named. -/
def Value.isInert : Value → Bool
  | .object _ | .procedure _ | .suspension _ => false
  | _ => true

section Inert

variable {value : Value} (inert : value.isInert)

include inert

theorem invoke_of_isInert (engine : Engine) : invoke engine value = pure value := by
  cases value <;> first | rfl | cases inert

theorem autoResume_of_isInert : autoResume value = pure value := by
  cases value <;> first | rfl | cases inert

/-- What stands at the end of a code is read if it gives a value that stands for itself. -/
theorem Ends.read_last {host : Host} {m m' : Machine} {item : Item} {rest : List Item}
    {position position' : Nat}
    (evaluates : Ends (fun fuel => evaluateItem (.ofFuel host fuel) item)
      ⟨m, ⟨position + 1, rest⟩⟩ (.ok value) ⟨m', ⟨position', []⟩⟩) :
    Ends (fun fuel => (Engine.ofFuel host fuel).read .whole) ⟨m, ⟨position, item :: rest⟩⟩
      (.ok value) ⟨{ m' with result := value }, ⟨position', []⟩⟩ := by
  have fetched : Ends (fun fuel => fetch (.ofFuel host fuel)) ⟨m, ⟨position, item :: rest⟩⟩
      (.ok value) ⟨m', ⟨position', []⟩⟩ :=
    .andThen (.of_eq fun _ => rfl) (.andThen (.of_eq fun _ => rfl) evaluates)
  have resumed : Ends (fun _ => Wordstream.onMachine (autoResume value)) ⟨m', ⟨position', []⟩⟩
      (.ok value) ⟨m', ⟨position', []⟩⟩ := by
    rw [autoResume_of_isInert inert]
    exact .of_eq fun _ => rfl
  have kept : Ends (fun _ => keepResult value) ⟨m', ⟨position', []⟩⟩ (.ok value)
      ⟨{ m' with result := value }, ⟨position', []⟩⟩ := .of_eq fun _ => rfl
  have operand : Ends (fun fuel => readOperand (.ofFuel host fuel)) ⟨m, ⟨position, item :: rest⟩⟩
      (.ok value) ⟨{ m' with result := value }, ⟨position', []⟩⟩ :=
    fetched.andThen (resumed.andThen kept)
  have whole : Ends (fun fuel => readWhole (.ofFuel host fuel)) ⟨m, ⟨position, item :: rest⟩⟩
      (.ok value) ⟨{ m' with result := value }, ⟨position', []⟩⟩ :=
    operand.andThen (.andThen (.of_eq fun _ => rfl) (.of_eq fun _ => rfl))
  exact .of_succ whole

end Inert

/-- A symbol has the value that its binding gives it. -/
theorem siteGet_of_binding {m : Machine} {site : Site} {binding : Binding}
    (bound : m.binding? site.slot = some binding) : site.get m = binding.get site.symbol m := by
  rw [Site.get, Run.bind_apply, Site.binding_apply, bound]

/-- What is done with an activation on scene comes to its end, and the scene is given back. -/
theorem Ends.withScene {α : Type} {run : Nat → Run Machine α} {result : Except Failure α}
    {m m' : Machine} {scene : Ref .scene} {activation : Ref .activation}
    (h : Ends run (m.mount scene activation) result m') :
    Ends (fun fuel => Wordstream.withScene scene activation (run fuel)) m result
      (m'.dismount scene activation (m.scenes.get scene)) := by
  obtain ⟨bound, h⟩ := h
  refine ⟨bound, fun fuel enough => (withScene_apply ..).trans ?_⟩
  rw [h fuel enough]
  rfl

/-- A streaming procedure that writes its input to its output: the scene of its activations, and the
slots of the two words of its body. -/
structure PassingOn where
  code : CodeId
  scene : Ref .scene
  emitter : Nat
  outSlot : SlotId
  inSlot : SlotId

namespace PassingOn

/-- The body, which is `out in`. -/
def body (x : PassingOn) : Code :=
  ⟨x.code, [.word .plain "out" x.outSlot, .word .plain "in" x.inSlot]⟩

/-- The words of the body stand for the output and the input of the activation on scene. -/
structure Bound (x : PassingOn) (m : Machine) : Prop where
  out : m.binding? x.outSlot = some (.output (.leading x.emitter (.emit x.scene)))
  input : m.binding? x.inSlot = some (.input x.scene)

/-- The body relies on its bindings, and is given values that stand for themselves. -/
def setting (x : PassingOn) : Setting where
  Holds := x.Bound
  Admits value := value.isInert
  of_backdrop {m m'} same bound := by
    have slots := congrArg Machine.slots same
    change m'.slots = m.slots at slots
    exact ⟨by rw [Machine.binding?, slots]; exact bound.out,
      by rw [Machine.binding?, slots]; exact bound.input⟩

/-- Each value is written to the output, and is the input that is left. -/
def conduct (x : PassingOn) (out : Ref .channel) : Conduct where
  Suits memory := ∃ slots input left, memory = some ⟨x.body, x.scene, slots, input, out, left⟩
  respond memory value := ⟨[value], .ok (), memory.map fun x => (x.give value).rest⟩

section Runs

variable {x : PassingOn} {host : Host} {m : Machine} {a : Ref .activation} {value : Value}
  {position : Nat}

/-- The second word of the body gives the input. -/
theorem Bound.ends_read_input (bound : x.Bound m) (inert : value.isInert)
    (onStage : m.scenes.get x.scene = some a) (input : (m.activations.get a).input = value) :
    Ends (fun fuel => (Engine.ofFuel host fuel).read .whole)
      ⟨m, ⟨position, [.word .plain "in" x.inSlot]⟩⟩ (.ok value)
      ⟨{ m with result := value }, ⟨position + 1, []⟩⟩ := by
  have found : Site.get ⟨"in", x.inSlot⟩ m = (some (.ok value), m) := by
    rw [siteGet_of_binding bound.input]
    change (onScene x.scene "in" >>= fun activation => pure (m.activations.get activation).input :
      Run Machine Value) m = _
    rw [Run.bind_apply, onScene_apply, onStage]
    exact congrArg (fun value => (some (Except.ok value), m)) input
  have fetched : Ends (fun _ => onMachine (Site.get ⟨"in", x.inSlot⟩)) ⟨m, ⟨position + 1, []⟩⟩
      (.ok value) ⟨m, ⟨position + 1, []⟩⟩ := .of_eq fun _ => by rw [onMachine_apply, found]
  refine .read_last inert (fetched.andThen (.of_eq fun fuel => ?_))
  rw [invoke_of_isInert inert]
  rfl

/-- The body writes the input of the activation on scene to its output. -/
theorem Bound.ends_execute {m' : Machine} (bound : x.Bound m) (inert : value.isInert)
    (onStage : m.scenes.get x.scene = some a) (input : (m.activations.get a).input = value)
    (written : Ends (fun fuel => emit (.ofFuel host fuel) (m.activations.get a).out (.next value))
      { m with result := value } () m') :
    Ends (fun fuel => (Engine.ofFuel host fuel).execute x.body) m (.ok value)
      { m' with result := value } := by
  have found : Site.get ⟨"out", x.outSlot⟩ m =
      (some (.ok (.procedure (.leading x.emitter (.emit x.scene)))), m) := by
    rw [siteGet_of_binding bound.out]
    rfl
  have fetched : Ends (fun _ => onMachine (Site.get ⟨"out", x.outSlot⟩))
      ⟨m, ⟨1, [.word .plain "in" x.inSlot]⟩⟩ (.ok (.procedure (.leading x.emitter (.emit x.scene))))
      ⟨m, ⟨1, [.word .plain "in" x.inSlot]⟩⟩ := .of_eq fun _ => by rw [onMachine_apply, found]
  have emitted : Ends (fun fuel => (do
        let activation ← onScene x.scene "out"
        let out := ((← get).activations.get activation).out
        emit (.ofFuel host fuel) out (.next value)
        pure value : Run Machine Value)) { m with result := value } (.ok value) m' := by
    have here : Ends (fun _ => onScene x.scene "out") { m with result := value } (.ok a)
        { m with result := value } := .of_eq fun _ => by
      rw [onScene_apply, show ({ m with result := value } : Machine).scenes.get x.scene = some a
        from onStage]
    exact here.andThen (.andThen (.of_eq fun _ => rfl) (written.lift.andThen (.of_eq fun _ => rfl)))
  -- The word `out` reads its argument, which is the input, and writes it.
  have performed : Ends (fun fuel => performEmit (.ofFuel host fuel) x.scene)
      ⟨m, ⟨1, [.word .plain "in" x.inSlot]⟩⟩ (.ok value) ⟨m', ⟨2, []⟩⟩ :=
    (bound.ends_read_input inert onStage input).andThen (emitted.onMachine _)
  have read : Ends (fun fuel => (Engine.ofFuel host fuel).read .whole) ⟨m, .start x.body⟩
      (.ok value)
      ⟨{ m' with result := value }, ⟨2, []⟩⟩ := .read_last inert (fetched.andThen performed)
  have toEnd : Ends (fun fuel => readToEnd (.ofFuel host fuel) 2 .none) ⟨m, .start x.body⟩
      (.ok value) ⟨{ m' with result := value }, ⟨2, []⟩⟩ :=
    .andThen (.of_eq fun _ => rfl) (read.andThen (.of_eq fun _ => rfl))
  exact .of_succ toEnd.withCursor

/-- The body of a streaming procedure that passes its input on follows the conduct. -/
theorem follows (x : PassingOn) (host : Host) (a : Ref .activation) (out : Ref .channel) :
    (Step.body a).Follows (Engine.ofFuel host) x.setting out (x.conduct out) where
  suits {memory value} suits _ _ := by
    obtain ⟨slots, input, left, rfl⟩ := suits
    exact ⟨slots, value, slots, rfl⟩
  admits {memory value} _ admits output member := List.mem_singleton.1 member ▸ admits
  runs Told aside write {m value} holds admits suits told := by
    obtain ⟨slots, input, left, own⟩ := suits
    have own : m.activations.get a = ⟨x.body, x.scene, slots, input, out, left⟩ :=
      Option.some.inj own
    -- The activation gets its input and comes on scene.
    let given : Activation := ⟨x.body, x.scene, slots, value, out, left⟩
    let m₁ : Machine := { m with activations := m.activations.set a given }
    let m₂ := m₁.mount x.scene a
    have here : m₂.activations.get a = given := by
      change (m.activations.set a given).get a = given
      rw [Arena.get_set, if_pos rfl]
    have onStage : m₂.scenes.get x.scene = some a := by
      change (m.scenes.set x.scene (some a)).get x.scene = some a
      rw [Arena.get_set, if_pos rfl]
    have touches : m.Touches (Step.body a).things { m₂ with result := value } :=
      { Machine.Touches.refl m _ with
        activation := fun ref apart => by
          change (m.activations.set a given).get ref = _
          rw [Arena.get_set, if_neg]
          rintro rfl
          exact apart (List.mem_singleton_self _) }
    have bound : x.Bound m₂ := ⟨holds.out, holds.input⟩
    have ready : x.Bound { m₂ with result := value } := ⟨holds.out, holds.input⟩
    obtain ⟨m₃, written, told₃, holds₃, posture, own₃⟩ := write (aside told touches) ready admits
    rw [← show (m₂.activations.get a).out = out by rw [here]] at written
    have played := (bound.ends_execute admits onStage (by rw [here]) written).withScene
    -- When the body has ended, who was on scene before is there again.
    have ran : Ends (fun fuel => runStep (.ofFuel host fuel) ⟨.body a, out, none⟩ value) m (.ok ())
        (({ m₃ with result := value } : Machine).dismount x.scene a (m.scenes.get x.scene)) := by
      have atEnd : Ends
          (fun fuel => (withScene x.scene a ((Engine.ofFuel host fuel).execute x.body) >>=
            fun _ => pure () : Run Machine Unit)) m₁ (.ok ()) _ :=
        played.andThen (.of_eq fun _ => rfl)
      refine .congr (fun fuel => ?_) atEnd
      change (withScene (m.activations.get a).scene a
          ((Engine.ofFuel host fuel).execute (m.activations.get a).body) >>= fun _ => pure () :
          Run Machine Unit)
        { m with activations := m.activations.set a ((m.activations.get a).give value) } = _
      rw [own]
      rfl
    have rests : m₃.Touches (Step.body a).things
        (({ m₃ with result := value } : Machine).dismount x.scene a (m.scenes.get x.scene)) :=
      { Machine.Touches.refl m₃ _ with
        activation := fun ref apart => by
          change (m₃.activations.set a _).get ref = _
          rw [Arena.get_set, if_neg]
          rintro rfl
          exact apart (List.mem_singleton_self _) }
    refine ⟨_, ran, aside told₃ rests, ⟨holds₃.out, holds₃.input⟩,
      ⟨posture.stack, posture.depth, posture.calls, posture.base, fun ref => ?_⟩, ?_⟩
    · change (m₃.scenes.set x.scene (m.scenes.get x.scene)).get ref = _
      rw [Arena.get_set]
      split
      · next same => rw [same]
      · next different =>
        rw [posture.scene ref]
        change (m.scenes.set x.scene (some a)).get ref = _
        rw [Arena.get_set, if_neg different]
    · have own₃ : m₃.activations.get a = given := (Option.some.inj own₃).trans here
      change some ((m₃.activations.set a (m₃.activations.get a).rest).get a) =
        some ((m.activations.get a).give value).rest
      rw [Arena.get_set, if_pos rfl, own₃, own]
      rfl

end Runs

end PassingOn

/-! ## At work -/

namespace Piping

/-- What `sub` makes of its arguments. -/
def difference : List Value → Except Failure Value
  | [a, b] =>
    match a, b with
    | .number a, .number b => .ok (.number (a - b))
    | a, b => .error (.typeMismatch s!"sub expects numbers, got {a.typeName} and {b.typeName}")
  | args => .error (.typeMismatch s!"sub takes 2 arguments, got {args.length}")

/-- A difference stands for itself. -/
theorem isInert_of_difference {values : List Value} {output : Value}
    (computed : difference values = .ok output) : output.isInert := by
  unfold difference at computed
  split at computed
  · split at computed
    · cases computed
      rfl
    · cases computed
  · cases computed

/-- The function computes the difference and does nothing else. -/
theorem ends_call_sub (host : Host) (id : Nat) (values : List Value) (m : Machine) :
    Ends (fun fuel => (Engine.ofFuel host fuel).call ⟨id, .core .sub⟩ values) m (difference values)
      m := by
  refine .of_succ (.of_eq fun fuel => ?_)
  change CoreFunction.apply (.ofFuel host fuel) .sub values m = _
  match values with
  | [a, b] => cases a <;> cases b <;> rfl
  | [] | [_] | _ :: _ :: _ :: _ => rfl

/-- A worker that takes each number from ten. -/
def fromTen : Worker :=
  ⟨⟨1⟩, ⟨1⟩, .call ⟨0, .core .sub⟩ [.number 10], ⟨.ofFunction [.number 10] difference, none⟩⟩

/-- The procedure of a worker that passes values on. -/
def passingOn : PassingOn := ⟨⟨0⟩, ⟨0⟩, 0, ⟨0⟩, ⟨1⟩⟩

/-- The activation of that worker at the start. -/
def idleActivation : Activation := ⟨passingOn.body, passingOn.scene, [], .none, ⟨2⟩, []⟩

/-- A worker that passes values on. -/
def passer : Worker := ⟨⟨2⟩, ⟨2⟩, .body ⟨0⟩, ⟨passingOn.conduct ⟨2⟩, some idleActivation⟩⟩

/-- A source in front of some of these workers. -/
def fromSource (portions : List (List Value)) (result : Result) (workers : List Worker) : Piping :=
  ⟨⟨0⟩, ⟨0⟩, portions, result, workers⟩

/-- A machine with a source and both workers. -/
def workshop (source : Source) : Machine :=
  { Machine.ofConfig .standard with
    slots := #[some (.output (.leading 0 (.emit ⟨0⟩))), some (.input ⟨0⟩)]
    scenes := Arena.empty.alloc none
    activations := Arena.empty.alloc idleActivation
    channels := ((Arena.empty.alloc .fresh).alloc .fresh).alloc .fresh
    suspensions := ((Arena.empty.alloc ⟨.created, some (.source source), ⟨0⟩, false, none⟩).alloc
      ⟨.created, some fromTen.step.work, fromTen.out, true, some "number"⟩).alloc
      ⟨.created, some passer.step.work, passer.out, true, none⟩ }

section Workshop

variable {portions : List (List Value)} {result : Result} {workers : List Worker}

/-- One or both of the workers. -/
def AtWork (workers : List Worker) : Prop := workers = [passer] ∨ workers = [fromTen, passer]

theorem AtWork.forall_mem (atWork : AtWork workers) {P : Worker → Prop} (first : P fromTen)
    (second : P passer) : ∀ x ∈ workers, P x := by
  rcases atWork with rfl | rfl <;> simp [first, second]

/-- The workers can be piped behind a source. -/
theorem AtWork.joinable (atWork : AtWork workers) :
    Joinable (workshop ⟨portions, .ofResult result⟩)
      (fromSource portions result workers).parts where
  offers := by
    refine List.forall_mem_cons.2 ⟨⟨rfl, rfl, rfl, nofun⟩, List.forall_mem_map.2 ?_⟩
    exact atWork.forall_mem ⟨rfl, rfl, rfl, nofun⟩ ⟨rfl, rfl, rfl, nofun⟩
  accepts := List.forall_mem_map.2 (atWork.forall_mem rfl rfl)
  refs := by
    rcases atWork with rfl | rfl
    · exact (by decide : [(⟨0⟩ : Ref .suspension), ⟨2⟩].Nodup)
    · exact (by decide : [(⟨0⟩ : Ref .suspension), ⟨1⟩, ⟨2⟩].Nodup)
  outs := by
    rcases atWork with rfl | rfl
    · exact (by decide : [(⟨0⟩ : Ref .channel), ⟨2⟩].Nodup)
    · exact (by decide : [(⟨0⟩ : Ref .channel), ⟨1⟩, ⟨2⟩].Nodup)
  has := by
    refine List.forall_mem_cons.2 ⟨(by decide : 0 < 3), List.forall_mem_map.2 ?_⟩
    exact atWork.forall_mem (by decide : 1 < 3) (by decide : 2 < 3)
  fresh := by
    rcases atWork with rfl | rfl
    · exact List.forall_mem_singleton.2 rfl
    · exact List.forall_mem_cons.2 ⟨rfl, List.forall_mem_singleton.2 rfl⟩

/-- The workers can be piped behind a source whose values stand for themselves. -/
theorem AtWork.ready (atWork : AtWork workers) (portions : List (List Value))
    (inert : ∀ value ∈ portions.flatten, value.isInert) (result : Result) :
    (fromSource portions result workers).Ready (Engine.ofFuel .none) passingOn.setting .kept
      (workshop ⟨portions, .ofResult result⟩) where
  joinable := atWork.joinable
  arrives := by rcases atWork with rfl | rfl <;> rfl
  has := trivial
  own := atWork.forall_mem rfl rfl
  activations := by
    rcases atWork with rfl | rfl <;>
      exact (by decide : [(⟨.activation, 0⟩ : Thing)].Nodup)
  follows := atWork.forall_mem
    (Step.follows_ofFunction (ends_call_sub _ _) (fun _ _ => isInert_of_difference) _)
    (passingOn.follows _ _ _)
  suits := atWork.forall_mem rfl ⟨[], .none, [], rfl⟩
  holds := ⟨rfl, rfl⟩
  admits := inert

end Workshop

/-! ## One worker -/

section Effect

variable {host : Host} {p : Piping} {world : Setting} {exit : Exit} {m : Machine}

/-- A source is piped to a worker, and the pipe is resumed without input and driven. Then the
output has what the steps for the values write, up to and including the first that fails, and ends
with the failure of that step, or else as the source does; the result of the task is the failure
of the source, or else that of the step. No step runs behind one that fails: the activation is as
that step left it, the stage of the worker has the result, and in general a step that fails leaves
its stage with one, and a stage that has one drops what it is handed. -/
theorem Ready.pipe_ends {x : Worker} (one : p.workers = [x])
    (ready : p.Ready (Engine.ofFuel host) world exit m) (outside : List Thing)
    (before after : List Move) :
    let response := x.player.conduct.respondAll x.player.start p.values
    (∃ (exit' : Exit) (m' : Machine),
      Ends (fun fuel => (Grouping.pair (.one p.source) (.one x.ref)).run (.ofFuel host fuel) fuel
          outside before after) m
        (.ok (.finished (bothResults p.result response.result))) m' ∧
      exit'.Holds x.out (.closed response.outputs (bothResults response.result p.result)) m' ∧
      (exit' = .kept ↔ exit = .kept ∧ .collect ∉ before ++ after) ∧
      x.step.own? m' = response.memory ∧
      ∃ stage, m'.stages.get stage =
        ⟨x.step, x.out, some (bothResults response.result p.result)⟩) ∧
    (∀ fuel ref value failure (s s₁ s' : Machine), (s.stages.get ref).result = none →
      runStep (.ofFuel host fuel) (s.stages.get ref) value s = (some (.error failure), s₁) →
      deliverToStage (.ofFuel host fuel) ref (.next value) s = (some (), s') →
      (s'.stages.get ref).result.isSome) ∧
    ∀ fuel ref value (s : Machine), (s.stages.get ref).result.isSome →
      deliverToStage (.ofFuel host fuel) ref (.next value) s = (some (), s) := by
  intro response
  refine ⟨?_, fun _ _ _ _ _ _ _ => isSome_of_failed_step,
    fun fuel ref value s ended => deliverToStage_of_result _ ended value⟩
  -- A source with one worker is the shortest line, and there is one way to group it.
  have same : (Grouping.pair (.one p.source) (.one x.ref)).refs = p.parts.map Part.ref := by
    rw [parts, one]
    rfl
  have total_eq : p.total = bothResults p.result response.result := by
    rw [total, players, one]
    change bothResults p.result (bothResults (bothResults response.result p.result) (.ok ())) = _
    rw [bothResults_ok, bothResults_bothResults]
  obtain ⟨exit', m', ran, ended, visited⟩ :=
    ready.ends_run (fun _ _ => rfl) same outside before after
  have arrived := ended.arrived
  rw [last, players, one] at arrived
  have worker : p.workers[0]? = some x := by rw [one]; rfl
  have atEnd : (Line.ends p.players p.values p.result)[0]? =
      some (bothResults response.result p.result, response.memory) := by
    rw [players, one]
    rfl
  obtain ⟨-, own, stage⟩ := ended.worker 0 x _ worker atEnd
  exact ⟨exit', m', total_eq ▸ ran, arrived, visited, own, stage⟩

/-- A source that fails behind its second value is piped to a procedure that passes values on. The
task is polled once, and only then does a collector come. -/
theorem Ready.pipe_ends_of_failing_source :
    ∃ (exit : Exit) (m' : Machine),
      Ends (fun fuel => (Grouping.pair (.one ⟨0⟩) (.one ⟨2⟩)).run (.ofFuel .none fuel) fuel []
          [.poll, .collect] [.poll])
        (workshop ⟨[[.number 3], [.text "x"]], .fail (.thrown "left")⟩)
        (.ok (.finished (.error (.thrown "left")))) m' ∧
      exit.Holds ⟨2⟩ (.closed [.number 3, .text "x"] (.error (.thrown "left"))) m' ∧
      exit ≠ .kept := by
  have atWork : AtWork [passer] := .inl rfl
  have ready := atWork.ready [[.number 3], [.text "x"]] (by simp [Value.isInert])
    (.error (.thrown "left"))
  obtain ⟨⟨exit, m', ran, holds, visited, -⟩, -⟩ :=
    ready.pipe_ends rfl [] [.poll, .collect] [.poll]
  exact ⟨exit, m', ran, holds, fun kept => (visited.1 kept).2 (by decide)⟩

/-! ## Two workers -/

/-- A source and two workers are piped together in both groupings. Whatever else is done to the
tasks, the output has the same signals, the tasks end with the same result, and the source and the
workers are left in the same phases. -/
theorem Ready.pipe_assoc {b c : Worker} (two : p.workers = [b, c])
    (ready : p.Ready (Engine.ofFuel host) world exit m) (outside outside' : List Thing)
    (before after before' after' : List Move) :
    ∃ (exit₁ exit₂ : Exit) (m₁ m₂ : Machine),
      Ends (fun fuel => (Grouping.pair (.pair (.one p.source) (.one b.ref)) (.one c.ref)).run
          (.ofFuel host fuel) fuel outside before after) m (.ok (.finished p.total)) m₁ ∧
      Ends (fun fuel => (Grouping.pair (.one p.source) (.pair (.one b.ref) (.one c.ref))).run
          (.ofFuel host fuel) fuel outside' before' after') m (.ok (.finished p.total)) m₂ ∧
      (∃ signals : History, exit₁.Holds c.out signals m₁ ∧ exit₂.Holds c.out signals m₂ ∧
        signals.ending?.isSome) ∧
      ∀ ref ∈ [p.source, b.ref, c.ref],
        (m₁.suspension ref).phase = (m₂.suspension ref).phase ∧
          (m₁.suspension ref).phase ∈ [.completed, .failed] := by
  have same₁ : (Grouping.pair (.pair (.one p.source) (.one b.ref)) (.one c.ref)).refs =
      p.parts.map Part.ref := by
    rw [parts, two]
    rfl
  have same₂ : (Grouping.pair (.one p.source) (.pair (.one b.ref) (.one c.ref))).refs =
      p.parts.map Part.ref := by
    rw [parts, two]
    rfl
  obtain ⟨exit₁, m₁, ran₁, ended₁, -⟩ := ready.ends_run (fun _ _ => rfl) same₁ outside before after
  obtain ⟨exit₂, m₂, ran₂, ended₂, -⟩ :=
    ready.ends_run (fun _ _ => rfl) same₂ outside' before' after'
  have last_eq : p.last = c.out := by
    rw [last, two]
    rfl
  refine ⟨exit₁, exit₂, m₁, m₂, ran₁, ran₂,
    ⟨_, last_eq ▸ ended₁.arrived, last_eq ▸ ended₂.arrived, ?_⟩, fun ref member => ?_⟩
  · exact History.ending?_closed _ _
  · -- Each has the phase that its own result gives it.
    have phase_eq (result : Result) : Phase.ofResult result ∈ [.completed, .failed] := by
      cases result <;> simp [Phase.ofResult]
    have worker (i : Nat) (x : Worker) (there : p.workers[i]? = some x) :
        (m₁.suspension x.ref).phase = (m₂.suspension x.ref).phase ∧
          (m₁.suspension x.ref).phase ∈ [.completed, .failed] := by
      obtain ⟨atEnd, here⟩ : ∃ atEnd, (Line.ends p.players p.values p.result)[i]? = some atEnd :=
        ⟨_, List.getElem?_eq_getElem (by
          rw [Line.length_ends, players, List.length_map]
          exact (List.getElem?_eq_some_iff.1 there).1)⟩
      rw [(ended₁.worker i x atEnd there here).1, (ended₂.worker i x atEnd there here).1]
      exact ⟨rfl, phase_eq _⟩
    simp only [List.mem_cons, List.not_mem_nil, or_false] at member
    rcases member with rfl | rfl | rfl
    · rw [ended₁.source, ended₂.source]
      exact ⟨rfl, phase_eq _⟩
    · exact worker 0 b (by rw [two]; rfl)
    · exact worker 1 c (by rw [two]; rfl)

/-- A source is piped through a function that fails with its second value and a procedure that
passes values on. -/
theorem Ready.pipe_assoc_of_failing_worker :
    let p := fromSource [[.number 3], [.text "x", .number 4]] (.ok ()) [fromTen, passer]
    let m := workshop ⟨[[.number 3], [.text "x", .number 4]], .complete⟩
    (∃ failure, p.total = .error failure) ∧
    ∃ (exit₁ exit₂ : Exit) (m₁ m₂ : Machine),
      Ends (fun fuel => (Grouping.pair (.pair (.one ⟨0⟩) (.one ⟨1⟩)) (.one ⟨2⟩)).run
          (.ofFuel .none fuel) fuel [] [] [.collect]) m (.ok (.finished p.total)) m₁ ∧
      Ends (fun fuel => (Grouping.pair (.one ⟨0⟩) (.pair (.one ⟨1⟩) (.one ⟨2⟩))).run
          (.ofFuel .none fuel) fuel [] [.collect] []) m (.ok (.finished p.total)) m₂ ∧
      ∃ signals : History, exit₁.Holds ⟨2⟩ signals m₁ ∧ exit₂.Holds ⟨2⟩ signals m₂ := by
  have atWork : AtWork [fromTen, passer] := .inr rfl
  have ready :=
    atWork.ready [[.number 3], [.text "x", .number 4]] (by simp [Value.isInert]) (.ok ())
  obtain ⟨exit₁, exit₂, m₁, m₂, ran₁, ran₂, ⟨signals, holds₁, holds₂, -⟩, -⟩ :=
    ready.pipe_assoc rfl [] [] [] [.collect] [.collect] []
  exact ⟨⟨_, rfl⟩, exit₁, exit₂, m₁, m₂, ran₁, ran₂, signals, holds₁, holds₂⟩

end Effect

end Piping

end Wordstream
