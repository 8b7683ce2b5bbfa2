import Wordstream.Machine.Keeping
import Wordstream.Proofs.Fuel

/-!
# What steps do with values

A stage takes the signals of its input one by one and does a step for each value. Here a step is
one whose doings are a function of the value and of the activation that it works on: it writes
some values to its output, ends well or fails, and leaves its activation in a new state. All else
that it does is of no concern to others.

A step writes while it runs, so what is behind its output gets to work in the middle of the step.
That a step follows a conduct is therefore said for whatever there may be behind its output, as
long as writing there comes to an end and leaves alone what the step relies on.
-/

namespace Wordstream

/-! ## Results and accepted signals -/

/-- The signal that tells how something ended. -/
def Signal.ofResult : Result → Signal
  | .ok _ => .complete
  | .error failure => .failed failure

/-- All results together: the first failure, in their order. -/
def Result.together (results : List Result) : Result := results.foldr bothResults (.ok ())

theorem bothResults_assoc (first second third : Result) :
    bothResults (bothResults first second) third =
      bothResults first (bothResults second third) := by
  cases first <;> rfl

theorem bothResults_ok (result : Result) : bothResults result (.ok ()) = result := by
  cases result <;> rfl

theorem Result.together_append (results more : List Result) :
    together (results ++ more) = bothResults (together results) (together more) := by
  induction results with
  | nil => rfl
  | cons result rest ih =>
    exact (congrArg (bothResults result) ih).trans (bothResults_assoc _ _ _).symm

/-- Signals of which none but the last is terminal. -/
@[ext]
structure History where
  signals : List Signal
  proper : ∀ signal ∈ signals.dropLast, signal.isTerminal = false

namespace History

/-- Nothing was accepted. -/
def empty : History := ⟨[], by simp⟩

/-- The terminal signal, if there is one. -/
def ending? (past : History) : Option Signal := past.signals.find? Signal.isTerminal

/-- Without an ending no signal is terminal. -/
theorem ending?_eq_none {past : History} :
    past.ending? = none ↔ ∀ signal ∈ past.signals, signal.isTerminal = false := by
  simp [ending?]

/-- Accept one more signal, unless there is an ending. -/
def accept (past : History) (signal : Signal) : History :=
  if ended : past.ending? = none then
    ⟨past.signals ++ [signal], by simpa using ending?_eq_none.1 ended⟩
  else past

/-- Values and then an end. -/
def closed (values : List Value) (result : Result) : History :=
  ⟨values.map .next ++ [.ofResult result], by simp [Signal.isTerminal]⟩

/-- Accept signals in order. -/
def acceptAll (past : History) (signals : List Signal) : History := signals.foldl accept past

theorem accept_of_open {past : History} (still_open : past.ending? = none) (signal : Signal) :
    (past.accept signal).signals = past.signals ++ [signal] := by
  rw [accept, dif_pos still_open]

theorem accept_of_ended {past : History} (ended : past.ending? ≠ none) (signal : Signal) :
    past.accept signal = past := dif_neg ended

theorem ending?_accept {past : History} (still_open : past.ending? = none) (signal : Signal) :
    (past.accept signal).ending? = if signal.isTerminal then some signal else none := by
  have nothing : past.signals.find? Signal.isTerminal = none := still_open
  rw [ending?, accept_of_open still_open, List.find?_append, nothing]
  cases terminal : signal.isTerminal <;> simp [terminal]

/-- What came before a signal has no ending. -/
theorem ending?_of_append {total past : History} {signal : Signal} {rest : List Signal}
    (split : total.signals = past.signals ++ signal :: rest) : past.ending? = none := by
  refine ending?_eq_none.2 fun earlier member => total.proper earlier ?_
  rw [split, List.dropLast_append_of_ne_nil (List.cons_ne_nil _ _)]
  exact List.mem_append_left _ member

/-- What holds of all signals that were accepted, and of one more, holds when that is accepted. -/
theorem forall_mem_accept {P : Signal → Prop} {past : History} {signal : Signal}
    (before : ∀ earlier ∈ past.signals, P earlier) (h : P signal) :
    ∀ earlier ∈ (past.accept signal).signals, P earlier := by
  by_cases still_open : past.ending? = none
  · rw [accept_of_open still_open]
    exact List.forall_mem_append.2 ⟨before, by simpa using h⟩
  · rw [accept_of_ended still_open]
    exact before

theorem forall_mem_acceptAll {P : Signal → Prop} {past : History} {signals : List Signal}
    (before : ∀ earlier ∈ past.signals, P earlier) (h : ∀ signal ∈ signals, P signal) :
    ∀ earlier ∈ (past.acceptAll signals).signals, P earlier := by
  induction signals generalizing past with
  | nil => exact before
  | cons signal rest ih =>
    rw [List.forall_mem_cons] at h
    exact ih (forall_mem_accept before h.1) h.2

/-- Values end nothing. -/
theorem ending?_acceptAll_next {past : History} (still_open : past.ending? = none)
    (values : List Value) : (past.acceptAll (values.map .next)).ending? = none := by
  induction values generalizing past with
  | nil => exact still_open
  | cons value rest ih => exact ih (ending?_accept still_open (.next value))

/-- All values are accepted as long as there is no ending. -/
theorem signals_acceptAll_next {past : History} (still_open : past.ending? = none)
    (values : List Value) :
    (past.acceptAll (values.map .next)).signals = past.signals ++ values.map .next := by
  induction values generalizing past with
  | nil => exact (List.append_nil _).symm
  | cons value rest ih =>
    have accepted := ih (ending?_accept still_open (.next value))
    rw [accept_of_open still_open, List.append_assoc] at accepted
    exact accepted

/-- Accepting values and then an end. -/
theorem accept_ofResult (values : List Value) (result : Result) :
    (empty.acceptAll (values.map .next)).accept (.ofResult result) = closed values result := by
  have still_open : (empty.acceptAll (values.map .next)).ending? = none :=
    ending?_acceptAll_next rfl values
  refine History.ext ?_
  rw [accept_of_open still_open, signals_acceptAll_next rfl]
  rfl

/-- What has an end has ended. -/
theorem ending?_closed (values : List Value) (result : Result) :
    (closed values result).ending?.isSome := by
  rw [← accept_ofResult, ending?_accept (ending?_acceptAll_next rfl values)]
  cases result <;> rfl

/-- What comes behind an end is too late. -/
theorem accept_accept_ofResult (past : History) (result : Result) (signal : Signal) :
    (past.accept (.ofResult result)).accept signal = past.accept (.ofResult result) := by
  refine accept_of_ended ?_ signal
  by_cases still_open : past.ending? = none
  · rw [ending?_accept still_open]
    cases result <;> simp [Signal.ofResult, Signal.isTerminal]
  · rw [accept_of_ended still_open]
    exact still_open

theorem acceptAll_append (past : History) (signals more : List Signal) :
    past.acceptAll (signals ++ more) = (past.acceptAll signals).acceptAll more :=
  List.foldl_append

end History

namespace Channel

/-- A channel that has kept what it has accepted. -/
def keeping (past : History) : Channel := ⟨past.signals, .buffering, past.ending?, false⟩

/-- A channel whose listener has still to take some of what it has accepted. -/
def handing (listener : Listener) (busy : Bool) (waiting : List Signal) (past : History) :
    Channel :=
  ⟨waiting, .listening listener busy, past.ending?, false⟩

/-- A channel whose listener has taken all that it has accepted. -/
def idle (listener : Listener) (past : History) : Channel := handing listener false [] past

theorem accept_keeping (past : History) (signal : Signal) :
    (keeping past).accept signal = keeping (past.accept signal) := by
  by_cases still_open : past.ending? = none
  · simp [accept, keeping, terminated, still_open, History.accept_of_open, History.ending?_accept]
  · have ended : past.ending?.isSome := Option.isSome_iff_ne_none.2 still_open
    simp [accept, keeping, terminated, ended, History.accept_of_ended still_open]

theorem accept_idle {past : History} (still_open : past.ending? = none) (listener : Listener)
    (signal : Signal) :
    (idle listener past).accept signal =
      handing listener false [signal] (past.accept signal) := by
  simp [accept, idle, handing, terminated, still_open, History.ending?_accept]

theorem accept_idle_of_ended {past : History} (ended : past.ending? ≠ none) (listener : Listener)
    (signal : Signal) : (idle listener past).accept signal = idle listener past := by
  have ended : past.ending?.isSome := Option.isSome_iff_ne_none.2 ended
  simp [accept, idle, handing, terminated, ended]

theorem mustDeliver_keeping (past : History) : (keeping past).mustDeliver = false := by
  simp [mustDeliver, isIdle, keeping]

theorem mustDeliver_idle (listener : Listener) (past : History) :
    (idle listener past).mustDeliver = past.ending?.isNone := by
  simp [mustDeliver, isIdle, idle, handing, terminated, Option.not_isSome]

end Channel

/-! ## What changes at most -/

namespace Machine

/-- Of channels, stages, collectors and activations only some are changed. Suspensions and tasks are
as they were, and nobody is put to sleep. -/
structure Touches (m : Machine) (things : List Thing) (m' : Machine) : Prop where
  channel (ref : Ref .channel) : ref.thing ∉ things → m'.channel ref = m.channel ref
  stage (ref : Ref .stage) : ref.thing ∉ things → m'.stages.get ref = m.stages.get ref
  collector (ref : Ref .collector) :
    ref.thing ∉ things → m'.collectors.get ref = m.collectors.get ref
  activation (ref : Ref .activation) :
    ref.thing ∉ things → m'.activations.get ref = m.activations.get ref
  has_collector (ref : Ref .collector) : m.collectors.Has ref → m'.collectors.Has ref
  next_stage : m'.stages.next = m.stages.next
  suspensions : m'.suspensions = m.suspensions
  tasks : m'.tasks = m.tasks
  woken : m.woken = true → m'.woken = true

namespace Touches

variable {m m' m'' : Machine} {things more : List Thing}

theorem refl (m : Machine) (things : List Thing) : m.Touches things m :=
  ⟨fun _ _ => rfl, fun _ _ => rfl, fun _ _ => rfl, fun _ _ => rfl, fun _ => id, rfl, rfl, rfl, id⟩

theorem trans (first : m.Touches things m') (second : m'.Touches things m'') :
    m.Touches things m'' where
  channel ref apart := (second.channel ref apart).trans (first.channel ref apart)
  stage ref apart := (second.stage ref apart).trans (first.stage ref apart)
  collector ref apart := (second.collector ref apart).trans (first.collector ref apart)
  activation ref apart := (second.activation ref apart).trans (first.activation ref apart)
  has_collector ref has := second.has_collector ref (first.has_collector ref has)
  next_stage := second.next_stage.trans first.next_stage
  suspensions := second.suspensions.trans first.suspensions
  tasks := second.tasks.trans first.tasks
  woken awake := second.woken (first.woken awake)

/-- More may be changed. -/
theorem mono (h : m.Touches things m') (subset : things ⊆ more) : m.Touches more m' where
  channel ref apart := h.channel ref fun member => apart (subset member)
  stage ref apart := h.stage ref fun member => apart (subset member)
  collector ref apart := h.collector ref fun member => apart (subset member)
  activation ref apart := h.activation ref fun member => apart (subset member)
  has_collector := h.has_collector
  next_stage := h.next_stage
  suspensions := h.suspensions
  tasks := h.tasks
  woken := h.woken

end Touches

/-- Some channels, stages, collectors and activations are as they were. -/
structure Keeps (m : Machine) (things : List Thing) (m' : Machine) : Prop where
  channel (ref : Ref .channel) : ref.thing ∈ things → m'.channel ref = m.channel ref
  stage (ref : Ref .stage) : ref.thing ∈ things → m'.stages.get ref = m.stages.get ref
  has_stage (ref : Ref .stage) : ref.thing ∈ things → m.stages.Has ref → m'.stages.Has ref
  collector (ref : Ref .collector) :
    ref.thing ∈ things → m'.collectors.get ref = m.collectors.get ref
  activation (ref : Ref .activation) :
    ref.thing ∈ things → m'.activations.get ref = m.activations.get ref

/-- Fewer things are kept too. -/
theorem Keeps.mono {m m' : Machine} {things fewer : List Thing} (h : m.Keeps things m')
    (subset : fewer ⊆ things) : m.Keeps fewer m' where
  channel ref member := h.channel ref (subset member)
  stage ref member := h.stage ref (subset member)
  has_stage ref member := h.has_stage ref (subset member)
  collector ref member := h.collector ref (subset member)
  activation ref member := h.activation ref (subset member)

theorem Keeps.trans {m m' m'' : Machine} {things : List Thing} (first : m.Keeps things m')
    (second : m'.Keeps things m'') : m.Keeps things m'' where
  channel ref member := (second.channel ref member).trans (first.channel ref member)
  stage ref member := (second.stage ref member).trans (first.stage ref member)
  has_stage ref member has := second.has_stage ref member (first.has_stage ref member has)
  collector ref member := (second.collector ref member).trans (first.collector ref member)
  activation ref member := (second.activation ref member).trans (first.activation ref member)

/-- What is not touched is kept. -/
theorem Touches.keeps {m m' : Machine} {others things : List Thing} (h : m.Touches others m')
    (apart : ∀ thing ∈ things, thing ∉ others) : m.Keeps things m' where
  channel ref member := h.channel ref (apart _ member)
  stage ref member := h.stage ref (apart _ member)
  has_stage _ _ has := has.of_next h.next_stage
  collector ref member := h.collector ref (apart _ member)
  activation ref member := h.activation ref (apart _ member)

theorem touches_setChannel (m : Machine) (ref : Ref .channel) (channel : Channel) :
    m.Touches [ref.thing] (m.setChannel ref channel) where
  channel other apart := by
    rw [channel_setChannel, if_neg]
    rintro rfl
    exact apart (List.mem_singleton_self _)
  stage _ _ := rfl
  collector _ _ := rfl
  activation _ _ := rfl
  has_collector _ := id
  next_stage := rfl
  suspensions := rfl
  tasks := rfl
  woken := id

/-- The calls that are active and their slots are as they were, and so is who is on scene. -/
structure SamePosture (m m' : Machine) : Prop where
  stack : m'.stack = m.stack
  depth : m'.depth = m.depth
  calls : m'.calls = m.calls
  base (ref : Ref .frame) : (m'.frames.get ref).base = (m.frames.get ref).base
  scene (ref : Ref .scene) : m'.scenes.get ref = m.scenes.get ref

theorem SamePosture.of_footing {m m' : Machine} (same : m'.footing = m.footing) :
    m.SamePosture m' := by
  simp only [footing, Footing.mk.injEq] at same
  obtain ⟨_, stack, depth, calls, frames, scenes, _⟩ := same
  exact ⟨stack, depth, calls, fun _ => by rw [frames], fun _ => by rw [scenes]⟩

theorem SamePosture.trans {m m' m'' : Machine} (first : m.SamePosture m')
    (second : m'.SamePosture m'') : m.SamePosture m'' where
  stack := second.stack.trans first.stack
  depth := second.depth.trans first.depth
  calls := second.calls.trans first.calls
  base ref := (second.base ref).trans (first.base ref)
  scene ref := (second.scene ref).trans (first.scene ref)

/-- A machine without all that signals travel through, without activations and without those on
scene. -/
def backdrop (m : Machine) : Machine :=
  { m with
    channels := .empty
    collectors := .empty
    probes := .empty
    stages := .empty
    suspensions := .empty
    tasks := .empty
    activations := .empty
    scenes := .empty
    turns := []
    woken := false }

end Machine

/-- What steps rely on and keep: a property of the backdrop, and the values that are exchanged. -/
structure Setting where
  Holds : Machine → Prop
  Admits : Value → Prop
  of_backdrop {m m' : Machine} : m'.backdrop = m.backdrop → Holds m → Holds m'

namespace Setting

/-- The signals that are exchanged. -/
def AdmitsSignal (world : Setting) : Signal → Prop
  | .next value => world.Admits value
  | _ => True

/-- Only such signals were accepted. -/
def AdmitsAll (world : Setting) (past : History) : Prop :=
  ∀ signal ∈ past.signals, world.AdmitsSignal signal

theorem AdmitsAll.accept {world : Setting} {past : History} (before : world.AdmitsAll past)
    {signal : Signal} (admits : world.AdmitsSignal signal) : world.AdmitsAll (past.accept signal) :=
  History.forall_mem_accept before admits

/-- Only some things are changed, and all that steps rely on is kept. -/
structure Passage (world : Setting) (things : List Thing) (m m' : Machine) : Prop where
  holds : world.Holds m'
  posture : m.SamePosture m'
  touches : m.Touches things m'

namespace Passage

variable {world : Setting} {things more : List Thing} {m m' m'' : Machine}

theorem refl (holds : world.Holds m) : world.Passage things m m :=
  ⟨holds, .of_footing rfl, .refl m things⟩

theorem trans (first : world.Passage things m m') (second : world.Passage things m' m'') :
    world.Passage things m m'' :=
  ⟨second.holds, first.posture.trans second.posture, first.touches.trans second.touches⟩

theorem mono (h : world.Passage things m m') (subset : things ⊆ more) : world.Passage more m m' :=
  ⟨h.holds, h.posture, h.touches.mono subset⟩

/-- A channel is changed. -/
theorem of_setChannel (holds : world.Holds m) (ref : Ref .channel) (channel : Channel) :
    world.Passage [ref.thing] m (m.setChannel ref channel) :=
  ⟨world.of_backdrop (by rfl) holds, .of_footing rfl, m.touches_setChannel ref channel⟩

end Passage

end Setting

/-! ## Conduct -/

namespace Step

/-- The activation that a step works on, if it has one. -/
def own? (step : Step) (m : Machine) : Option Activation :=
  match step with
  | .body activation => some (m.activations.get activation)
  | .call _ _ => none

/-- The activation that a step works on, as a thing. -/
def things : Step → List Thing
  | .body activation => [activation.thing]
  | .call _ _ => []

end Step

/-- The activation of a step is as it was if it is kept. -/
theorem Machine.Keeps.own? {m m' : Machine} {step : Step} (keeps : m.Keeps step.things m') :
    step.own? m' = step.own? m := by
  cases step with
  | body activation =>
    exact congrArg some (keeps.activation activation (List.mem_singleton_self _))
  | call native args => rfl

/-- What a step does with a value: the values that it writes, how it ends, and the activation that
it leaves. -/
structure Response where
  outputs : List Value
  result : Result
  memory : Option Activation

/-- The doings of a step as a function of its activation and the value, for the states that its
activation can be in. -/
structure Conduct where
  Suits : Option Activation → Prop
  respond : Option Activation → Value → Response

/-- A step that follows a conduct, writing to a channel. Let `Told` say what is the case when some
values were written, whatever the step does to its own activation and to the backdrop; and let every
write come to an end and leave alone what the step relies on. Then the step comes to an end, and it
has written, and has left its activation, as the conduct says. Nothing is said of what the step does
after it has failed: it need not even come to an end then. -/
structure Step.Follows (step : Step) (engine : Nat → Engine) (world : Setting)
    (out : Ref .channel) (conduct : Conduct) : Prop where
  suits {memory : Option Activation} {value : Value} (suits : conduct.Suits memory)
    (admits : world.Admits value) (ok : (conduct.respond memory value).result = .ok ()) :
    conduct.Suits (conduct.respond memory value).memory
  admits {memory : Option Activation} {value : Value} (suits : conduct.Suits memory)
    (admits : world.Admits value) :
    ∀ output ∈ (conduct.respond memory value).outputs, world.Admits output
  runs (Told : List Value → Machine → Prop)
    (aside : ∀ {told m m'}, Told told m → m.Touches step.things m' → Told told m')
    (write : ∀ {told m value}, Told told m → world.Holds m → world.Admits value →
      ∃ m', Ends (fun fuel => emit (engine fuel) out (.next value)) m () m' ∧
        Told (told ++ [value]) m' ∧ world.Holds m' ∧ m.SamePosture m' ∧ step.own? m' = step.own? m)
    {m : Machine} {value : Value} (holds : world.Holds m) (admits : world.Admits value)
    (suits : conduct.Suits (step.own? m)) (told : Told [] m) :
    ∃ m', Ends (fun fuel => runStep (engine fuel) ⟨step, out, none⟩ value) m
        (conduct.respond (step.own? m) value).result m' ∧
      Told (conduct.respond (step.own? m) value).outputs m' ∧ world.Holds m' ∧ m.SamePosture m' ∧
      step.own? m' = (conduct.respond (step.own? m) value).memory

/-! ## Stages -/

/-- A stage behind some signals: its activation, its result if it has one, and what it has
written. -/
structure Flow where
  memory : Option Activation
  result : Option Result
  written : History

namespace Conduct

/-- A stage takes a signal. Values are dropped once it has a result. -/
def take (conduct : Conduct) (flow : Flow) : Signal → Flow
  | .next value =>
    match flow.result with
    | some _ => flow
    | none =>
      let response := conduct.respond flow.memory value
      let written := flow.written.acceptAll (response.outputs.map .next)
      match response.result with
      | .ok _ => ⟨response.memory, none, written⟩
      | .error failure =>
        ⟨response.memory, some (.error failure), written.accept (.failed failure)⟩
  | .failed failure =>
    ⟨flow.memory, flow.result <|> some (.error failure), flow.written.accept (.failed failure)⟩
  | .complete => ⟨flow.memory, flow.result <|> some (.ok ()), flow.written.accept .complete⟩

section Take

variable {conduct : Conduct} {flow : Flow} {value : Value}

theorem take_next_of_result {result : Result} (ended : flow.result = some result) :
    conduct.take flow (.next value) = flow := by
  rw [take, ended]

theorem take_next_of_ok (working : flow.result = none)
    (ok : (conduct.respond flow.memory value).result = .ok ()) :
    conduct.take flow (.next value) = ⟨(conduct.respond flow.memory value).memory, none,
      flow.written.acceptAll ((conduct.respond flow.memory value).outputs.map .next)⟩ := by
  rw [take, working]
  dsimp only
  rw [ok]

theorem take_next_of_error {failure : Failure} (working : flow.result = none)
    (failed : (conduct.respond flow.memory value).result = .error failure) :
    conduct.take flow (.next value) =
      ⟨(conduct.respond flow.memory value).memory, some (.error failure),
        (flow.written.acceptAll ((conduct.respond flow.memory value).outputs.map .next)).accept
          (.failed failure)⟩ := by
  rw [take, working]
  dsimp only
  rw [failed]

end Take

/-- A stage behind all signals of its input. -/
def flow (conduct : Conduct) (start : Option Activation) (past : History) : Flow :=
  past.signals.foldl conduct.take ⟨start, none, .empty⟩

theorem flow_empty (conduct : Conduct) (start : Option Activation) :
    conduct.flow start .empty = ⟨start, none, .empty⟩ := rfl

theorem flow_accept (conduct : Conduct) (start : Option Activation) {past : History}
    (still_open : past.ending? = none) (signal : Signal) :
    conduct.flow start (past.accept signal) = conduct.take (conduct.flow start past) signal := by
  rw [flow, History.accept_of_open still_open, List.foldl_append]
  rfl

/-- A stage that has a result keeps it, and what it has written it has written. -/
theorem take_extends (conduct : Conduct) (flow : Flow) (signal : Signal) :
    (∃ more, (conduct.take flow signal).written = flow.written.acceptAll more) ∧
      ∀ result, flow.result = some result → (conduct.take flow signal).result = some result := by
  cases signal with
  | failed failure =>
    refine ⟨⟨[.failed failure], rfl⟩, fun result ended => ?_⟩
    rw [take, ended]
    rfl
  | complete =>
    refine ⟨⟨[.complete], rfl⟩, fun result ended => ?_⟩
    rw [take, ended]
    rfl
  | next value =>
    cases working : flow.result with
    | some result =>
      rw [take_next_of_result working, working]
      exact ⟨⟨[], rfl⟩, fun _ => id⟩
    | none =>
      refine ⟨?_, fun _ ended => by cases ended⟩
      cases responded : (conduct.respond flow.memory value).result with
      | ok =>
        rw [take_next_of_ok working responded]
        exact ⟨_, rfl⟩
      | error failure =>
        rw [take_next_of_error working responded]
        exact ⟨_ ++ [.failed failure], by rw [History.acceptAll_append]; rfl⟩

/-- The same when more signals arrive. -/
theorem flow_extends (conduct : Conduct) (start : Option Activation) (past : History)
    (signals : List Signal) :
    (∃ more, (conduct.flow start (past.acceptAll signals)).written =
        (conduct.flow start past).written.acceptAll more) ∧
      ∀ result, (conduct.flow start past).result = some result →
        (conduct.flow start (past.acceptAll signals)).result = some result := by
  induction signals generalizing past with
  | nil => exact ⟨⟨[], rfl⟩, fun _ => id⟩
  | cons signal rest ih =>
    obtain ⟨⟨more, written⟩, keeps⟩ := ih (past.accept signal)
    -- Behind an end nothing is accepted, so the rest changes nothing.
    by_cases still_open : past.ending? = none
    · rw [flow_accept conduct start still_open] at written keeps
      obtain ⟨⟨first, written₁⟩, keeps₁⟩ := conduct.take_extends (conduct.flow start past) signal
      refine ⟨⟨first ++ more, ?_⟩, fun result ended => keeps result (keeps₁ result ended)⟩
      rw [History.acceptAll_append, ← written₁]
      exact written
    · rw [History.accept_of_ended still_open] at written keeps
      have same : past.acceptAll (signal :: rest) = past.acceptAll rest := by
        rw [History.acceptAll, List.foldl_cons, History.accept_of_ended still_open]
        rfl
      rw [same]
      exact ⟨⟨more, written⟩, keeps⟩

/-- Taking an admitted signal, a step leaves its activation in a suitable state unless it fails, and
writes admitted values only. -/
theorem take_suits {conduct : Conduct} {step : Step} {engine : Nat → Engine} {world : Setting}
    {out : Ref .channel} (follows : step.Follows engine world out conduct) {flow : Flow}
    {signal : Signal} (suits : flow.result = none → conduct.Suits flow.memory)
    (written : world.AdmitsAll flow.written) (admits : world.AdmitsSignal signal) :
    ((conduct.take flow signal).result = none → conduct.Suits (conduct.take flow signal).memory) ∧
      world.AdmitsAll (conduct.take flow signal).written := by
  cases signal with
  | failed failure =>
    refine ⟨fun working => ?_, written.accept (by trivial)⟩
    cases result : flow.result <;> simp [take, result] at working
  | complete =>
    refine ⟨fun working => ?_, written.accept (by trivial)⟩
    cases result : flow.result <;> simp [take, result] at working
  | next value =>
    cases working : flow.result with
    | some result =>
      rw [take_next_of_result working]
      exact ⟨suits, written⟩
    | none =>
      have outputs : world.AdmitsAll (flow.written.acceptAll
          ((conduct.respond flow.memory value).outputs.map .next)) :=
        History.forall_mem_acceptAll written (List.forall_mem_map.2 fun output member =>
          follows.admits (suits working) admits output member)
      cases responded : (conduct.respond flow.memory value).result with
      | ok =>
        rw [take_next_of_ok working responded]
        exact ⟨fun _ => follows.suits (suits working) admits responded, outputs⟩
      | error failure =>
        rw [take_next_of_error working responded]
        exact ⟨fun working => (Option.some_ne_none _ working).elim, outputs.accept (by trivial)⟩

/-- The same for all signals of an input. -/
theorem flow_suits {conduct : Conduct} {step : Step} {engine : Nat → Engine} {world : Setting}
    {out : Ref .channel} (follows : step.Follows engine world out conduct)
    {start : Option Activation} (suits : conduct.Suits start) {past : History}
    (admits : world.AdmitsAll past) :
    ((conduct.flow start past).result = none → conduct.Suits (conduct.flow start past).memory) ∧
      world.AdmitsAll (conduct.flow start past).written := by
  suffices general : ∀ (signals : List Signal) (flow : Flow),
      (∀ signal ∈ signals, world.AdmitsSignal signal) →
      (flow.result = none → conduct.Suits flow.memory) → world.AdmitsAll flow.written →
      ((signals.foldl conduct.take flow).result = none →
          conduct.Suits (signals.foldl conduct.take flow).memory) ∧
        world.AdmitsAll (signals.foldl conduct.take flow).written by
    exact general past.signals _ admits (fun _ => suits) fun _ nothing => by cases nothing
  intro signals
  induction signals with
  | nil => exact fun _ _ suits written => ⟨suits, written⟩
  | cons signal rest ih =>
    intro flow admits suits written
    rw [List.forall_mem_cons] at admits
    obtain ⟨suits, written⟩ := take_suits follows suits written admits.1
    exact ih _ admits.2 suits written

/-! ### Inputs that have ended -/

/-- What a step does with values one after the other: up to the first with which it fails. -/
def respondAll (conduct : Conduct) : Option Activation → List Value → Response
  | memory, [] => ⟨[], .ok (), memory⟩
  | memory, value :: rest =>
    let response := conduct.respond memory value
    match response.result with
    | .error _ => response
    | .ok _ =>
      let later := conduct.respondAll response.memory rest
      { later with outputs := response.outputs ++ later.outputs }

/-- A stage takes values: it has done what the step does with them, and has failed if the step
did. -/
theorem foldl_take_next (conduct : Conduct) (memory : Option Activation) (values : List Value)
    {written : History} (still_open : written.ending? = none) :
    (values.map Signal.next).foldl conduct.take ⟨memory, none, written⟩ =
      match (conduct.respondAll memory values).result with
      | .ok _ => ⟨(conduct.respondAll memory values).memory, none,
          written.acceptAll ((conduct.respondAll memory values).outputs.map .next)⟩
      | .error failure => ⟨(conduct.respondAll memory values).memory, some (.error failure),
          (written.acceptAll ((conduct.respondAll memory values).outputs.map .next)).accept
            (.failed failure)⟩ := by
  induction values generalizing memory written with
  | nil => rfl
  | cons value rest ih =>
    rw [List.map_cons, List.foldl_cons, respondAll]
    cases responded : (conduct.respond memory value).result with
    | ok =>
      rw [take_next_of_ok rfl responded, ih _ (History.ending?_acceptAll_next still_open _)]
      simp only [List.map_append, History.acceptAll_append]
    | error failure =>
      rw [take_next_of_error rfl responded]
      simp only [responded]
      -- The stage has its result, so all further values are dropped.
      clear ih
      induction rest with
      | nil => rfl
      | cons next rest ih =>
        rw [List.map_cons, List.foldl_cons, take_next_of_result rfl]
        exact ih

/-- A stage whose input has ended has ended too: it has written what its step does with the values
up to the first failure, and it ends with that failure or else as its input does. -/
theorem flow_closed (conduct : Conduct) (start : Option Activation) (values : List Value)
    (result : Result) :
    conduct.flow start (.closed values result) =
      ⟨(conduct.respondAll start values).memory,
        some (bothResults (conduct.respondAll start values).result result),
        .closed (conduct.respondAll start values).outputs
          (bothResults (conduct.respondAll start values).result result)⟩ := by
  rw [flow, History.closed, List.foldl_append, foldl_take_next conduct start values rfl]
  cases responded : (conduct.respondAll start values).result with
  | ok =>
    rw [bothResults, ← History.accept_ofResult]
    cases result <;> rfl
  | error failure =>
    rw [bothResults, ← History.accept_ofResult]
    have late := History.accept_accept_ofResult (History.empty.acceptAll
      ((conduct.respondAll start values).outputs.map .next)) (.error failure)
    cases result with
    | ok => exact congrArg (Flow.mk _ _) (late .complete)
    | error other => exact congrArg (Flow.mk _ _) (late (.failed other))

end Conduct

end Wordstream
