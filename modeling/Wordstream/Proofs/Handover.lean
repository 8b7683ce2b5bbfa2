import Wordstream.Proofs.Evaluation

/-!
# Handing over under modest disciplines

Handing over signals goes from channels to listeners, from listeners to the bodies of activations,
and so back to evaluation. Many disciplines do not mind what is done to channels, stages,
collectors and probes on that way. They are modest: what they are about is calls, scenes, words,
what the host sees to, and how suspensions come to be and are resumed. For these the walk over
evaluation goes on through the handing over of signals.

Evaluation and handing over treat suspensions in one way only: they make new ones, and resume
those that are in use. Tasks are made by that and not touched again; it is driving that takes them
further.

## Main results

* `Modest.step` — one more unit of fuel leaves engines related under a modest discipline
* `Trend.relates_ofFuel` — evaluation keeps to a trend, whatever fuel it has
-/

namespace Wordstream

/-! ## Growth -/

namespace Machine

/-- Suspensions are made, and nothing else is done to them and to tasks. -/
inductive Makes : Machine → Machine → Prop
  | aside {m m' : Machine} (suspensions : m'.suspensions = m.suspensions)
      (tasks : m'.tasks = m.tasks) : Makes m m'
  | suspend (m : Machine) (work : Work) (out : Ref .channel) (acceptsInput : Bool)
      (mime : Option String) :
      Makes m (m.newSuspension ⟨.created, some work, out, acceptsInput, mime⟩).2
  | trans {m m' m'' : Machine} (first : Makes m m') (second : Makes m' m'') : Makes m m''

theorem Makes.tasks_eq {m m' : Machine} (h : m.Makes m') : m'.tasks = m.tasks := by
  induction h with
  | aside _ tasks => exact tasks
  | suspend => rfl
  | trans _ _ first second => exact second.trans first

/-- Suspensions are made and resumed, and nothing else is done to them and to tasks. -/
inductive Grows : Machine → Machine → Prop
  | aside {m m' : Machine} (suspensions : m'.suspensions = m.suspensions)
      (tasks : m'.tasks = m.tasks) : Grows m m'
  | suspend (m : Machine) (work : Work) (out : Ref .channel) (acceptsInput : Bool)
      (mime : Option String) :
      Grows m (m.newSuspension ⟨.created, some work, out, acceptsInput, mime⟩).2
  | resume {m : Machine} {ref : Ref .suspension} {work : Work} (input : Option (Ref .channel))
      (created : (m.suspension ref).phase = .created)
      (pending : (m.suspension ref).work = some work) : Grows m (m.startTask ref work input).2
  | trans {m m' m'' : Machine} (first : Grows m m') (second : Grows m' m'') : Grows m m''

/-- Nothing happens. -/
theorem Grows.refl (m : Machine) : m.Grows m := .aside rfl rfl

theorem Makes.grows {m m' : Machine} (h : m.Makes m') : m.Grows m' := by
  induction h with
  | aside suspensions tasks => exact .aside suspensions tasks
  | suspend m work out acceptsInput mime => exact .suspend m work out acceptsInput mime
  | trans _ _ first second => exact first.trans second

/-- The part of a machine that says what words stand for: what sites are bound to, and
dictionaries. -/
def wording (m : Machine) : Array (Option Binding) × Arena .dictionary Dictionary :=
  (m.slots, m.dictionaries)

/-- The parts of a machine that calls, words and the host's affairs are about. -/
def surroundings (m : Machine) :
    Footing × (Array (Option Binding) × Arena .dictionary Dictionary) × Agenda :=
  (m.footing, m.wording, m.agenda)

end Machine

/-- Resuming a suspension concerns neither calls nor words. -/
theorem surroundings_resume (ref : Ref .suspension) (input : Option (Ref .channel)) (m : Machine) :
    (resume ref input m).2.surroundings = m.surroundings := by
  rw [resume_apply]
  split
  · rfl
  · split
    · rfl
    · cases (m.suspension ref).work <;> rfl

/-- Only a suspension that was not resumed is resumed. -/
theorem grows_resume (ref : Ref .suspension) (input : Option (Ref .channel)) (m : Machine) :
    m.Grows (resume ref input m).2 := by
  rw [resume_apply]
  split
  · exact .refl m
  · next created =>
    split
    · exact .refl m
    · cases pending : (m.suspension ref).work with
      | none => exact .refl m
      | some work => exact .resume input (Decidable.not_not.1 created) pending

/-- A suspension in use is resumed, and its task is enlisted; any other value is used as it is. -/
theorem of_autoResume (value : Value) (m : Machine) :
    (autoResume value m).2 = m ∨
      ∃ ref task m', value = .suspension ref ∧ resume ref none m = (some (.ok task), m') ∧
        autoResume value m =
          (some (.ok (.task task)), { m' with pending := m'.pending ++ [task] }) := by
  cases value with
  | suspension ref =>
    have resumed := resume_apply ref none m
    have opened : autoResume (.suspension ref) m = (resume ref none >>= fun task =>
      (modify fun m => { m with pending := m.pending ++ [task] }) >>= fun _ =>
        pure (.task task) : Run Machine Value) m := rfl
    rw [opened, Run.bind_apply]
    -- Resuming is refused in three ways, each of which changes nothing.
    split at resumed
    · rw [resumed]
      exact .inl rfl
    · split at resumed
      · rw [resumed]
        exact .inl rfl
      · cases pending : (m.suspension ref).work with
        | none =>
          rw [pending] at resumed
          rw [resumed]
          exact .inl rfl
        | some work =>
          rw [pending] at resumed
          rw [resumed]
          exact .inr ⟨ref, _, _, rfl, resumed, rfl⟩
  | _ => exact .inl rfl

/-- Using a value concerns no calls. -/
theorem footing_autoResume (value : Value) (m : Machine) :
    (autoResume value m).2.footing = m.footing := by
  rcases of_autoResume value m with same | ⟨ref, task, m', _, resumed, used⟩
  · rw [same]
  · rw [used]
    have same := congrArg Prod.fst (surroundings_resume ref none m)
    rwa [resumed] at same

/-- Using a value concerns no words. -/
theorem wording_autoResume (value : Value) (m : Machine) :
    (autoResume value m).2.wording = m.wording := by
  rcases of_autoResume value m with same | ⟨ref, task, m', _, resumed, used⟩
  · rw [same]
  · rw [used]
    have same := congrArg (·.2.1) (surroundings_resume ref none m)
    rwa [resumed] at same

/-- A suspension in use is resumed if it was not. -/
theorem grows_autoResume (value : Value) (m : Machine) : m.Grows (autoResume value m).2 := by
  rcases of_autoResume value m with same | ⟨ref, task, m', _, resumed, used⟩
  · rw [same]
    exact .refl m
  · rw [used]
    have grown := grows_resume ref none m
    rw [resumed] at grown
    exact grown.trans (.aside rfl rfl)

theorem makes_suspend (work : Work) (acceptsInput : Bool) (mime : Option String) (m : Machine) :
    m.Makes (suspend work acceptsInput mime m).2 := by
  have channel : m.Makes m.newChannel.2 := .aside rfl rfl
  exact channel.trans (.suspend _ work _ acceptsInput mime)

theorem grows_suspend (work : Work) (acceptsInput : Bool) (mime : Option String) (m : Machine) :
    m.Grows (suspend work acceptsInput mime m).2 := (makes_suspend work acceptsInput mime m).grows

theorem makes_suspendBody (definition : StreamDefinition) (args : List Value) (m : Machine) :
    m.Makes (suspendBody definition args m).2 := by
  have activation : m.Makes { m.newChannel.2 with
      activations := m.activations.alloc ⟨definition.body, definition.scene,
        padded definition.width args, .none, m.channels.next, padded definition.width args⟩ } :=
    .aside rfl rfl
  exact activation.trans (.suspend _ _ _ _ _)

/-! ## Practices -/

namespace Congruence

theorem allows_onScene (C : Congruence) (scene : Ref .scene) (symbol : String) :
    C.Allows (onScene scene symbol) := by
  refine C.allows_read.andThen fun m => ?_
  split
  · exact C.allows_done _
  · exact C.allows_throw _

/-- How evaluation goes by a congruence: what has to be known of each of its steps that concern
more than words and code. Where signals are handed over something else may take the congruence's
place. -/
structure Practice (C : Congruence) where
  /-- What takes its place where the signals that wait on a channel are handed over. -/
  Hands : Ref .channel → Effect Machine Unit → Effect Machine Unit → Prop
  enlist (value : Value) : C.Allows (autoResume value)
  keep (value : Value) : C.Allows (keepResult value)
  frame {engine engine' : Engine}
    (h : ∀ code, C.Fits (engine.execute code) (engine'.execute code)) (ref : Ref .frame)
    (args : List Value) : C.Fits (runFrame engine ref args) (runFrame engine' ref args)
  suspend {work : Work} (alien : work.isAlien) (acceptsInput : Bool) (mime : Option String) :
    C.Allows (suspend work acceptsInput mime)
  suspendBody (definition : StreamDefinition) (args : List Value) :
    C.Allows (suspendBody definition args)
  emit {engine engine' : Engine}
    (h : ∀ ref, Hands ref (engine.deliver ref) (engine'.deliver ref)) (out : Ref .channel)
    (value : Value) : C.Fits (emit engine out (.next value)) (emit engine' out (.next value))
  pipe {engine engine' : Engine}
    (h : ∀ ref, Hands ref (engine.deliver ref) (engine'.deliver ref))
    (left right : Ref .suspension) : C.Fits (pipe engine left right) (pipe engine' left right)

namespace Practice

variable {C : Congruence}

/-- The discipline of going by a congruence: it does not matter which suspensions are in use. -/
def discipline (P : C.Practice) : Discipline where
  limit n := n
  strict := False
  Fits := C.Fits
  Yields := C.Fits
  Hands := P.Hands
  stir h _ _ _ := C.stir h
  read _ after := C.allows_read.andThen fun state => after state nofun
  andThen before after := before.andThen fun result => after result nofun
  onMachine h := C.onMachine h
  withCursor h cursor := C.withCursor h cursor
  yield h := h
  readYield _ after := C.allows_read.andThen fun state => after state nofun
  andYield before after := before.andThen fun result => after result nofun
  yieldOnMachine h := C.onMachine h
  use h := h.andThen fun value => (C.onMachine (P.enlist value)).andThen fun value => P.keep value
  keep h := h.andThen fun value => P.keep value
  frame h ref args _ := P.frame h ref args
  suspend _ alien _ acceptsInput mime := P.suspend alien acceptsInput mime
  suspendBody definition args _ := P.suspendBody definition args
  write h scene _ _ := (C.allows_onScene scene "out").andThen fun _ =>
    C.allows_read.andThen fun _ => (P.emit h _ _).lift.andThen fun _ => C.allows_done _
  pipe h deferred := by
    refine deferred.andThen fun left => deferred.andThen fun right => ?_
    split
    · exact (C.onMachine (P.pipe h _ _)).andThen fun _ => C.allows_done _
    · exact C.allows_throw _

theorem runCall {P : C.Practice} {engine engine' : Engine}
    (h : P.discipline.Relates engine engine') (out : Ref .channel) (native : Native)
    (args : List Value) :
    C.Fits (runCall engine out native args) (runCall engine' out native args) := by
  refine (Congruence.Fits.attempt (h.call native args nofun)).andThen fun result => ?_
  cases result with
  | ok value => exact (P.emit h.deliver out _).lift
  | error failure => exact C.allows_throw _

end Practice

section Probes

variable {C : Congruence} {engine engine' : Engine}
  (note : ∀ (ref : Ref .probe) (change : Probe → Probe), C.Allows (modifyProbe ref change))
  (emit : ∀ (c : Ref .channel) (signal : Signal),
    C.Fits (emit engine c signal) (emit engine' c signal))
  (listen : ∀ (c : Ref .channel) (ref : Ref .probe),
    C.Fits (subscribe engine c (.probe ref)) (subscribe engine' c (.probe ref)))

include note emit listen

theorem fulfil (ref : Ref .probe) (request : Request) :
    C.Fits (fulfil engine ref request) (fulfil engine' ref request) := by
  cases request with
  | send signal =>
    exact (note ref _).bind fun _ => C.allows_get.bind fun m => emit _ signal
  | listen =>
    refine (note ref _).bind fun _ => C.allows_get.bind fun m =>
      (listen _ ref).bind fun result => ?_
    cases result with
    | ok _ => exact C.allows_pure _
    | error failure => exact note ref _
  | note =>
    change C.Allows (logSighting ref .wrote)
    exact note ref _

theorem fulfilAll (ref : Ref .probe) (requests : List Request) :
    C.Fits (fulfilAll engine ref requests) (fulfilAll engine' ref requests) := by
  induction requests with
  | nil => exact C.allows_pure _
  | cons request rest ih => exact (fulfil note emit listen ref request).bind fun _ => ih

/-- A probe does what it likes, if all that it can do is related. -/
theorem deliverToProbe (ref : Ref .probe) (signal : Signal) :
    C.Fits (deliverToProbe engine ref signal) (deliverToProbe engine' ref signal) :=
  C.allows_get.bind fun _ => (note ref _).bind fun _ => (note ref _).bind fun _ =>
    C.allows_get.bind fun _ => (fulfilAll note emit listen ref _).bind fun _ => note ref _

end Probes

end Congruence

/-! ## Modest disciplines -/

/-- A congruence that is about calls, scenes, words, the host's affairs, suspensions and tasks:
whatever leaves these alone but makes suspensions is related to itself, and so is the use of a
value. -/
structure Modest extends Congruence where
  arrange {α : Type} {action : Effect Machine α}
    (h : ∀ m, (action m).2.surroundings = m.surroundings)
    (makes : ∀ m : Machine, m.Makes (action m).2) : Fits action action
  enlist (value : Value) : Fits (autoResume value) (autoResume value)
  frame {engine engine' : Engine}
    (h : ∀ code, Fits (engine.execute code) (engine'.execute code)) (ref : Ref .frame)
    (args : List Value) : Fits (runFrame engine ref args) (runFrame engine' ref args)
  play {α : Type} {action action' : Run Machine α} (scene : Ref .scene)
    (activation : Ref .activation) (h : Fits action action') :
    Fits (withScene scene activation action) (withScene scene activation action')

/-- A modest congruence that is about calls, scenes, words and the host's affairs only: whatever
leaves these alone is related to itself. -/
structure Plain extends Modest where
  quiet {α : Type} {action : Effect Machine α}
    (h : ∀ m, (action m).2.surroundings = m.surroundings) : Fits action action

namespace Modest

section Channels

variable (P : Modest)

/-- What concerns neither calls nor scenes, words, the host's affairs, suspensions and tasks. -/
theorem allows_aside {α : Type} {action : Effect Machine α}
    (h : ∀ m, (action m).2.surroundings = m.surroundings ∧
      (action m).2.suspensions = m.suspensions ∧ (action m).2.tasks = m.tasks) :
    P.Allows action :=
  P.arrange (fun m => (h m).1) fun m => .aside (h m).2.1 (h m).2.2

theorem allows_modifyChannel (ref : Ref .channel) (change : Channel → Channel) :
    P.Allows (modifyChannel ref change) := P.allows_aside fun _ => ⟨rfl, rfl, rfl⟩

theorem allows_finishStage (ref : Ref .stage) (result : Result) :
    P.Allows (finishStage ref result) := by
  refine P.allows_aside fun m => ?_
  cases given : (m.stages.get ref).result with
  | none =>
    rw [finishStage_of_none result given]
    exact ⟨rfl, rfl, rfl⟩
  | some _ =>
    rw [finishStage_of_some result given]
    exact ⟨rfl, rfl, rfl⟩

theorem allows_deliverToCollector (ref : Ref .collector) (signal : Signal) :
    P.Allows (deliverToCollector ref signal) := P.allows_aside fun _ => ⟨rfl, rfl, rfl⟩

theorem allows_modifyProbe (ref : Ref .probe) (change : Probe → Probe) :
    P.Allows (modifyProbe ref change) := P.allows_aside fun _ => ⟨rfl, rfl, rfl⟩

variable {P} {engine engine' : Engine}
  (h : ∀ ref, P.Fits (engine.deliver ref) (engine'.deliver ref))

include h

theorem emit (ref : Ref .channel) (signal : Signal) :
    P.Fits (emit engine ref signal) (emit engine' ref signal) := by
  refine P.allows_get.bind fun m => (P.allows_modifyChannel ref _).bind fun _ => ?_
  split
  · exact h ref
  · exact P.allows_pure _

theorem subscribe (ref : Ref .channel) (listener : Listener) :
    P.Fits (subscribe engine ref listener) (subscribe engine' ref listener) := by
  refine P.allows_read.andThen fun m => ?_
  cases (m.channel ref).attach? listener with
  | some channel => exact (P.allows_modifyChannel ref _).lift.andThen fun _ => (h ref).lift
  | none => exact P.allows_throw _

theorem pipe (left right : Ref .suspension) :
    P.Fits (pipe engine left right) (pipe engine' left right) := by
  refine P.allows_read.andThen fun m => ?_
  dsimp only
  split
  · exact P.allows_throw _
  · split
    · exact P.allows_throw _
    · exact .andThen (P.allows_aside fun _ => ⟨rfl, rfl, rfl⟩) fun relay =>
        (subscribe h _ _).andThen fun _ =>
          P.arrange (fun _ => rfl) fun m => .suspend m _ _ _ _

end Channels

/-- Whether a suspension may be resumed otherwise than by being used. -/
def Resumes (P : Modest) : Prop :=
  ∀ (ref : Ref .suspension) (input : Option (Ref .channel)), P.Allows (resume ref input)

theorem allows_keepResult (P : Modest) (value : Value) : P.Allows (keepResult value) :=
  .andThen (P.onMachine (P.allows_aside fun _ => ⟨rfl, rfl, rfl⟩)) fun _ => P.allows_done _

/-- Handing over is like all else. -/
def practice (P : Modest) : P.Practice where
  Hands _ := P.Fits
  enlist := P.enlist
  keep := P.allows_keepResult
  frame := P.frame
  suspend _ acceptsInput mime := P.arrange (fun _ => rfl) (makes_suspend _ acceptsInput mime)
  suspendBody definition args := P.arrange (fun _ => rfl) (makes_suspendBody definition args)
  emit h out _ := emit h out _
  pipe := pipe

/-- The discipline of a modest congruence. -/
def discipline (P : Modest) : Discipline := P.practice.discipline

/-- Whatever is read is related under a modest discipline. -/
theorem reads {P : Modest} {engine engine' : Engine} (h : P.discipline.Relates engine engine')
    (reading : Reading) : P.Fits (engine.read reading) (engine'.read reading) := by
  cases reading with
  | whole => exact h.whole
  | operand => exact h.operand
  | deferred => exact h.deferred

section Delivery

variable {P : Modest} {engine engine' : Engine} (h : P.discipline.Relates engine engine')

include h

theorem runBody (ref : Ref .activation) (value : Value) :
    P.Fits (runBody engine ref value) (runBody engine' ref value) :=
  P.allows_read.andThen fun _ => .andThen (P.allows_aside fun _ => ⟨rfl, rfl, rfl⟩) fun _ =>
    (P.play _ ref (h.execute _)).andThen fun _ => P.allows_done _

theorem runStep (stage : Stage) (value : Value) :
    P.Fits (runStep engine stage value) (runStep engine' stage value) := by
  unfold Wordstream.runStep
  cases stage.step with
  | body activation => exact runBody h _ value
  | call native args => exact Congruence.Practice.runCall h stage.out _ _

theorem deliverToStage (ref : Ref .stage) (signal : Signal) :
    P.Fits (deliverToStage engine ref signal) (deliverToStage engine' ref signal) := by
  refine P.allows_get.bind fun m => ?_
  cases signal with
  | next value =>
    dsimp only
    split
    · refine (runStep h _ value).bind fun result => ?_
      cases result with
      | ok _ => exact P.allows_pure _
      | error failure => exact (emit h.deliver _ _).bind fun _ => P.allows_finishStage ref _
    · exact P.allows_pure _
  | failed failure => exact (emit h.deliver _ _).bind fun _ => P.allows_finishStage ref _
  | complete => exact (emit h.deliver _ _).bind fun _ => P.allows_finishStage ref _

theorem deliverTo (listener : Listener) (signal : Signal) :
    P.Fits (deliverTo engine listener signal) (deliverTo engine' listener signal) := by
  cases listener with
  | forward target => exact emit h.deliver target signal
  | collector ref => exact P.allows_deliverToCollector ref signal
  | stage ref => exact deliverToStage h ref signal
  | probe ref =>
    exact Congruence.deliverToProbe P.allows_modifyProbe (emit h.deliver)
      (fun c ref => subscribe h.deliver c (.probe ref)) ref signal

theorem deliverAll (ref : Ref .channel) :
    P.Fits (deliverAll engine ref) (deliverAll engine' ref) := by
  refine P.allows_get.bind fun m => ?_
  cases (m.channel ref).take? with
  | some next =>
    exact (P.allows_modifyChannel ref _).bind fun _ => (deliverTo h _ _).bind fun _ =>
      h.deliver ref
  | none => exact P.allows_modifyChannel ref _

/-- One more unit of fuel leaves engines related by a modest discipline. -/
theorem step {host : Host} (hosted : P.discipline.Admits host) :
    P.discipline.Relates (engine.step host) (engine'.step host) :=
  h.step hosted fun ref => deliverAll h ref

end Delivery

end Modest

/-- To a plain congruence it makes no difference how suspensions are resumed. -/
theorem Plain.resumes (P : Plain) : P.Resumes :=
  fun ref input => P.quiet (surroundings_resume ref input)

/-! ## Trends -/

/-- A relation between machines that whatever runs keeps to, wherever it stops. -/
structure Trend where
  Holds : Machine → Machine → Prop
  trans {m m' m'' : Machine} (first : Holds m m') (second : Holds m' m'') : Holds m m''
  stir {m m' : Machine} (h : m.Stirs False m') : Holds m m'
  arrange {m m' : Machine} (h : m'.surroundings = m.surroundings) (makes : m.Makes m') : Holds m m'
  enlist (value : Value) (m : Machine) : Holds m (autoResume value m).2
  enter (m : Machine) (ref : Ref .frame) (args : List Value) : Holds m (m.enter ref args)
  leave (m : Machine) : Holds m m.leave
  mount (m : Machine) (scene : Ref .scene) (activation : Ref .activation) :
    Holds m (m.mount scene activation)
  dismount (m : Machine) (scene : Ref .scene) (activation : Ref .activation)
    (previous : Option (Ref .activation)) : Holds m (m.dismount scene activation previous)

namespace Trend

open HasMachine (machine)

variable (T : Trend)

theorem refl (m : Machine) : T.Holds m m := T.stir (.refl m)

/-- A trend that goes on to the end, and from there on if there is an end. -/
theorem whenEnded {α : Type} {m : Machine} {outcome : Option α × Machine}
    {finish : Machine → Machine}
    (before : T.Holds m outcome.2) (after : ∀ m, T.Holds m (finish m)) :
    T.Holds m (Wordstream.whenEnded finish outcome).2 := by
  obtain ⟨_ | result, m'⟩ := outcome
  · exact before
  · exact T.trans before (after m')

/-- The modest congruence of all that keeps to a trend. -/
def modest : Modest where
  Fits action _ := ∀ state, T.Holds (machine state) (machine (action state).2)
  stir h state := T.stir (h state)
  bind {_ _ _ _ first _ next _} before after state := by
    rw [Effect.bind_apply]
    have kept := before state
    generalize first state = outcome at kept ⊢
    obtain ⟨_ | result, middle⟩ := outcome
    · exact kept
    · exact T.trans kept (after result middle)
  onMachine h reader := h reader.machine
  withCursor h cursor m := h ⟨m, cursor⟩
  arrange h makes m := T.arrange (h m) (makes m)
  enlist := T.enlist
  frame h ref args m := by
    rw [runFrame_apply]
    split
    · exact T.refl m
    · exact T.whenEnded (T.trans (T.enter m ref args) (h _ _)) T.leave
  play scene activation h m := by
    rw [withScene_apply]
    exact T.whenEnded (T.trans (T.mount m scene activation) (h _)) fun m =>
      T.dismount m scene activation _

/-- What a computation has done when it has ended or stopped. -/
theorem of_run {T : Trend} {α : Type} {action : Effect Machine α} (h : T.modest.Allows action)
    {m m' : Machine} {result : Option α} (ran : action m = (result, m')) : T.Holds m m' := by
  have kept : T.Holds m (action m).2 := h m
  rwa [ran] at kept

/-- Evaluation keeps to a trend, whatever fuel it has. -/
theorem relates_ofFuel {T : Trend} {host : Host} (hosted : T.modest.discipline.Admits host)
    (fuel : Nat) :
    T.modest.discipline.Relates (Engine.ofFuel host fuel) (Engine.ofFuel host fuel) := by
  induction fuel with
  | zero =>
    exact ⟨fun _ _ => T.refl _, fun _ _ _ => T.refl _, fun _ => T.refl _, fun _ _ => T.refl _,
      fun _ _ _ _ => T.refl _, fun _ _ => T.refl _, fun _ _ _ _ _ _ => T.refl _⟩
  | succ fuel ih => exact Modest.step ih hosted

end Trend

end Wordstream
