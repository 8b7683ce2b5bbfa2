import Wordstream.Proofs.Custody
import Wordstream.Proofs.Library

/-!
# Evaluation keeps guard

Evaluation writes values only, and what it makes has parties of its own. Handing over is what ends
channels: a stage ends its output when its input ends or a step fails, and a channel that is
relayed ends the one it is relayed to. While a listener is busy with a signal nothing else is
handed to it, so a stage has ended its output and got its result by the time that it is free
again.

## Main results

* `Delivers.deliverAll` — handing over keeps guard
* `Engine.heeds_ofFuel` — evaluation keeps guard, whatever fuel it has
-/

namespace Wordstream

open HasMachine (machine)

/-! ## Computations -/

/-- Handing over keeps guard. The listener counts as free before: what it is busy with is done
when it is handed something else. -/
def Delivers (own : Ref .channel → Prop) (c : Ref .channel) (action : Effect Machine Unit) : Prop :=
  ∀ past m result m', (m.released c).Guarded own past → action m = (some result, m') →
    m'.Guarded own past ∧ (m.released c).Honours own m'

/-- What concerns no signals keeps guard. -/
theorem Machine.Guarded.aside {own : Ref .channel → Prop} {past : Option (Ref .task)}
    {m m' : Machine} (g : m.Guarded own past) (plumbing : m'.plumbing = m.plumbing) :
    m'.Guarded own past ∧ m.Honours own m' := by
  have probes : m'.probes = m.probes := congrArg Machine.Plumbing.probes plumbing
  exact g.beside (congrArg Machine.Plumbing.channels plumbing)
    (congrArg Machine.Plumbing.stages plumbing) (congrArg Machine.Plumbing.suspensions plumbing)
    (congrArg Machine.Plumbing.tasks plumbing) fun foreign => by rwa [probes]

/-- Keeping guard, if one comes to an end, is a matter of one step after the other. -/
def guarding (own : Ref .channel → Prop) : Congruence where
  Fits action _ := ∀ past state result state', (machine state).Guarded own past →
    action state = (some result, state') →
    (machine state').Guarded own past ∧ (machine state).Honours own (machine state')
  stir {_ _ _ action} h past state result state' g ended := by
    have stirred := h state
    rw [ended] at stirred
    exact g.aside stirred.plumbing_eq
  bind before after past state result state' g ended := by
    obtain ⟨given, middle, first, second⟩ := Effect.of_bind ended
    obtain ⟨g, honours⟩ := before past state given middle g first
    obtain ⟨g, honours'⟩ := after given past middle result state' g second
    exact ⟨g, honours.trans honours'⟩
  onMachine {_ action _} h past reader result reader' g ended := by
    cases ran : action reader.machine with
    | mk outcome m =>
      rw [onMachine_apply, ran] at ended
      cases ended
      exact h past reader.machine result m g ran
  withCursor {_ action _} h cursor past m result m' g ended := by
    cases ran : action ⟨m, cursor⟩ with
    | mk outcome reader =>
      rw [withCursor_apply, ran] at ended
      cases ended
      exact h past ⟨m, cursor⟩ result reader g ran

/-- A computation that comes to an end keeps guard. -/
abbrev Heeds (own : Ref .channel → Prop) {σ α : Type} [HasMachine σ] (action : Effect σ α) :
    Prop := (guarding own).Allows action

/-- What a computation has kept when it has come to an end. -/
theorem Heeds.ended {own : Ref .channel → Prop} {α : Type} {action : Effect Machine α}
    (h : Heeds own action) {past : Option (Ref .task)} {m m' : Machine} (g : m.Guarded own past)
    {result : α} (ended : action m = (some result, m')) :
    m'.Guarded own past ∧ m.Honours own m' := h past m result m' g ended

/-- Who listens first is handed what was kept, and everybody else is refused. -/
theorem of_subscribe {engine : Engine} {c : Ref .channel} {listener : Listener} {m m' : Machine}
    {result : Except Failure Unit} (ended : subscribe engine c listener m = (some result, m')) :
    (result = .ok () ∧ ∃ channel, (m.channel c).attach? listener = some channel ∧
      engine.deliver c (m.setChannel c channel) = (some (), m')) ∨
    result = .error .alreadySubscribed ∧ (m.channel c).listener?.isSome ∧ m' = m := by
  rw [subscribe_apply] at ended
  cases free : (m.channel c).attach? listener with
  | none =>
    rw [free] at ended
    cases ended
    refine .inr ⟨rfl, ?_, rfl⟩
    -- Nobody is refused while the channel still buffers.
    unfold Channel.attach? at free
    unfold Channel.listener?
    cases attached : (m.channel c).attachment with
    | buffering =>
      rw [attached] at free
      cases free
    | listening => rfl
  | some channel =>
    rw [free] at ended
    dsimp only at ended
    cases ran : engine.deliver c (m.setChannel c channel) with
    | mk outcome after =>
      rw [ran] at ended
      cases outcome with
      | none => cases ended
      | some _ =>
        cases ended
        exact .inl ⟨rfl, channel, rfl, ran⟩

namespace Machine.Guarded

variable {own : Ref .channel → Prop} {past : Option (Ref .task)} {m m' : Machine} {engine : Engine}
  (h : ∀ ref, Delivers own ref (engine.deliver ref))

include h

/-- A signal that keeps guard when it is accepted keeps guard when it is written. -/
theorem emit {c : Ref .channel} {signal : Signal}
    (g : (m.setChannel c ((m.channel c).accept signal)).Guarded own past) {result : Unit}
    (ended : Wordstream.emit engine c signal m = (some result, m')) :
    m'.Guarded own past ∧ (m.setChannel c ((m.channel c).accept signal)).Honours own m' := by
  rw [emit_apply] at ended
  split at ended
  · next due =>
    have free : ((m.setChannel c ((m.channel c).accept signal)).channel c).isBusy = false := by
      rw [channel_setChannel, if_pos rfl, Channel.isBusy_accept]
      exact Channel.isBusy_of_mustDeliver due
    have same := released_of_free (m := m.setChannel c ((m.channel c).accept signal))
      (Arena.has_set ..) free
    have handed := h c past _ result m' (same.symm ▸ g) ended
    rwa [same] at handed
  · cases ended
    exact ⟨g, .refl own _⟩

/-- What a new listener is handed keeps guard. -/
theorem deliverFirst {c : Ref .channel} {listener : Listener} {channel : Channel}
    (g : (m.setChannel c channel).Guarded own past)
    (free : (m.channel c).attach? listener = some channel) {result : Unit}
    (ended : engine.deliver c (m.setChannel c channel) = (some result, m')) :
    m'.Guarded own past ∧ (m.setChannel c channel).Honours own m' := by
  have idle : ((m.setChannel c channel).channel c).isBusy = false := by
    rw [channel_setChannel, if_pos rfl, (Channel.of_attach? free).2]
    rfl
  have same := released_of_free (m := m.setChannel c channel) (Arena.has_set ..) idle
  have handed := h c past _ result m' (same.symm ▸ g) ended
  rwa [same] at handed

/-- Listening keeps guard if attaching the listener does. -/
theorem subscribe {base : Machine} {c : Ref .channel} {listener : Listener}
    (g : m.Guarded own past) (honours : base.Honours own m)
    (attach : ∀ channel, (m.channel c).attach? listener = some channel →
      (m.setChannel c channel).Guarded own past ∧ base.Honours own (m.setChannel c channel))
    {result : Except Failure Unit}
    (ended : Wordstream.subscribe engine c listener m = (some result, m')) :
    m'.Guarded own past ∧ base.Honours own m' ∧
      (result = .ok () → (m'.channel c).listener? = some listener) := by
  rcases of_subscribe ended with ⟨_, channel, free, ran⟩ | ⟨refused, _, rfl⟩
  · obtain ⟨g, honours⟩ := attach channel free
    obtain ⟨g, honours'⟩ := g.deliverFirst h free ran
    refine ⟨g, honours.trans honours', fun _ => honours'.listener ?_⟩
    rw [Machine.channel_setChannel, if_pos rfl, (Channel.of_attach? free).2]
    rfl
  · exact ⟨g, honours, fun accepted => by cases refused.symm.trans accepted⟩

end Machine.Guarded

namespace Heeds

variable {own : Ref .channel → Prop} {engine : Engine}

/-- A change that concerns no signals. -/
theorem change {change : Machine → Machine} (plumbing : ∀ m, (change m).plumbing = m.plumbing) :
    Heeds own (modify change : Run Machine PUnit) := by
  intro past m result m' g ended
  cases ended
  exact g.aside (plumbing m)

/-- What is done with a machine that has been set up, and what is done behind it. -/
theorem whenEnded {α : Type} {action : Effect Machine α} (h : Heeds own action)
    (setup finish : Machine → Machine) {past : Option (Ref .task)} {m m' : Machine} {result : α}
    (before : (setup m).plumbing = m.plumbing) (after : ∀ m, (finish m).plumbing = m.plumbing)
    (g : m.Guarded own past) (ended : whenEnded finish (action (setup m)) = (some result, m')) :
    m'.Guarded own past ∧ m.Honours own m' := by
  obtain ⟨g, honours⟩ := g.aside before
  cases ran : action (setup m) with
  | mk outcome middle =>
    rw [ran] at ended
    cases outcome with
    | none => cases ended
    | some given =>
      cases ended
      obtain ⟨g, honours'⟩ := h past _ _ middle g ran
      obtain ⟨g, honours''⟩ := g.aside (after middle)
      exact ⟨g, honours.trans (honours'.trans honours'')⟩

theorem runFrame (h : ∀ code, Heeds own (engine.execute code)) (ref : Ref .frame)
    (args : List Value) : Heeds own (runFrame engine ref args) := by
  intro past m result m' g ended
  rw [runFrame_apply] at ended
  split at ended
  · cases ended
    exact ⟨g, .refl own _⟩
  · refine (h _).whenEnded (·.enter ref args) Machine.leave rfl (fun m => ?_) g ended
    unfold Machine.leave
    cases m.calls <;> rfl

theorem withScene {α : Type} {action : Run Machine α} (h : Heeds own action) (scene : Ref .scene)
    (activation : Ref .activation) : Heeds own (withScene scene activation action) := by
  intro past m result m' g ended
  rw [withScene_apply] at ended
  exact h.whenEnded (·.mount scene activation)
    (·.dismount scene activation (m.scenes.get scene)) rfl (fun _ => rfl) g ended

/-! ### Suspensions -/

theorem resume (ref : Ref .suspension) (input : Option (Ref .channel)) :
    Heeds own (resume ref input) := by
  intro past m result m' g ended
  rw [resume_apply] at ended
  split at ended
  · cases ended
    exact ⟨g, .refl own _⟩
  · next created =>
    split at ended
    · cases ended
      exact ⟨g, .refl own _⟩
    · next refused =>
      have accepts (given : input.isSome) :
          (m.suspension ref).acceptsInput := by simpa [given] using refused
      cases pending : (m.suspension ref).work with
      | none =>
        rw [pending] at ended
        cases ended
        exact ⟨g, .refl own _⟩
      | some work =>
        rw [pending] at ended
        cases ended
        exact ⟨g.startTask input (Decidable.not_not.1 created) pending accepts,
          .of_same (fun _ => rfl)
          (fun has => ⟨has, rfl⟩) id (.of_set rfl rfl rfl Phase.noConfusion)⟩

theorem autoResume (value : Value) : Heeds own (autoResume value) := by
  unfold Wordstream.autoResume
  split
  · exact (resume _ none).andThen fun task => .andThen (change fun _ => rfl) fun _ =>
      (guarding own).allows_done _
  · exact (guarding own).allows_done _

theorem keepResult (value : Value) : Heeds own (keepResult value) :=
  .andThen ((guarding own).onMachine (change fun _ => rfl)) fun _ =>
    (guarding own).allows_done _

theorem suspend {work : Work} (plain : ∀ left right relay, work ≠ .pipe left right relay)
    (acceptsInput : Bool) (mime : Option String) : Heeds own (suspend work acceptsInput mime) := by
  intro past m result m' g ended
  cases ended
  exact g.suspend plain rfl rfl rfl rfl rfl

theorem suspendBody (definition : StreamDefinition) (args : List Value) :
    Heeds own (suspendBody definition args) := by
  intro past m result m' g ended
  cases ended
  exact g.suspend (fun _ _ _ => Work.noConfusion) rfl rfl rfl rfl rfl

section Signals

variable (h : ∀ ref, Delivers own ref (engine.deliver ref))

include h

/-- Writing a value ends nothing. -/
theorem emit_next (c : Ref .channel) (value : Value) :
    Heeds own (emit engine c (.next value)) := by
  intro past m result m' g ended
  have terminal : (Signal.next value).isTerminal ≠ true := Bool.noConfusion
  obtain ⟨g, honours⟩ := Machine.Guarded.emit h
    (g.accept fun _ ends => absurd ends terminal) ended
  exact ⟨g, (Machine.Honours.accept fun ends => absurd ends terminal).trans honours⟩

/-- A channel that is not owned may be ended by anybody. -/
theorem emit_foreign {c : Ref .channel} (foreign : ¬ own c) (signal : Signal) :
    Heeds own (emit engine c signal) := by
  intro past m result m' g ended
  obtain ⟨g, honours⟩ := Machine.Guarded.emit h (g.accept fun owned => absurd owned foreign) ended
  have written : m.Honours own (m.setChannel c ((m.channel c).accept signal)) :=
    .accept fun _ _ _ _ _ owned same => foreign (same ▸ owned)
  exact ⟨g, written.trans honours⟩

/-- A new channel that the left output is relayed to is ended by that alone. -/
theorem pipe (left right : Ref .suspension) : Heeds own (pipe engine left right) := by
  intro past m result m' g ended
  rw [pipe_apply] at ended
  split at ended
  · cases ended
    exact ⟨g, .refl own _⟩
  · split at ended
    · cases ended
      exact ⟨g, .refl own _⟩
    · next takes new =>
      have channel_eq : ∀ x, m.newChannel.2.channel x = m.channel x := m.channel_newChannel
      have nobody (ender : Ender) (owned : own m.channels.next) :
          ¬ m.newChannel.2.Ends past m.channels.next ender := fun ends =>
        absurd rfl
          (g.has owned (ends.of_same (fun _ _ => rfl) (fun _ _ => rfl) rfl channel_eq)).ne_next
      have wider : m.newChannel.2.Guarded own past :=
        g.thin channel_eq (fun has => has.alloc .fresh) rfl id
          (g.plumbed.of_same rfl rfl fun hears => by rwa [channel_eq]) fun ends =>
          ends.of_same (fun _ _ => rfl) (fun _ _ => rfl) rfl channel_eq
      have honours : m.Honours own m.newChannel.2 :=
        .of_same channel_eq (fun has => ⟨has, rfl⟩) id (.of_eq rfl)
      cases ran : subscribe engine (m.suspension left).out (.forward m.channels.next)
          m.newChannel.2 with
      | mk outcome after =>
        rw [ran] at ended
        cases outcome with
        | none => cases ended
        | some given =>
          obtain ⟨g, honours', relays⟩ := wider.subscribe h honours (fun channel free => by
            refine ⟨wider.attach free (fun out same owned => ?_) (fun _ same => by cases same)
              (fun _ same => by cases same),
              honours.trans (.attach free fun _ same => by cases same)⟩
            cases same
            refine ⟨Arena.has_alloc_next .., ?_, fun ender => nobody ender owned⟩
            rw [channel_eq, Machine.channel, Arena.get_next]
            rfl) ran
          cases given with
          | error failure =>
            cases ended
            exact ⟨g, honours'⟩
          | ok _ =>
            cases ended
            -- The pipe itself ends no channel: its right side has the output already.
            refine ⟨g.newSuspension rfl fun first second relay same => ?_, honours'.trans
              (.of_same (fun _ => rfl) (fun has => ⟨has, rfl⟩) id (.of_alloc rfl))⟩
            cases same
            have keeps := honours'.keeps
            simp only [Bool.or_eq_true, decide_eq_true_eq, not_or, Decidable.not_not] at new
            obtain ⟨has_left, out_left, accepts, _⟩ := keeps left (Machine.has_of_created new.1)
            obtain ⟨has_right, out_right, takes_right, _⟩ :=
              keeps right (Machine.has_of_created new.2)
            refine ⟨has_left, has_right, out_right, fun fed => accepts.trans fed,
              takes_right.trans (by simpa using takes), ?_⟩
            rw [out_left]
            exact relays rfl

end Signals

end Heeds

/-- Keeping guard, while evaluation goes on and where signals are handed over. -/
def guardPractice (own : Ref .channel → Prop) : (guarding own).Practice where
  Hands c action _ := Delivers own c action
  enlist := Heeds.autoResume
  keep := Heeds.keepResult
  frame := Heeds.runFrame
  suspend alien := Heeds.suspend fun _ _ _ same => by subst same; cases alien
  suspendBody := Heeds.suspendBody
  emit := Heeds.emit_next
  pipe := Heeds.pipe

/-- The discipline of keeping guard over channels that the host leaves alone. -/
def custody (own : Ref .channel → Prop) : Discipline := (guardPractice own).discipline

/-! ## Handing over -/

section Delivery

variable {own : Ref .channel → Prop} {engine : Engine} (h : (custody own).Relates engine engine)

include h

theorem Heeds.runBody (ref : Ref .activation) (value : Value) :
    Heeds own (runBody engine ref value) :=
  (guarding own).allows_read.andThen fun _ => .andThen (Heeds.change fun _ => rfl) fun _ =>
    (Heeds.withScene (h.execute _) _ ref).andThen fun _ => (guarding own).allows_done _

theorem Heeds.runStep (stage : Stage) (value : Value) : Heeds own (runStep engine stage value) := by
  unfold Wordstream.runStep
  cases stage.step with
  | body activation => exact .runBody h _ value
  | call native args => exact Congruence.Practice.runCall h stage.out _ _

/-! ### Probes -/

omit h in
/-- A probe stays with its channel. -/
theorem Heeds.modifyProbe (ref : Ref .probe) {change : Probe → Probe}
    (same : ∀ probe, (change probe).channel = probe.channel) :
    Heeds own (modifyProbe ref change) := by
  intro past m result m' g ended
  cases ended
  refine Machine.Guarded.beside g rfl rfl rfl rfl fun {p} foreign => ?_
  change ¬ own ((m.probes.set ref (change (m.probes.get ref))).get p).channel
  rw [Arena.get_set]
  split
  · next at_p => rwa [same, ← at_p]
  · exact foreign

omit h in
theorem Heeds.recordExchange (ref : Ref .probe) (exchange : Exchange) :
    Heeds own (recordExchange ref exchange) := .modifyProbe ref fun _ => rfl

omit h in
theorem Heeds.logSighting (ref : Ref .probe) (sighting : Sighting) :
    Heeds own (logSighting ref sighting) := .modifyProbe ref fun _ => rfl

variable {past : Option (Ref .task)} {m m' : Machine}

/-- A probe of a channel that is not owned does there what it likes. -/
theorem Machine.Guarded.fulfil (g : m.Guarded own past) {ref : Ref .probe}
    (foreign : ¬ own (m.probes.get ref).channel) (request : Request) {result : Unit}
    (ended : fulfil engine ref request m = (some result, m')) :
    m'.Guarded own past ∧ m.Honours own m' := by
  cases request with
  | note => exact (Heeds.logSighting ref .wrote).ended g ended
  | send signal =>
    obtain ⟨_, m₁, recorded, ended⟩ := Effect.of_bind ended
    obtain ⟨g, honours⟩ := (Heeds.recordExchange ref _).ended g recorded
    rw [Effect.get_bind_apply] at ended
    obtain ⟨g, honours'⟩ :=
      (Heeds.emit_foreign h.deliver (honours.probe foreign) signal).ended g ended
    exact ⟨g, honours.trans honours'⟩
  | listen =>
    obtain ⟨_, m₁, recorded, ended⟩ := Effect.of_bind ended
    obtain ⟨g, honours⟩ := (Heeds.recordExchange ref _).ended g recorded
    rw [Effect.get_bind_apply] at ended
    have foreign := honours.probe foreign
    obtain ⟨given, m₂, listened, ended⟩ := Effect.of_bind ended
    obtain ⟨g, honours, _⟩ := g.subscribe h.deliver honours (fun channel free =>
      ⟨g.attach free (fun _ same => by cases same) (fun _ same => by cases same)
        (fun _ same => by cases same; exact foreign),
        honours.trans (.attach free fun _ same => by cases same)⟩) listened
    cases given with
    | ok _ =>
      cases ended
      exact ⟨g, honours⟩
    | error failure =>
      obtain ⟨g, honours'⟩ := (Heeds.recordExchange ref _).ended g ended
      exact ⟨g, honours.trans honours'⟩

theorem Machine.Guarded.fulfilAll (g : m.Guarded own past) {ref : Ref .probe}
    (foreign : ¬ own (m.probes.get ref).channel) (requests : List Request) {result : Unit}
    (ended : fulfilAll engine ref requests m = (some result, m')) :
    m'.Guarded own past ∧ m.Honours own m' := by
  induction requests generalizing m with
  | nil =>
    cases ended
    exact ⟨g, .refl own _⟩
  | cons request rest ih =>
    obtain ⟨_, m₁, here, ended⟩ := Effect.of_bind ended
    obtain ⟨g, honours⟩ := g.fulfil h foreign request here
    obtain ⟨g, honours'⟩ := ih g (honours.probe foreign) ended
    exact ⟨g, honours.trans honours'⟩

theorem Machine.Guarded.deliverToProbe (g : m.Guarded own past) {ref : Ref .probe}
    (foreign : ¬ own (m.probes.get ref).channel) (signal : Signal) {result : Unit}
    (ended : deliverToProbe engine ref signal m = (some result, m')) :
    m'.Guarded own past ∧ m.Honours own m' := by
  rw [Wordstream.deliverToProbe, Effect.get_bind_apply] at ended
  obtain ⟨_, m₁, logged, ended⟩ := Effect.of_bind ended
  obtain ⟨_, m₂, recorded, ended⟩ := Effect.of_bind ended
  rw [Effect.get_bind_apply] at ended
  obtain ⟨_, m₃, answered, ended⟩ := Effect.of_bind ended
  obtain ⟨g, first⟩ := (Heeds.logSighting ref _).ended g logged
  obtain ⟨g, second⟩ := (Heeds.recordExchange ref _).ended g recorded
  obtain ⟨g, third⟩ := g.fulfilAll h ((first.trans second).probe foreign) _ answered
  obtain ⟨g, last⟩ := (Heeds.recordExchange ref _).ended g ended
  exact ⟨g, (first.trans second).trans (third.trans last)⟩

/-! ### Stages -/

omit h in
/-- A stage whose listening counts as free can be entered. -/
theorem Machine.not_shielded_released {c : Ref .channel} {stage : Ref .stage}
    (hears : (m.channel c).listener? = some (.stage stage)) : ¬ (m.released c).Shielded stage := by
  intro shielded
  have busy := shielded c ((m.listener?_released c c).trans hears)
  rw [isBusy_released, if_pos rfl] at busy
  cases busy

/-- A stage that is busy with a signal tells its output how it ends. Nobody else does, and
meanwhile nobody enters the stage. -/
theorem Machine.Guarded.tellOfStage (g : m.Guarded own past) {c : Ref .channel} {stage : Ref .stage}
    (hears : (m.channel c).listener? = some (.stage stage)) (busy : (m.channel c).isBusy)
    {signal : Signal} {given : Unit}
    (ended : Wordstream.emit engine (m.stages.get stage).out signal m = (some given, m')) :
    m'.Guarded own past ∧ (m.released c).Honours own (m'.released c) ∧
      (m'.channel c).listener? = some (.stage stage) ∧ (m'.channel c).isBusy ∧
      m'.stages.get stage = m.stages.get stage ∧ (own (m.stages.get stage).out →
        (m'.channel (m.stages.get stage).out).ending =
          ((m.channel (m.stages.get stage).out).accept signal).ending) := by
  have has := g.stage hears
  generalize out_def : (m.stages.get stage).out = out at ended ⊢
  let told := m.setChannel out ((m.channel out).accept signal)
  have engaged : told.Engaged stage := Machine.Engaged.of_setChannel ⟨c, hears, busy⟩
    Channel.listener?_accept fun busy => by rwa [Channel.isBusy_accept]
  have g_told : told.Guarded own past := g.accept fun owned _ _ ender ends =>
    .inl ⟨stage, g.unique owned ends ⟨has, out_def⟩, c, hears, busy⟩
  -- What is handed over on the way finds the stage shielded: its one channel is busy.
  obtain ⟨g', honours⟩ := Machine.Guarded.emit h.deliver g_told ended
  obtain ⟨x, hears_x, busy_x⟩ := engaged
  have hears_c : (told.channel c).listener? = some (.stage stage) := by
    rw [Machine.channel_setChannel]
    split
    · next at_out => rw [← at_out, Channel.listener?_accept, hears]
    · exact hears
  obtain rfl : x = c := g_told.single hears_x hears_c
  have shielded : told.Shielded stage := fun y hears_y => by rwa [g_told.single hears_y hears_x]
  obtain ⟨same, ending⟩ := honours.shielded has shielded
  have written : (m.released x).Honours own (told.released x) := by
    have accepted : (m.released x).Honours own ((m.released x).setChannel out
        (((m.released x).channel out).accept signal)) :=
          .accept fun _ _ other has' closed owned at_out => by
      -- Another stage would be a second party of the same output.
      have party : m.Ends past out (.stage other) := ⟨has', at_out⟩
      obtain rfl : other = stage := Ender.stage.inj (g.unique (at_out ▸ owned) party ⟨has, out_def⟩)
      exact absurd closed (Machine.not_shielded_released hears)
    exact accepted.trans (.of_same (fun y => m.channel_released_accept x out y signal)
      (fun has => ⟨has, rfl⟩) id (.of_eq rfl))
  refine ⟨g', written.trans (honours.release x), honours.listener hears_x, ?_, same,
    fun owned => ?_⟩
  · rw [honours.busy]
    exact busy_x
  · have ending := ending (out_def ▸ owned)
    change (m'.channel (m.stages.get stage).out).ending =
      (told.channel (m.stages.get stage).out).ending at ending
    rwa [out_def, Machine.channel_setChannel, if_pos rfl] at ending

/-- A stage that is busy with a signal ends its output, and then gets its result. -/
theorem Machine.Guarded.endStage (g : m.Guarded own past) {c : Ref .channel} {stage : Ref .stage}
    (hears : (m.channel c).listener? = some (.stage stage)) (busy : (m.channel c).isBusy)
    (ease : own (m.stages.get stage).out → m.AtEase stage) (result : Result)
    (done : result = .ok () → (m.channel c).ending = some .complete) {given : Unit}
    (ended : (Wordstream.emit engine (m.stages.get stage).out (.ofResult result) >>= fun _ =>
      finishStage stage result) m = (some given, m')) :
    (m'.released c).Guarded own past ∧ (m.released c).Honours own (m'.released c) := by
  obtain ⟨_, m₁, told, ended⟩ := Effect.of_bind ended
  obtain ⟨g₁, honours, hears₁, busy₁, same, ending⟩ := g.tellOfStage h hears busy told
  have terminal : (Signal.ofResult result).isTerminal := by cases result <;> rfl
  cases before : (m.stages.get stage).result with
  | some earlier =>
    rw [finishStage_of_some result (by rw [same, before])] at ended
    cases ended
    refine ⟨g₁.release fun other hears' owned => ?_, honours⟩
    obtain rfl : stage = other := by
      rw [hears₁] at hears'
      exact Listener.stage.inj (Option.some.inj hears')
    unfold Machine.AtEase
    rw [same] at owned ⊢
    -- The output has an ending already, and so does the stage.
    have eased := ease owned
    unfold Machine.AtEase at eased
    rw [before] at eased
    rw [ending owned, Channel.ending_accept_of_some eased, eased, before]
  | none =>
    rw [finishStage_of_none result (by rw [same, before])] at ended
    cases ended
    -- The stage ends well only because its input has ended, and that is the only one it listens to.
    have completed (ok : result = .ok ()) (x : Ref .channel)
        (hears' : (m₁.channel x).listener? = some (.stage stage)) :
        (m₁.channel x).ending = some .complete := by
      rw [g₁.single hears' hears₁, ← Machine.ending_released m₁ c]
      refine honours.ending ?_
      rw [Machine.ending_released]
      exact done ok
    have g₂ := g₁.setStage (g₁.stage hears₁) ⟨c, hears₁, busy₁⟩ true completed
    refine ⟨g₂.release fun other hears' owned => ?_, honours.trans
      (.setStage (Machine.not_shielded_released hears₁) _ true)⟩
    obtain rfl : stage = other := by
      change (m₁.channel c).listener? = _ at hears'
      rw [hears₁] at hears'
      exact Listener.stage.inj (Option.some.inj hears')
    change own ((m₁.stages.set stage
      { m₁.stages.get stage with result := some result }).get stage).out at owned
    change (m₁.channel ((m₁.stages.set stage { m₁.stages.get stage with
      result := some result }).get stage).out).ending =
        ((m₁.stages.set stage { m₁.stages.get stage with
          result := some result }).get stage).result.map .ofResult
    rw [Arena.get_set, if_pos rfl] at owned ⊢
    rw [same] at owned ⊢
    have eased := ease owned
    unfold Machine.AtEase at eased
    rw [before] at eased
    rw [ending owned, Channel.ending_accept_of_none eased, if_pos terminal]
    rfl

/-- A stage that is handed a signal is at ease behind it. -/
theorem Machine.Guarded.deliverToStage (g : m.Guarded own past) {c : Ref .channel}
    {stage : Ref .stage} (hears : (m.channel c).listener? = some (.stage stage))
    (busy : (m.channel c).isBusy) (ease : own (m.stages.get stage).out → m.AtEase stage)
    {signal : Signal} (last : signal.isTerminal → (m.channel c).ending = some signal) {given : Unit}
    (ended : Wordstream.deliverToStage engine stage signal m = (some given, m')) :
    (m'.released c).Guarded own past ∧ (m.released c).Honours own (m'.released c) := by
  have only {m : Machine} (hears : (m.channel c).listener? = some (.stage stage))
      {other : Ref .stage}
      (hears' : (m.channel c).listener? = some (.stage other)) : stage = other :=
    Listener.stage.inj (Option.some.inj (hears.symm.trans hears'))
  cases signal with
  | failed failure =>
    exact g.endStage h hears busy ease (.error failure) (fun ok => by cases ok) ended
  | complete => exact g.endStage h hears busy ease (.ok ()) (fun _ => last rfl) ended
  | next value =>
    rw [deliverToStage_next] at ended
    split at ended
    · obtain ⟨result, m₁, ran, ended⟩ := Effect.of_bind ended
      -- While the step runs nothing enters the stage, so that it is as much at ease as before.
      obtain ⟨g₁, honours⟩ := (Heeds.runStep h _ value).ended g ran
      have shielded : m.Shielded stage := fun x hears' => by rwa [g.single hears' hears]
      obtain ⟨same, ending⟩ := honours.shielded (g.stage hears) shielded
      have hears₁ := honours.listener hears
      have busy₁ : (m₁.channel c).isBusy := (honours.busy c).trans busy
      have ease₁ (owned : own (m₁.stages.get stage).out) : m₁.AtEase stage := by
        unfold Machine.AtEase
        rw [same] at owned ⊢
        exact (ending owned).trans (ease owned)
      cases result with
      | ok _ =>
        cases ended
        exact ⟨g₁.release fun other hears' => only hears₁ hears' ▸ ease₁, honours.release c⟩
      | error failure =>
        dsimp only at ended
        rw [← same] at ended
        obtain ⟨g', honours'⟩ :=
          g₁.endStage h hears₁ busy₁ ease₁ (.error failure) (fun ok => by cases ok) ended
        exact ⟨g', (honours.release c).trans honours'⟩
    · cases ended
      exact ⟨g.release fun other hears' => only hears hears' ▸ ease, .refl own _⟩

/-! ### Listeners -/

omit h in
theorem Heeds.deliverToCollector (ref : Ref .collector) (signal : Signal) :
    Heeds own (deliverToCollector ref signal) := by
  intro past m result m' g ended
  cases ended
  exact Machine.Guarded.beside g rfl rfl rfl rfl id

/-- Whoever is handed a signal is done with it behind that. -/
theorem Machine.Guarded.deliverTo (g : m.Guarded own past) {c : Ref .channel} {listener : Listener}
    (hears : (m.channel c).listener? = some listener) (busy : (m.channel c).isBusy)
    (ease : ∀ stage, listener = .stage stage → own (m.stages.get stage).out → m.AtEase stage)
    {signal : Signal} (last : signal.isTerminal → (m.channel c).ending = some signal) {given : Unit}
    (ended : Wordstream.deliverTo engine listener signal m = (some given, m')) :
    (m'.released c).Guarded own past ∧ (m.released c).Honours own (m'.released c) := by
  -- Who is no stage has nothing of its own to be done with.
  have settle (stageless : ∀ stage, listener ≠ .stage stage) (g' : m'.Guarded own past)
      (honours : m.Honours own m') :
      (m'.released c).Guarded own past ∧ (m.released c).Honours own (m'.released c) := by
    refine ⟨g'.release fun stage hears' => ?_, honours.release c⟩
    rw [honours.listener hears] at hears'
    exact absurd (Option.some.inj hears') (stageless stage)
  cases listener with
  | stage stage => exact g.deliverToStage h hears busy (ease stage rfl) last ended
  | collector ref =>
    obtain ⟨g', honours⟩ := (Heeds.deliverToCollector ref signal).ended g ended
    exact settle (fun _ => Listener.noConfusion) g' honours
  | probe ref =>
    obtain ⟨g', honours⟩ := g.deliverToProbe h (g.probe hears) signal ended
    exact settle (fun _ => Listener.noConfusion) g' honours
  | forward target =>
    have told : (m.setChannel target ((m.channel target).accept signal)).Guarded own past :=
      g.accept fun owned terminal _ ender ends =>
        .inr ⟨c, g.unique owned ends hears, last terminal⟩
    obtain ⟨g', honours⟩ := Machine.Guarded.emit h.deliver told ended
    have written : m.Honours own (m.setChannel target ((m.channel target).accept signal)) :=
      .accept fun _ _ stage has _ owned at_target => by
        have party : m.Ends past target (.stage stage) := ⟨has, at_target⟩
        cases g.unique (at_target ▸ owned) party (show m.Ends past target (.channel c) from hears)
    exact settle (fun _ => Listener.noConfusion) g' (written.trans honours)

/-- Handing over what waits on a channel keeps guard. -/
theorem Delivers.deliverAll (c : Ref .channel) : Delivers own c (deliverAll engine c) := by
  intro past m given m' g ended
  rw [deliverAll_apply] at ended
  cases taken : (m.channel c).take? with
  | none =>
    rw [taken] at ended
    cases ended
    exact ⟨g, .refl own _⟩
  | some next =>
    obtain ⟨listener, signal, channel⟩ := next
    rw [taken] at ended
    obtain ⟨_, m₁, handed, ended⟩ := Effect.of_bind ended
    obtain ⟨hears, busy, g₁, honours⟩ := g.take taken
    obtain ⟨ease, last⟩ := g.handed taken
    obtain ⟨g₂, honours'⟩ := g₁.deliverTo h hears busy ease last handed
    obtain ⟨g', honours''⟩ := h.deliver c past m₁ given m' g₂ ended
    exact ⟨g', honours.trans (honours'.trans honours'')⟩

end Delivery

/-- Evaluation keeps guard, whatever fuel it has. -/
theorem Engine.heeds_ofFuel {host : Host} {own : Ref .channel → Prop}
    (hosted : (custody own).Admits host) (fuel : Nat) :
    (custody own).Relates (ofFuel host fuel) (ofFuel host fuel) := by
  induction fuel with
  | zero =>
    have never {σ α : Type} [HasMachine σ] : Heeds own (outOfFuel : Run σ α) :=
      fun _ _ _ _ _ ended => by cases ended
    have undelivered (c : Ref .channel) : Delivers own c outOfFuel :=
      fun _ _ _ _ _ ended => by cases ended
    exact ⟨fun _ => never, fun _ _ => never, never, undelivered, fun _ _ _ => never, fun _ => never,
      fun _ _ _ _ _ => never⟩
  | succ fuel ih => exact ih.step hosted fun c => .deliverAll ih c

end Wordstream
