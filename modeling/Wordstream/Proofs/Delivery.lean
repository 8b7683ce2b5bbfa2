import Wordstream.Proofs.Demand
import Wordstream.Proofs.Journal

/-!
# Delivery of signals

A channel hands its signals over to a probe, which may answer each of them by any requests to the
same channel. While the probe is handling a signal nothing is handed over: what it writes joins the
backlog, and is taken by the loop that is running already. So its answers stand together in its
journal, and when a request made from outside has ended, nothing waits any more.

## Main results

* `fulfilAll_handling` — what a probe asks for while it is handling a signal
* `fulfilAll_atRest` — what is asked from outside
* `fulfilAll_delivers` — what a channel delivers to a probe, whatever it is asked for
-/

namespace Wordstream

/-! ## Answers in a journal -/

/-- What a request leaves in the journal when somebody listens already. -/
def traceOf : Request → List Exchange
  | .send signal => [.sent signal]
  | .listen => [.listened, .refused .alreadySubscribed]
  | .note => []

/-- What requests leave in the journal when somebody listens already. -/
def traces (requests : List Request) : List Exchange := requests.flatMap traceOf

/-- The signals that requests write. -/
def written (requests : List Request) : List Signal := offered (traces requests)

/-- Behind every signal that was handed over stands what the probe answered to it, and nothing else
up to the end of the answer. -/
def Answers (answer : List Exchange → List Request) (journal : List Exchange) : Prop :=
  ∀ earlier signal later, journal = earlier ++ .received signal :: later →
    traces (answer (earlier ++ [.received signal])) ++ [.answered] <+: later

/-- A request hands nothing over by itself. -/
theorem received_not_mem_traces (requests : List Request) (signal : Signal) :
    .received signal ∉ traces requests := by
  intro member
  obtain ⟨request, _, traced⟩ := List.mem_flatMap.1 member
  cases request with
  | send other => simp [traceOf] at traced
  | listen => simp [traceOf] at traced
  | note => simp [traceOf] at traced

section Answers

variable {answer : List Exchange → List Request} {journal : List Exchange}

/-- What comes later does not change what was answered. -/
theorem Answers.concat (h : Answers answer journal) {last : Exchange}
    (other : ∀ signal, last ≠ .received signal) : Answers answer (journal ++ [last]) := by
  intro earlier signal later split
  rcases last_or_before split with ⟨_, same, _⟩ | ⟨rest, rfl, before⟩
  · exact absurd same.symm (other signal)
  · exact (h earlier signal rest before).trans (List.prefix_append rest [last])

/-- A signal that is handed over and answered. -/
theorem Answers.handled (h : Answers answer journal) (signal : Signal) :
    Answers answer (journal ++ .received signal ::
      (traces (answer (journal ++ [.received signal])) ++ [.answered])) := by
  intro earlier other later split
  -- The signal stands in the new part if its place is not in the old one.
  have newest : ∀ middle, earlier = journal ++ middle → .received signal ::
      (traces (answer (journal ++ [.received signal])) ++ [.answered]) =
        middle ++ .received other :: later →
      traces (answer (earlier ++ [.received other])) ++ [.answered] <+: later := by
    rintro middle rfl parted
    cases middle with
    | nil =>
      cases parted
      simp
    | cons first middle =>
      have member : Exchange.received other ∈
          traces (answer (journal ++ [.received signal])) ++ [.answered] := by
        rw [(List.cons.inj parted).2]
        exact List.mem_append_right _ List.mem_cons_self
      rcases List.mem_append.1 member with traced | last
      · exact absurd traced (received_not_mem_traces _ other)
      · simp at last
  rcases List.append_eq_append_iff.1 split with ⟨middle, rfl, parted⟩ | ⟨middle, old, parted⟩
  · exact newest middle rfl parted
  · cases middle with
    | nil => exact newest [] (by rw [old, List.append_nil, List.append_nil]) parted.symm
    | cons first middle =>
      obtain ⟨rfl, rfl⟩ := List.cons.inj parted
      exact (h earlier other middle old).trans (List.prefix_append middle _)

end Answers

/-! ## Channels and probes of a machine -/

namespace Machine

/-- The journal of a probe. -/
def journal (m : Machine) (probe : Ref .probe) : List Exchange := (m.probes.get probe).journal

/-- The machine when an exchange was added to the journal of a probe. -/
def recorded (m : Machine) (probe : Ref .probe) (exchange : Exchange) : Machine :=
  m.setProbe probe { m.probes.get probe with journal := m.journal probe ++ [exchange] }

@[simp]
theorem journal_recorded (m : Machine) (probe : Ref .probe) (exchange : Exchange) :
    (m.recorded probe exchange).journal probe = m.journal probe ++ [exchange] := by
  simp [journal, recorded, setProbe]

@[simp]
theorem tied_recorded (m : Machine) (probe : Ref .probe) (exchange : Exchange) :
    ((m.recorded probe exchange).probes.get probe).channel = (m.probes.get probe).channel := by
  simp [recorded, setProbe]

@[simp]
theorem rule_recorded (m : Machine) (probe : Ref .probe) (exchange : Exchange) :
    ((m.recorded probe exchange).probes.get probe).answer = (m.probes.get probe).answer := by
  simp [recorded, setProbe]

@[simp]
theorem channel_recorded (m : Machine) (probe : Ref .probe) (exchange : Exchange)
    (ref : Ref .channel) : (m.recorded probe exchange).channel ref = m.channel ref := rfl

@[simp]
theorem probes_setChannel (m : Machine) (ref : Ref .channel) (channel : Channel) :
    (m.setChannel ref channel).probes = m.probes := rfl

@[simp]
theorem journal_setChannel (m : Machine) (ref : Ref .channel) (channel : Channel)
    (probe : Ref .probe) : (m.setChannel ref channel).journal probe = m.journal probe := rfl

/-- The machine when a sighting was added to the log of a probe. -/
def logged (m : Machine) (probe : Ref .probe) (sighting : Sighting) : Machine :=
  m.setProbe probe { m.probes.get probe with log := (m.probes.get probe).log ++ [sighting] }

@[simp]
theorem journal_logged (m : Machine) (probe : Ref .probe) (sighting : Sighting) :
    (m.logged probe sighting).journal probe = m.journal probe := by
  simp [journal, logged, setProbe]

variable {ref : Ref .channel} {probe : Ref .probe} {answer : List Exchange → List Request}

/-- A probe that answers by a rule on a channel, and agrees with it. -/
structure Agrees (m : Machine) (ref : Ref .channel) (probe : Ref .probe)
    (answer : List Exchange → List Request) : Prop where
  tied : (m.probes.get probe).channel = ref
  rule : (m.probes.get probe).answer = answer
  account : Account probe (m.channel ref) (m.journal probe)

/-- A probe that agrees with its channel and has answered every signal that it was handed. -/
structure Conversing (m : Machine) (ref : Ref .channel) (probe : Ref .probe)
    (answer : List Exchange → List Request) : Prop extends m.Agrees ref probe answer where
  answers : Answers answer (m.journal probe)

/-- No signal is being handled, and none waits if there is a listener. -/
structure AtRest (m : Machine) (ref : Ref .channel) (probe : Ref .probe) : Prop where
  free : handling (m.journal probe) = false
  idle {listener : Listener} {busy : Bool}
    (attached : (m.channel ref).attachment = .listening listener busy) :
    busy = false ∧ (m.channel ref).backlog = []

/-- What a probe has seen has nothing to do with its channel. -/
theorem Agrees.logged {m : Machine} (h : m.Agrees ref probe answer) (sighting : Sighting) :
    (m.logged probe sighting).Agrees ref probe answer where
  tied := by simpa [Machine.logged, setProbe] using h.tied
  rule := by simpa [Machine.logged, setProbe] using h.rule
  account := by
    rw [journal_logged]
    exact h.account

/-- A probe that agrees with its channel still does so after an exchange if the account is kept. -/
theorem Agrees.recorded {m : Machine} (h : m.Agrees ref probe answer) {exchange : Exchange}
    (account : Account probe (m.channel ref) (m.journal probe ++ [exchange])) :
    (m.recorded probe exchange).Agrees ref probe answer :=
  ⟨by simp [h.tied], by simp [h.rule], by simpa using account⟩

/-- The same when the channel is changed along with it. -/
theorem Agrees.exchange {m : Machine} (h : m.Agrees ref probe answer) {exchange : Exchange}
    {channel : Channel} (account : Account probe channel (m.journal probe ++ [exchange])) :
    ((m.recorded probe exchange).setChannel ref channel).Agrees ref probe answer :=
  ⟨by simp [h.tied], by simp [h.rule], by simpa using account⟩

end Machine

theorem recordExchange_apply (probe : Ref .probe) (exchange : Exchange) (m : Machine) :
    recordExchange probe exchange m = (some (), m.recorded probe exchange) := rfl

theorem logSighting_apply (probe : Ref .probe) (sighting : Sighting) (m : Machine) :
    logSighting probe sighting m = (some (), m.logged probe sighting) := rfl

section Requests

variable {ref : Ref .channel} {probe : Ref .probe} {answer : List Exchange → List Request}
  {engine : Engine} {m : Machine}

/-- A probe writes a signal: it is recorded and accepted, and handed over if the probe is free. -/
theorem fulfil_send_apply (agrees : m.Agrees ref probe answer) (engine : Engine)
    (signal : Signal) :
    fulfil engine probe (.send signal) m =
      if (m.channel ref).mustDeliver then
        engine.deliver ref
          ((m.recorded probe (.sent signal)).setChannel ref ((m.channel ref).accept signal))
      else (some (),
        (m.recorded probe (.sent signal)).setChannel ref ((m.channel ref).accept signal)) := by
  change emit engine ((m.recorded probe (.sent signal)).probes.get probe).channel signal
    (m.recorded probe (.sent signal)) = _
  rw [Machine.tied_recorded, agrees.tied, emit_apply]
  rfl

/-- A probe asks to listen: it is handed what was kept, or refused. -/
theorem fulfil_listen_apply (agrees : m.Agrees ref probe answer) (engine : Engine) :
    fulfil engine probe .listen m =
      match (m.channel ref).attach? (.probe probe) with
      | some channel => engine.deliver ref ((m.recorded probe .listened).setChannel ref channel)
      | none => (some (),
          (m.recorded probe .listened).recorded probe (.refused .alreadySubscribed)) := by
  change (outcome (subscribe engine ((m.recorded probe .listened).probes.get probe).channel
    (.probe probe)) >>= _ : Effect Machine Unit) (m.recorded probe .listened) = _
  rw [Machine.tied_recorded, agrees.tied, Effect.bind_apply, outcome_apply, subscribe_apply,
    Machine.channel_recorded]
  cases (m.channel ref).attach? (.probe probe) with
  | none => rfl
  | some channel =>
    dsimp only
    rcases engine.deliver ref ((m.recorded probe .listened).setChannel ref channel) with
      ⟨_ | ⟨⟩, after⟩
    · rfl
    · rfl

/-! ## Requests while a signal is handled -/

/-- While a probe is handling a signal, what it writes waits and listening again is refused. The
loop that hands signals over is not entered. -/
theorem fulfil_handling (engine : Engine) (agrees : m.Agrees ref probe answer)
    (busy : handling (m.journal probe) = true) (request : Request) :
    ∃ m', fulfil engine probe request m = (some (), m') ∧ m'.Agrees ref probe answer ∧
      m'.journal probe = m.journal probe ++ traceOf request := by
  -- The probe is busy, so no case reaches `engine.deliver`.
  have attached := agrees.account.busy_of_handling busy
  cases request with
  | send signal =>
    have waits : (m.channel ref).mustDeliver = false := by
      simp [Channel.mustDeliver, Channel.isIdle, attached]
    rw [fulfil_send_apply agrees, waits]
    exact ⟨_, rfl, agrees.exchange (agrees.account.send signal), by simp [traceOf]⟩
  | listen =>
    have taken : (m.channel ref).attach? (.probe probe) = none := by
      simp [Channel.attach?, attached]
    have account := agrees.account.refuse (by rw [attached]; simp)
    rw [fulfil_listen_apply agrees, taken]
    refine ⟨_, rfl, ⟨by simp [agrees.tied], by simp [agrees.rule], by simpa using account⟩, ?_⟩
    simp [traceOf]
  | note => exact ⟨m.logged probe .wrote, rfl, agrees.logged .wrote, by simp [traceOf]⟩

/-- What a request leaves in the journal does not end the handling of a signal. -/
theorem handling_append_traceOf (journal : List Exchange) (request : Request) :
    handling (journal ++ traceOf request) = handling journal := by
  cases request with
  | send signal => simp [handling, traceOf]
  | listen => simp [handling, traceOf]
  | note => simp [traceOf]

theorem handling_append_traces (journal : List Exchange) (requests : List Request) :
    handling (journal ++ traces requests) = handling journal := by
  induction requests generalizing journal with
  | nil => rw [traces, List.flatMap_nil, List.append_nil]
  | cons request rest ih =>
    rw [traces, List.flatMap_cons, ← List.append_assoc]
    exact (ih _).trans (handling_append_traceOf journal request)

/-- While a probe is handling a signal, all that it asks for is done at once, and stands in its
journal. -/
theorem fulfilAll_handling (engine : Engine) (agrees : m.Agrees ref probe answer)
    (busy : handling (m.journal probe) = true) (requests : List Request) :
    ∃ m', fulfilAll engine probe requests m = (some (), m') ∧ m'.Agrees ref probe answer ∧
      m'.journal probe = m.journal probe ++ traces requests := by
  induction requests generalizing m with
  | nil => exact ⟨m, rfl, agrees, by simp [traces]⟩
  | cons request rest ih =>
    obtain ⟨middle, ran, agrees', journal_eq⟩ := fulfil_handling engine agrees busy request
    have busy' : handling (middle.journal probe) = true := by
      rw [journal_eq, handling_append_traceOf, busy]
    obtain ⟨after, ran', agrees'', journal_eq'⟩ := ih agrees' busy'
    refine ⟨after, ?_, agrees'', ?_⟩
    · rw [fulfilAll, Effect.bind_apply, ran]
      exact ran'
    · rw [journal_eq', journal_eq, List.append_assoc]
      rfl

/-! ## Requests from outside -/

/-- Where a computation has brought a conversation: it goes on, whether the computation has ended or
was stopped, with all that was in the journal before; and it is at rest if the computation has
ended. -/
structure Continues (m : Machine) (ref : Ref .channel) (probe : Ref .probe)
    (answer : List Exchange → List Request) (outcome : Option Unit × Machine) : Prop where
  conversing : outcome.2.Conversing ref probe answer
  longer : m.journal probe <+: outcome.2.journal probe
  atRest : outcome.1.isSome → outcome.2.AtRest ref probe

/-- What goes on from a later state goes on from an earlier one. -/
theorem Continues.of_longer {middle : Machine} {outcome : Option Unit × Machine}
    (h : Continues middle ref probe answer outcome)
    (longer : m.journal probe <+: middle.journal probe) :
    Continues m ref probe answer outcome :=
  ⟨h.conversing, longer.trans h.longer, h.atRest⟩

/-- The loop that hands signals over is entered when no signal is being handled. It goes on until
nothing waits. -/
def Engine.HandsOver (engine : Engine) (ref : Ref .channel) (probe : Ref .probe)
    (answer : List Exchange → List Request) : Prop :=
  ∀ m : Machine, m.Conversing ref probe answer → handling (m.journal probe) = false →
    (m.channel ref).isSubscribed → Continues m ref probe answer (engine.deliver ref m)

/-- A signal is written from outside. -/
theorem fulfil_send_atRest (hands : engine.HandsOver ref probe answer)
    (h : m.Conversing ref probe answer) (rest : m.AtRest ref probe) (signal : Signal) :
    Continues (m.recorded probe (.sent signal)) ref probe answer
      (fulfil engine probe (.send signal) m) := by
  have conversing : ((m.recorded probe (.sent signal)).setChannel ref
      ((m.channel ref).accept signal)).Conversing ref probe answer := by
    refine ⟨h.toAgrees.exchange (h.account.send signal), ?_⟩
    simpa using h.answers.concat fun _ same => by cases same
  have free : handling (m.journal probe ++ [.sent signal]) = false := by
    simpa [handling] using rest.free
  rw [fulfil_send_apply h.toAgrees]
  by_cases due : (m.channel ref).mustDeliver
  · -- The signal is handed over at once, and with it all that the probe answers.
    rw [if_pos due]
    have subscribed := Channel.isSubscribed_of_mustDeliver due
    refine (hands _ conversing (by simpa using free) ?_).of_longer (by simp)
    simpa [Channel.isSubscribed] using subscribed
  · rw [if_neg due]
    refine ⟨conversing, by simp, fun _ => ⟨by simpa using free, fun {listener busy} attached => ?_⟩⟩
    rw [Machine.channel_setChannel, if_pos rfl] at attached ⊢
    rw [Channel.attachment_accept] at attached
    obtain ⟨rfl, empty⟩ := rest.idle attached
    -- Whoever is free would have been handed the signal, had it not come behind a terminal one.
    have ended := Channel.terminated_of_not_mustDeliver attached due
    rw [Channel.accept, if_pos ended]
    exact ⟨rfl, empty⟩

/-- Somebody asks to listen from outside. -/
theorem fulfil_listen_atRest (hands : engine.HandsOver ref probe answer)
    (h : m.Conversing ref probe answer) (rest : m.AtRest ref probe) :
    Continues m ref probe answer (fulfil engine probe .listen m) := by
  have free : handling (m.journal probe ++ [.listened]) = false := by
    simpa [handling] using rest.free
  rw [fulfil_listen_apply h.toAgrees]
  cases attachment : (m.channel ref).attachment with
  -- Whoever is the first is handed what waits; everybody else is refused.
  | buffering =>
    have first : (m.channel ref).attach? (.probe probe) =
        some { m.channel ref with attachment := .listening (.probe probe) false } := by
      simp [Channel.attach?, attachment]
    rw [first]
    refine (hands _ ⟨h.toAgrees.exchange (h.account.attach attachment), ?_⟩ (by simpa using free)
      ?_).of_longer (by simp)
    · simpa using h.answers.concat fun _ same => by cases same
    · simp [Channel.isSubscribed]
  | listening listener busy =>
    have taken : (m.channel ref).attach? (.probe probe) = none := by
      simp [Channel.attach?, attachment]
    have account := h.account.refuse (by rw [attachment]; simp)
    have answers : Answers answer
        (m.journal probe ++ [.listened] ++ [.refused .alreadySubscribed]) :=
      (h.answers.concat fun _ same => by cases same).concat fun _ same => by cases same
    rw [taken]
    refine ⟨⟨⟨by simp [h.tied], by simp [h.rule], by simpa using account⟩, by simpa using answers⟩,
      by simp, fun _ => ⟨?_, rest.idle⟩⟩
    simpa [handling] using rest.free

/-- What is asked for from outside is done, and then the channel is at rest again. -/
theorem fulfil_atRest (hands : engine.HandsOver ref probe answer)
    (h : m.Conversing ref probe answer) (rest : m.AtRest ref probe) (request : Request) :
    Continues m ref probe answer (fulfil engine probe request m) ∧
      offered (m.journal probe) ++ written [request] <+:
        offered ((fulfil engine probe request m).2.journal probe) := by
  cases request with
  | send signal =>
    have continues := fulfil_send_atRest hands h rest signal
    have longer := continues.longer.filterMap sentSignal?
    refine ⟨continues.of_longer (by simp), ?_⟩
    rw [Machine.journal_recorded, List.filterMap_append] at longer
    exact longer
  | listen =>
    have continues := fulfil_listen_atRest hands h rest
    have longer := continues.longer.filterMap sentSignal?
    refine ⟨continues, ?_⟩
    rw [show written [.listen] = [] from rfl, List.append_nil]
    exact longer
  | note =>
    have logged : fulfil engine probe .note m = (some (), m.logged probe .wrote) := rfl
    rw [logged, show written [.note] = [] from rfl, List.append_nil]
    refine ⟨⟨⟨h.toAgrees.logged .wrote, by simpa using h.answers⟩, by simp, fun _ => ⟨?_, ?_⟩⟩, ?_⟩
    · simpa using rest.free
    · exact rest.idle
    · simp

/-- The same for any number of requests. -/
theorem fulfilAll_atRest (hands : engine.HandsOver ref probe answer)
    (h : m.Conversing ref probe answer) (rest : m.AtRest ref probe) (requests : List Request) :
    Continues m ref probe answer (fulfilAll engine probe requests m) ∧
      ((fulfilAll engine probe requests m).1.isSome →
        (offered (m.journal probe) ++ written requests).Sublist
          (offered ((fulfilAll engine probe requests m).2.journal probe))) := by
  induction requests generalizing m with
  | nil =>
    refine ⟨⟨h, List.prefix_rfl, fun _ => rest⟩, fun _ => ?_⟩
    rw [show written [] = [] from rfl, List.append_nil]
    exact .refl _
  | cons request requests ih =>
    have step := fulfil_atRest hands h rest request
    rw [fulfilAll, Effect.bind_apply]
    -- Stopped within the first request, or at rest behind it.
    generalize fulfil engine probe request m = outcome at step ⊢
    obtain ⟨continues, wrote⟩ := step
    obtain ⟨_ | ⟨⟩, middle⟩ := outcome
    · exact ⟨continues, fun ended => Bool.noConfusion ended⟩
    · obtain ⟨continues', wrote'⟩ := ih continues.conversing (continues.atRest rfl)
      refine ⟨continues'.of_longer continues.longer, fun ended => ?_⟩
      have written_cons : written (request :: requests) =
          written [request] ++ written requests := by
        simp [written, traces, offered_append]
      rw [written_cons, ← List.append_assoc]
      exact (wrote.sublist.append (.refl _)).trans (wrote' ended)

/-! ## Handing signals over -/

/-- A probe is handed a signal: it notes it, does what it answers, and is done. -/
theorem deliverToProbe_apply (engine : Engine) (probe : Ref .probe) (signal : Signal)
    (m : Machine) :
    deliverToProbe engine probe signal m =
      let before := (m.logged probe (sighting m signal)).recorded probe (.received signal)
      (fulfilAll engine probe ((before.probes.get probe).answer (before.journal probe)) >>=
        fun _ => recordExchange probe .answered) before := by
  rw [deliverToProbe, Effect.bind_apply, Effect.get_apply]
  dsimp only
  rw [Effect.bind_apply, logSighting_apply]
  dsimp only
  rw [Effect.bind_apply, recordExchange_apply]
  dsimp only
  rw [Effect.bind_apply, Effect.get_apply]
  rfl

/-- A probe that listens and is free is handed the signal that waits longest. When it is done, its
answers stand in its journal and it listens still. -/
theorem deliverToProbe_converses (engine : Engine) (h : m.Conversing ref probe answer)
    (free : handling (m.journal probe) = false) {busy : Bool} {signal : Signal}
    {rest : List Signal} (attached : (m.channel ref).attachment = .listening (.probe probe) busy)
    (waiting : (m.channel ref).backlog = signal :: rest) :
    ∃ after, deliverToProbe engine probe signal (m.setChannel ref { m.channel ref with
        backlog := rest, attachment := .listening (.probe probe) true }) = (some (), after) ∧
      after.Conversing ref probe answer ∧ m.journal probe <+: after.journal probe ∧
      handling (after.journal probe) = false ∧ (after.channel ref).isSubscribed := by
  let taken := m.setChannel ref { m.channel ref with
    backlog := rest, attachment := .listening (.probe probe) true }
  let before := (taken.logged probe (sighting taken signal)).recorded probe (.received signal)
  -- The signal left the backlog and entered the journal together: no engine call lies between.
  have before_journal : before.journal probe = m.journal probe ++ [.received signal] := by
    simp [before, taken]
  have before_agrees : before.Agrees ref probe answer := by
    refine ⟨?_, ?_, ?_⟩
    · simpa [before, taken, Machine.logged, Machine.setProbe] using h.tied
    · simpa [before, taken, Machine.logged, Machine.setProbe] using h.rule
    · have channel_eq : before.channel ref = { m.channel ref with
          backlog := rest, attachment := .listening (.probe probe) true } :=
        (m.channel_setChannel ref ref _).trans (if_pos rfl)
      rw [before_journal, channel_eq]
      exact h.account.take free attached waiting
  have before_busy : handling (before.journal probe) = true := by
    rw [before_journal, handling_concat]
  obtain ⟨handled, ran, agrees, journal_eq⟩ :=
    fulfilAll_handling engine before_agrees before_busy (answer (before.journal probe))
  have handled_busy : handling (handled.journal probe) = true := by
    rw [journal_eq, handling_append_traces, before_busy]
  have after_journal : (handled.recorded probe .answered).journal probe = m.journal probe ++
      .received signal :: (traces (answer (m.journal probe ++ [.received signal])) ++
        [.answered]) := by
    rw [Machine.journal_recorded, journal_eq, before_journal]
    simp
  refine ⟨handled.recorded probe .answered, ?_, ⟨agrees.recorded agrees.account.answer, ?_⟩, ?_,
    ?_, ?_⟩
  · rw [deliverToProbe_apply]
    change (fulfilAll engine probe ((before.probes.get probe).answer (before.journal probe)) >>=
      fun _ => recordExchange probe .answered : Effect Machine Unit) before = _
    rw [before_agrees.rule, Effect.bind_apply, ran]
    exact recordExchange_apply probe .answered handled
  · rw [after_journal]
    exact h.answers.handled signal
  · rw [after_journal]
    exact List.prefix_append _ _
  · rw [Machine.journal_recorded, handling_concat]
  · rw [Machine.channel_recorded, Channel.isSubscribed,
      agrees.account.busy_of_handling handled_busy]

/-- The loop that hands signals over does so if its next turn does. -/
theorem Engine.HandsOver.deliverAll (hands : engine.HandsOver ref probe answer)
    (h : m.Conversing ref probe answer) (free : handling (m.journal probe) = false)
    (subscribed : (m.channel ref).isSubscribed) :
    Continues m ref probe answer (deliverAll engine ref m) := by
  obtain ⟨listener, busy, attached⟩ := Channel.exists_listener subscribed
  obtain ⟨rfl, _⟩ := h.account.of_listening attached
  -- Nothing waits and the probe is set free, or the next signal is handled before another turn.
  rw [deliverAll_apply]
  cases waiting : (m.channel ref).backlog with
  | nil =>
    have nothing : (m.channel ref).take? = none := by
      simp [Channel.take?, attached, waiting]
    have released : (m.channel ref).release =
        { m.channel ref with attachment := .listening (.probe probe) false } := by
      simp [Channel.release, attached]
    rw [nothing]
    refine ⟨⟨⟨h.tied, h.rule, ?_⟩, h.answers⟩, List.prefix_rfl, fun _ => ⟨free, ?_⟩⟩
    · rw [Machine.channel_setChannel, if_pos rfl]
      exact h.account.release free
    · intro listener busy attached'
      rw [Machine.channel_setChannel, if_pos rfl, released] at attached' ⊢
      cases attached'
      exact ⟨rfl, waiting⟩
  | cons signal rest =>
    have next : (m.channel ref).take? = some (.probe probe, signal, { m.channel ref with
        backlog := rest, attachment := .listening (.probe probe) true }) := by
      simp [Channel.take?, attached, waiting]
    obtain ⟨after, ran, conversing, longer, free', subscribed'⟩ :=
      deliverToProbe_converses engine h free attached waiting
    rw [next]
    dsimp only [deliverTo]
    rw [Effect.bind_apply, ran]
    exact (hands after conversing free' subscribed').of_longer longer

end Requests

/-- However much fuel there is and wherever it is interrupted, the loop hands signals over. -/
theorem Engine.handsOver_interrupted (host : Host) (stop : Machine → Bool) (fuel : Nat)
    (ref : Ref .channel) (probe : Ref .probe) (answer : List Exchange → List Request) :
    (Engine.interrupted host stop fuel).HandsOver ref probe answer := by
  induction fuel with
  | zero =>
    intro m h _ _
    exact ⟨h, List.prefix_rfl, fun ended => Bool.noConfusion ended⟩
  | succ fuel ih =>
    intro m h free subscribed
    change Continues m ref probe answer (unlessStopped stop (deliverAll _ ref) m)
    unfold unlessStopped
    split
    · exact ⟨h, List.prefix_rfl, fun ended => Bool.noConfusion ended⟩
    · exact ih.deliverAll h free subscribed

/-! ## Whole runs -/

/-- A new channel with a new probe on it that has not asked to listen. -/
def Machine.withProbe (m : Machine) (answer : List Exchange → List Request) : Machine :=
  (m.newChannel.2.newProbe m.newChannel.1 answer).2

theorem probe_withProbe (m : Machine) (answer : List Exchange → List Request) :
    (m.withProbe answer).probes.get m.probes.next = ⟨m.channels.next, answer, [], []⟩ :=
  (Arena.get_alloc ..).trans (if_pos rfl)

theorem channel_withProbe (m : Machine) (answer : List Exchange → List Request) :
    (m.withProbe answer).channel m.channels.next = .fresh :=
  (Arena.get_alloc ..).trans (if_pos rfl)

theorem journal_withProbe (m : Machine) (answer : List Exchange → List Request) :
    (m.withProbe answer).journal m.probes.next = [] := by
  rw [Machine.journal, probe_withProbe]

/-- A new probe agrees with its new channel. -/
theorem conversing_withProbe (m : Machine) (answer : List Exchange → List Request) :
    (m.withProbe answer).Conversing m.channels.next m.probes.next answer := by
  refine ⟨⟨by rw [probe_withProbe], by rw [probe_withProbe], ?_⟩, ?_⟩
  · rw [channel_withProbe, journal_withProbe]
    exact .fresh _
  · rw [journal_withProbe]
    intro earlier signal later split
    simp at split

/-- Nothing was written to a new channel, and nobody listens to it. -/
theorem atRest_withProbe (m : Machine) (answer : List Exchange → List Request) :
    (m.withProbe answer).AtRest m.channels.next m.probes.next := by
  refine ⟨by rw [journal_withProbe]; rfl, fun attached => ?_⟩
  rw [channel_withProbe] at attached
  cases attached

/-- A new channel is asked for anything, and its probe answers each signal by any requests to the
same channel. Whether that has ended or is interrupted, what was handed over and what waits is
what was accepted, in order; each signal was handed over in its turn, when no other was being
handled, and was answered before the next; nothing follows a terminal signal; and whoever asked to
listen when somebody had was refused, which changes nothing. An answer cut short is an answer too,
so all this holds in the middle of answering as well. If it has ended, all that was asked for was
written, no signal is being handled, and none waits if anybody listens. -/
theorem fulfilAll_delivers (host : Host) (stop : Machine → Bool) (fuel : Nat) (m : Machine)
    (answer : List Exchange → List Request) (requests : List Request) {ended : Option Unit}
    {m' : Machine}
    (ran : fulfilAll (.interrupted host stop fuel) m.probes.next requests (m.withProbe answer) =
      (ended, m')) :
    let journal := m'.journal m.probes.next
    let channel := m'.channel m.channels.next
    handedOver journal ++ channel.backlog = accepted (offered journal) ∧
    InTurn journal ∧
    Answers answer journal ∧
    (∀ before signal after, handedOver journal ++ channel.backlog = before ++ signal :: after →
      signal.isTerminal → after = []) ∧
    RefusedAgain journal ∧
    (channel.isSubscribed ↔ .listened ∈ journal) ∧
    (∀ (other : Machine) (listener : Listener), (other.channel m.channels.next).isSubscribed →
      subscribe (.interrupted host stop fuel) m.channels.next listener other =
        (some (.error .alreadySubscribed), other)) ∧
    (ended.isSome →
      (written requests).Sublist (offered journal) ∧ handling journal = false ∧
        (channel.isSubscribed → channel.isIdle ∧ channel.backlog = [])) := by
  intro journal channel
  have hands := Engine.handsOver_interrupted host stop fuel m.channels.next m.probes.next answer
  have run := fulfilAll_atRest hands (conversing_withProbe m answer) (atRest_withProbe m answer)
    requests
  rw [ran] at run
  obtain ⟨continues, wrote⟩ := run
  -- What holds wherever it stops is said by the account of the journal; the rest holds at rest.
  have account : Account m.probes.next channel journal := continues.conversing.account
  refine ⟨account.balanced, account.inTurn, continues.conversing.answers, ?_,
    account.refusedAgain, account.isSubscribed_iff, ?_, fun done => ⟨?_, ?_, ?_⟩⟩
  · intro before signal after split terminal
    rw [account.balanced] at split
    exact accepted_terminal_last split terminal
  · intro other listener subscribed
    exact subscribe_of_isSubscribed _ listener subscribed
  · exact (List.sublist_append_right _ _).trans (wrote done)
  · exact (continues.atRest done).free
  · intro subscribed
    obtain ⟨listener, busy, attached⟩ := Channel.exists_listener subscribed
    obtain ⟨rfl, empty⟩ := (continues.atRest done).idle attached
    exact ⟨by rw [Channel.isIdle, attached], empty⟩

/-- One value waits for the probe, which answers it by another value and the end, and the end by a
value that comes too late. -/
theorem fulfilAll_delivers_answers :
    let m := Machine.ofConfig .standard
    let answer := fun journal : List Exchange =>
      if journal.length = 3 then [.send (.next (.bool true)), .send .complete]
      else [.send (.next .none), .listen]
    let run := fulfilAll (.interrupted .none (fun _ => false) 9) m.probes.next
      [.send (.next .none), .listen, .listen] (m.withProbe answer)
    run.1.isSome ∧ (handedOver (run.2.journal m.probes.next)).length = 3 ∧
      (run.2.channel m.channels.next).backlog = [] := by
  intro m answer run
  have ran : run.1.isSome ∧ (handedOver (run.2.journal m.probes.next)).length = 3 ∧
      (run.2.channel m.channels.next).isSubscribed := by decide +kernel
  obtain ⟨ended, three, subscribed⟩ := ran
  obtain ⟨_, _, _, _, _, _, _, atRest⟩ :=
    fulfilAll_delivers .none (fun _ => false) 9 m answer _ (Prod.eta run).symm
  exact ⟨ended, three, ((atRest ended).2.2 subscribed).2⟩

end Wordstream
