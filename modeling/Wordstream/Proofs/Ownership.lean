import Wordstream.Proofs.Soundness

/-!
# Who holds a suspension

A suspension is resumed once, and a channel has one listener. That no program is ever refused for
one of these reasons is a matter of ownership: at every moment there is one place from which a
suspension will be resumed. A new one is in the hands of the computation that has made it; one
that was piped belongs to the pipe, and when that is resumed, to its task. In the same way a
channel that has no listener yet is promised to the one who will listen.

None of this is kept by a machine. It is a reading of its state, by which suspensions have roles
and channels have duties; every step of evaluation and of driving tasks comes with the step of the
roles.

## Main results

* `Roles.Fit.suspend`, `Roles.Fit.start`, `Roles.Fit.link`, `Roles.Fit.join`, `Roles.Fit.listen`,
  `Roles.Fit.finish` — the steps of the roles
-/

namespace Wordstream

/-! ## Roles -/

/-- Who has taken suspensions over: a pipe, or the task of one. -/
inductive Holder where
  | suspension (ref : Ref .suspension)
  | task (ref : Ref .task)
  deriving DecidableEq

/-- The role of a suspension. -/
inductive Role where
  /-- A computation has it in hand. -/
  | loose
  /-- It is the left or the right side of a pipe. -/
  | ward (holder : Holder) (left : Bool)
  /-- Its output is being linked to the relay of a new pipe. -/
  | joined
  /-- It was resumed, or is none at all. -/
  | spent

/-- What a channel without a listener is there for. -/
inductive Duty where
  | none
  /-- To be the output of a suspension that is in hand. -/
  | output (ref : Ref .suspension)
  /-- To be the relay of a pipe. -/
  | relay (holder : Holder)
  /-- To be the relay of a new pipe. -/
  | linking
  /-- To be the input of a task. -/
  | input (task : Ref .task)

/-- The roles of suspensions, the duties of channels, and the tasks that are just being started,
whose claims are void. -/
structure Roles where
  suspension : Ref .suspension → Role
  channel : Ref .channel → Duty
  past : Ref .task → Prop

namespace Machine

/-- Who holds work that is to be started later. -/
inductive Holds (m : Machine) : Holder → Work → Prop
  | suspension {ref : Ref .suspension} {work : Work} (created : (m.suspension ref).phase = .created)
      (pending : (m.suspension ref).work = some work) : Holds m (.suspension ref) work
  | task {ref : Ref .task} {work : Work} {input : Option (Ref .channel)}
      (ready : (m.task ref).progress = .ready work input) : Holds m (.task ref) work

end Machine

namespace Roles

/-- The claims of a task that is being started are void. -/
def Current (roles : Roles) : Holder → Prop
  | .suspension _ => True
  | .task ref => ¬ roles.past ref

/-- A suspension has one role and a channel one duty, and a machine respects them. -/
structure Fit (roles : Roles) (m : Machine) : Prop where
  spent (ref : Ref .suspension) :
    roles.suspension ref = .spent ↔ (m.suspension ref).phase ≠ .created
  pending {ref : Ref .suspension} (created : (m.suspension ref).phase = .created) :
    (m.suspension ref).work.isSome
  output {ref : Ref .suspension} (loose : roles.suspension ref = .loose) :
    roles.channel (m.suspension ref).out = .output ref
  free {ref : Ref .channel} (engaged : roles.channel ref ≠ .none) :
    m.channels.Has ref ∧ (m.channel ref).attachment = .buffering
  pipe {holder : Holder} {left right : Ref .suspension} {relay : Ref .channel}
    (holds : m.Holds holder (.pipe left right relay)) (current : roles.Current holder) :
    roles.suspension left = .ward holder true ∧ roles.suspension right = .ward holder false ∧
      roles.channel relay = .relay holder
  input {task : Ref .task} {work : Work} {channel : Ref .channel}
    (ready : (m.task task).progress = .ready work (some channel)) (current : ¬ roles.past task) :
    roles.channel channel = .input task

/-- What is left alone meanwhile: suspensions that somebody has in hand are not touched, and no
other task has begun to be started. -/
structure Keeps (roles : Roles) (m : Machine) (roles' : Roles) (m' : Machine) : Prop where
  loose {ref : Ref .suspension} (loose : roles.suspension ref = .loose) :
    roles'.suspension ref = .loose ∧ m'.suspension ref = m.suspension ref
  joined {ref : Ref .suspension} (joined : roles.suspension ref = .joined) :
    roles'.suspension ref = .joined
  linking {ref : Ref .channel} (linking : roles.channel ref = .linking) :
    roles'.channel ref = .linking
  past {task : Ref .task} (past : roles'.past task) : roles.past task
  task {task : Ref .task} (has : m.tasks.Has task) : m'.tasks.Has task

/-- The roles with that of a suspension changed. -/
def setSuspension (roles : Roles) (ref : Ref .suspension) (role : Role) : Roles :=
  { roles with suspension := fun other => if other = ref then role else roles.suspension other }

/-- The roles with the duty of a channel changed. -/
def setChannel (roles : Roles) (ref : Ref .channel) (duty : Duty) : Roles :=
  { roles with channel := fun other => if other = ref then duty else roles.channel other }

/-- The roles when the output of a suspension is about to be linked to a new relay. -/
def link (roles : Roles) (left : Ref .suspension) (out relay : Ref .channel) : Roles :=
  ((roles.setChannel relay .linking).setSuspension left .joined).setChannel out .none

/-- The roles when two suspensions are taken over by a new pipe, which has the output of the right
one. -/
def join (roles : Roles) (left right piped : Ref .suspension) (out relay : Ref .channel) : Roles :=
  (((roles.setChannel relay (.relay (.suspension piped))).setSuspension right
    (.ward (.suspension piped) false)).setSuspension left
      (.ward (.suspension piped) true)).setChannel out (.output piped)

/-- The roles when one holder takes over what another has held. -/
def handOver (roles : Roles) (holder heir : Holder) : Roles :=
  { roles with
    suspension := fun ref => match roles.suspension ref with
      | .ward other left => if other = holder then .ward heir left else .ward other left
      | role => role
    channel := fun ref => match roles.channel ref with
      | .relay other => if other = holder then .relay heir else .relay other
      | duty => duty }

/-- The roles when a suspension is resumed: its task is promised the input, if there is one, and
takes over what the suspension has held. -/
def resume (roles : Roles) (ref : Ref .suspension) (task : Ref .task) :
    Option (Ref .channel) → Roles
  | none => (roles.handOver (.suspension ref) (.task task)).setSuspension ref .spent
  | some channel => ((roles.setChannel channel (.input task)).handOver (.suspension ref)
      (.task task)).setSuspension ref .spent

/-- The roles while a task is being started. -/
def starting (roles : Roles) (task : Ref .task) : Roles :=
  { roles with past := fun other => other = task ∨ roles.past other }

/-- The roles when a task has been started. -/
def started (roles : Roles) (task : Ref .task) : Roles :=
  { roles with past := fun other => other ≠ task ∧ roles.past other }

section Parts

variable (roles : Roles)

@[simp, grind =]
theorem suspension_setSuspension (ref other : Ref .suspension) (role : Role) :
    (roles.setSuspension ref role).suspension other =
      if other = ref then role else roles.suspension other := rfl

@[simp, grind =]
theorem channel_setSuspension (ref : Ref .suspension) (role : Role) :
    (roles.setSuspension ref role).channel = roles.channel := rfl

@[simp, grind =]
theorem past_setSuspension (ref : Ref .suspension) (role : Role) :
    (roles.setSuspension ref role).past = roles.past := rfl

@[simp, grind =]
theorem channel_setChannel (ref other : Ref .channel) (duty : Duty) :
    (roles.setChannel ref duty).channel other =
      if other = ref then duty else roles.channel other := rfl

@[simp, grind =]
theorem suspension_setChannel (ref : Ref .channel) (duty : Duty) :
    (roles.setChannel ref duty).suspension = roles.suspension := rfl

@[simp, grind =]
theorem past_setChannel (ref : Ref .channel) (duty : Duty) :
    (roles.setChannel ref duty).past = roles.past := rfl

end Parts

section HandOver

variable {roles : Roles} {holder heir : Holder}

theorem loose_handOver {ref : Ref .suspension} :
    (roles.handOver holder heir).suspension ref = .loose ↔ roles.suspension ref = .loose := by
  grind [handOver]

theorem joined_handOver {ref : Ref .suspension} :
    (roles.handOver holder heir).suspension ref = .joined ↔ roles.suspension ref = .joined := by
  grind [handOver]

theorem spent_handOver {ref : Ref .suspension} :
    (roles.handOver holder heir).suspension ref = .spent ↔ roles.suspension ref = .spent := by
  grind [handOver]

theorem ward_handOver {ref : Ref .suspension} {other : Holder} {left : Bool}
    (ward : roles.suspension ref = .ward other left) :
    (roles.handOver holder heir).suspension ref =
      .ward (if other = holder then heir else other) left := by
  grind [handOver]

theorem relay_handOver {ref : Ref .channel} {other : Holder}
    (relay : roles.channel ref = .relay other) :
    (roles.handOver holder heir).channel ref = .relay (if other = holder then heir else other) := by
  grind [handOver]

/-- Only the duties of relays change. -/
theorem channel_handOver {ref : Ref .channel} {duty : Duty} (same : roles.channel ref = duty)
    (other : ∀ holder, duty ≠ .relay holder) :
    (roles.handOver holder heir).channel ref = duty := by
  grind [handOver]

/-- A task keeps what it has held when another suspension is resumed. -/
theorem ward_resume {ref other : Ref .suspension} {task holder : Ref .task} {left : Bool}
    (input : Option (Ref .channel)) (ward : roles.suspension other = .ward (.task holder) left)
    (apart : other ≠ ref) :
    (roles.resume ref task input).suspension other = .ward (.task holder) left := by
  cases input with
  | none => exact (if_neg apart).trans ((ward_handOver ward).trans (by rw [if_neg nofun]))
  | some channel =>
    have ward : (roles.setChannel channel (.input task)).suspension other =
        .ward (.task holder) left :=
      ward
    exact (if_neg apart).trans ((ward_handOver ward).trans (by rw [if_neg nofun]))

theorem relay_resume {ref : Ref .suspension} {relay : Ref .channel} {task holder : Ref .task}
    {input : Option (Ref .channel)} (relayed : roles.channel relay = .relay (.task holder))
    (apart : input ≠ some relay) :
    (roles.resume ref task input).channel relay = .relay (.task holder) := by
  cases input with
  | none => exact (relay_handOver relayed).trans (by rw [if_neg nofun])
  | some channel =>
    have relayed : (roles.setChannel channel (.input task)).channel relay = .relay (.task holder) :=
      (if_neg fun same => apart (congrArg some same.symm)).trans relayed
    exact (relay_handOver relayed).trans (by rw [if_neg nofun])

theorem past_resume (roles : Roles) (ref : Ref .suspension) (task : Ref .task)
    (input : Option (Ref .channel)) : (roles.resume ref task input).past = roles.past := by
  cases input <;> rfl

end HandOver

/-- Nobody but who has a suspension in hand counts on it. -/
def Vacant (roles : Roles) : Role → Prop
  | .loose | .joined => True
  | .ward holder _ => ¬ roles.Current holder
  | .spent => False

/-- Nobody counts on what a channel is there for. -/
def Void (roles : Roles) : Duty → Prop
  | .none | .linking => True
  | .output ref => roles.suspension ref ≠ .loose
  | .relay holder => ¬ roles.Current holder
  | .input task => roles.past task

/-! ## Steps -/

namespace Fit

variable {roles : Roles} {m m' : Machine}

/-- A suspension that is in hand or held is new. -/
theorem created (fit : roles.Fit m) {ref : Ref .suspension} (held : roles.suspension ref ≠ .spent) :
    (m.suspension ref).phase = .created :=
  Decidable.not_not.1 fun started => held ((fit.spent ref).2 started)

/-- There is no suspension yet where the next one will be. -/
theorem spent_next (fit : roles.Fit m) : roles.suspension m.suspensions.next = .spent :=
  (fit.spent _).2 fun created => (Machine.has_of_created created).ne_next rfl

/-- There is no channel yet where the next one will be. -/
theorem idle_next (fit : roles.Fit m) : roles.channel m.channels.next = .none :=
  Classical.byContradiction fun engaged => (fit.free engaged).1.ne_next rfl

/-- Nothing is done but to channels that have a listener or no duty. -/
theorem rewire (fit : roles.Fit m) (suspensions : m'.suspensions = m.suspensions)
    (tasks : m'.tasks = m.tasks)
    (free : ∀ ref, roles.channel ref ≠ .none → m.channels.Has ref →
      (m.channel ref).attachment = .buffering →
      m'.channels.Has ref ∧ (m'.channel ref).attachment = .buffering) : roles.Fit m' where
  spent ref := by simpa only [Machine.suspension, suspensions] using fit.spent ref
  pending created := by
    rw [Machine.suspension, suspensions] at created ⊢
    exact fit.pending created
  output loose := by
    rw [Machine.suspension, suspensions]
    exact fit.output loose
  free engaged := free _ engaged (fit.free engaged).1 (fit.free engaged).2
  pipe holds current := by
    refine fit.pipe ?_ current
    cases holds with
    | suspension created pending =>
      rw [Machine.suspension, suspensions] at created pending
      exact .suspension created pending
    | task ready =>
      rw [Machine.task, tasks] at ready
      exact .task ready
  input ready current := by
    rw [Machine.task, tasks] at ready
    exact fit.input ready current

/-- Nothing is done to what roles are about. -/
theorem aside (fit : roles.Fit m) (plumbing : m'.plumbing = m.plumbing) : roles.Fit m' := by
  have channels : m'.channels = m.channels := congrArg Machine.Plumbing.channels plumbing
  refine fit.rewire (congrArg Machine.Plumbing.suspensions plumbing)
    (congrArg Machine.Plumbing.tasks plumbing) fun ref _ has buffering => ?_
  rw [Machine.channel, channels]
  exact ⟨has, buffering⟩

/-- A channel on which nobody counts can be given another duty. -/
theorem reassign (fit : roles.Fit m) (ref : Ref .channel) (duty : Duty)
    (void : roles.Void (roles.channel ref))
    (free : duty ≠ .none → m.channels.Has ref ∧ (m.channel ref).attachment = .buffering) :
    (roles.setChannel ref duty).Fit m where
  spent := fit.spent
  pending := fit.pending
  output {other} loose := by
    have output := fit.output loose
    rw [channel_setChannel, if_neg]
    · exact output
    · -- The output of a loose suspension is counted on, so its duty is not void.
      rintro rfl
      rw [output] at void
      exact void loose
  free {other} engaged := by
    rw [channel_setChannel] at engaged
    split at engaged
    · next same => exact same ▸ free engaged
    · exact fit.free engaged
  pipe holds current := by
    obtain ⟨left, right, relay⟩ := fit.pipe holds current
    refine ⟨left, right, ?_⟩
    rw [channel_setChannel, if_neg]
    · exact relay
    · rintro rfl
      rw [relay] at void
      exact void current
  input ready current := by
    have input := fit.input ready current
    rw [channel_setChannel, if_neg]
    · exact input
    · rintro rfl
      rw [input] at void
      exact current void

/-- A suspension on which nobody counts can be given another role. -/
theorem recast (fit : roles.Fit m) (ref : Ref .suspension) (role : Role)
    (vacant : roles.Vacant (roles.suspension ref)) (new : role ≠ .spent) (held : role ≠ .loose) :
    (roles.setSuspension ref role).Fit m where
  spent other := by
    rw [suspension_setSuspension]
    split
    · next same =>
      subst same
      refine iff_of_false new fun started => ?_
      rw [(fit.spent other).2 started] at vacant
      exact vacant
    · exact fit.spent other
  pending := fit.pending
  output {other} loose := by
    rw [suspension_setSuspension] at loose
    split at loose
    · exact absurd loose held
    · exact fit.output loose
  free := fit.free
  pipe {holder left right relay} holds current := by
    obtain ⟨first, second, relay⟩ := fit.pipe holds current
    have apart {other : Ref .suspension} {side : Bool}
        (ward : roles.suspension other = .ward holder side) : other ≠ ref := by
      rintro rfl
      rw [ward] at vacant
      exact vacant current
    rw [suspension_setSuspension, suspension_setSuspension, if_neg (apart first),
      if_neg (apart second)]
    exact ⟨first, second, relay⟩
  input := fit.input

/-- A new suspension is in hand. -/
theorem enrol (fit : roles.Fit m) {work : Work} {out : Ref .channel} {acceptsInput : Bool}
    {mime : Option String} (output : roles.channel out = .output m.suspensions.next)
    (pipe : ∀ left right relay, work = .pipe left right relay →
      roles.suspension left = .ward (.suspension m.suspensions.next) true ∧
      roles.suspension right = .ward (.suspension m.suspensions.next) false ∧
      roles.channel relay = .relay (.suspension m.suspensions.next)) :
    (roles.setSuspension m.suspensions.next .loose).Fit
      (m.newSuspension ⟨.created, some work, out, acceptsInput, mime⟩).2 := by
  have suspension (ref : Ref .suspension) :
      (m.newSuspension ⟨.created, some work, out, acceptsInput, mime⟩).2.suspension ref =
        if ref = m.suspensions.next then ⟨.created, some work, out, acceptsInput, mime⟩
        else m.suspension ref := Arena.get_alloc ..
  have next {holder : Holder} {side : Bool} {ref : Ref .suspension}
      (ward : roles.suspension ref = .ward holder side) : ref ≠ m.suspensions.next := by
    rintro rfl
    rw [fit.spent_next] at ward
    cases ward
  refine { spent := ?spent, pending := ?pending, output := ?output, free := fit.free, pipe := ?pipe,
           input := fit.input }
  case spent =>
    intro ref
    rw [suspension_setSuspension, suspension]
    split
    · exact iff_of_false nofun fun started => started rfl
    · exact fit.spent ref
  case pending =>
    intro ref created
    rw [suspension] at created ⊢
    split
    · rfl
    · next old =>
      rw [if_neg old] at created
      exact fit.pending created
  case output =>
    intro ref loose
    rw [suspension_setSuspension] at loose
    rw [channel_setSuspension, suspension]
    split
    · next same => exact same ▸ output
    · next old =>
      rw [if_neg old] at loose
      exact fit.output loose
  case pipe =>
    intro holder left right relay holds current
    -- The new suspension has its sides by assumption; no other pipe can count on the new one.
    have wards : roles.suspension left = .ward holder true ∧
        roles.suspension right = .ward holder false ∧ roles.channel relay = .relay holder := by
      cases holds with
      | @suspension ref _ created pending =>
        rw [suspension] at created pending
        split at pending
        · next same =>
          subst same
          exact pipe left right relay (Option.some.inj pending)
        · next old =>
          rw [if_neg old] at created
          exact fit.pipe (.suspension created pending) current
      | task ready => exact fit.pipe (.task ready) current
    rw [suspension_setSuspension, suspension_setSuspension, if_neg (next wards.1),
      if_neg (next wards.2.1)]
    exact wards

/-- What a suspension has held goes to its task, which was promised its input. -/
theorem start (fit : roles.Fit m) {ref : Ref .suspension} {work : Work}
    {input : Option (Ref .channel)} (vacant : roles.Vacant (roles.suspension ref))
    (pending : (m.suspension ref).work = some work)
    (fed : ∀ channel, input = some channel → roles.channel channel = .input m.tasks.next) :
    ((roles.handOver (.suspension ref) (.task m.tasks.next)).setSuspension ref .spent).Fit
      (m.startTask ref work input).2 := by
  have created : (m.suspension ref).phase = .created := by
    refine fit.created fun spent => ?_
    rw [spent] at vacant
    exact vacant
  have suspension (other : Ref .suspension) : (m.startTask ref work input).2.suspension other =
      if other = ref then { m.suspension ref with phase := .resuming, work := none }
      else m.suspension other := Arena.get_set ..
  have task (other : Ref .task) : (m.startTask ref work input).2.task other =
      if other = m.tasks.next then ⟨ref, (m.suspension ref).out, .ready work input, ⟨work, input⟩⟩
      else m.task other := Arena.get_alloc ..
  have apart {holder : Holder} {side : Bool} {other : Ref .suspension}
      (ward : roles.suspension other = .ward holder side) (current : roles.Current holder) :
      other ≠ ref := by
    rintro rfl
    rw [ward] at vacant
    exact vacant current
  refine { spent := ?spent, pending := ?pending, output := ?output, free := ?free, pipe := ?pipe,
           input := ?input }
  case spent =>
    intro other
    rw [suspension_setSuspension, suspension]
    split
    · exact iff_of_true rfl nofun
    · rw [← fit.spent other, spent_handOver]
  case pending =>
    intro other new
    rw [suspension] at new ⊢
    split at new
    · cases new
    · next old =>
      rw [if_neg old]
      exact fit.pending new
  case output =>
    intro other loose
    rw [suspension_setSuspension] at loose
    rw [suspension]
    split at loose
    · cases loose
    · next old =>
      rw [if_neg old, channel_setSuspension]
      exact channel_handOver (fit.output (loose_handOver.1 loose)) nofun
  case free =>
    intro other engaged
    refine fit.free fun idle => engaged ?_
    rw [channel_setSuspension]
    exact channel_handOver idle nofun
  case pipe =>
    intro holder left right relay holds current
    have moved {holder heir : Holder} (first : roles.suspension left = .ward holder true)
        (second : roles.suspension right = .ward holder false) (relayed : roles.channel relay =
          .relay holder)
        (current : roles.Current holder)
        (same : (if holder = .suspension ref then .task m.tasks.next else holder) = heir) :
        ((roles.handOver (.suspension ref) (.task m.tasks.next)).setSuspension ref
            .spent).suspension left = .ward heir true ∧
          ((roles.handOver (.suspension ref) (.task m.tasks.next)).setSuspension ref
            .spent).suspension right = .ward heir false ∧
          (roles.handOver (.suspension ref) (.task m.tasks.next)).channel relay = .relay heir := by
      rw [suspension_setSuspension, suspension_setSuspension, if_neg (apart first current),
        if_neg (apart second current), ← same]
      exact ⟨ward_handOver first, ward_handOver second, relay_handOver relayed⟩
    cases holds with
    | @suspension other _ new pending =>
      rw [suspension] at new pending
      split at new
      · cases new
      · next old =>
        rw [if_neg old] at pending
        obtain ⟨first, second, relayed⟩ := fit.pipe (.suspension new pending) current
        exact moved first second relayed current
          (if_neg fun same => old (Holder.suspension.inj same))
    | @task other _ _ ready =>
      rw [task] at ready
      split at ready
      · next same =>
        -- The new task has the work of the suspension, and is its heir.
        cases ready
        obtain ⟨first, second, relayed⟩ := fit.pipe (.suspension created pending) trivial
        exact moved first second relayed trivial (by rw [if_pos rfl, same])
      · obtain ⟨first, second, relayed⟩ := fit.pipe (.task ready) current
        exact moved first second relayed current (if_neg nofun)
  case input =>
    intro other _ channel ready current
    rw [task] at ready
    rw [channel_setSuspension]
    split at ready
    · next same =>
      cases ready
      rw [same]
      exact channel_handOver (fed channel rfl) nofun
    · exact channel_handOver (fit.input ready current) nofun

/-- A suspension on which nobody counts is resumed, with an input on which nobody counts. -/
theorem resume (fit : roles.Fit m) {ref : Ref .suspension} {work : Work}
    {input : Option (Ref .channel)} (vacant : roles.Vacant (roles.suspension ref))
    (pending : (m.suspension ref).work = some work)
    (void : ∀ channel, input = some channel →
      roles.Void (roles.channel channel) ∧ roles.channel channel ≠ .none) :
    (roles.resume ref m.tasks.next input).Fit (m.startTask ref work input).2 := by
  cases input with
  | none => exact fit.start vacant pending fun _ fed => by cases fed
  | some channel =>
    obtain ⟨void, engaged⟩ := void channel rfl
    have fed := fit.reassign channel (.input m.tasks.next) void fun _ => fit.free engaged
    exact fed.start vacant pending fun _ same => by
      cases same
      exact if_pos rfl

/-- Nobody counts on a new channel. -/
theorem newChannel (fit : roles.Fit m) : roles.Fit m.newChannel.2 := by
  refine fit.rewire rfl rfl fun ref _ has buffering => ⟨has.alloc _, ?_⟩
  change ((m.channels.alloc .fresh).get ref).attachment = _
  rw [Arena.get_alloc, if_neg has.ne_next]
  exact buffering

/-- A channel that nobody has a use for can be given any duty as soon as it is there. -/
theorem engage (fit : roles.Fit m) (duty : Duty) :
    (roles.setChannel m.channels.next duty).Fit m.newChannel.2 := by
  refine fit.newChannel.reassign _ _ (fit.idle_next ▸ trivial) fun _ =>
    ⟨Arena.has_alloc_next .., ?_⟩
  change ((m.channels.alloc .fresh).get m.channels.next).attachment = _
  rw [Arena.get_alloc, if_pos rfl]
  rfl

/-- A new suspension with an output of its own is in hand. -/
theorem suspend (fit : roles.Fit m) {work : Work} (free : work.IsFree) (acceptsInput : Bool)
    (mime : Option String) :
    ((roles.setChannel m.channels.next (.output m.suspensions.next)).setSuspension
      m.suspensions.next .loose).Fit
      (m.newChannel.2.newSuspension
        ⟨.created, some work, m.channels.next, acceptsInput, mime⟩).2 := by
  refine (fit.engage (.output m.suspensions.next)).enrol (if_pos rfl) fun _ _ _ same => ?_
  cases same
  cases free

/-- The output of a suspension in hand is about to be linked to a new relay. -/
theorem link (fit : roles.Fit m) {left : Ref .suspension} (loose : roles.suspension left = .loose) :
    (roles.link left (m.suspension left).out m.channels.next).Fit m.newChannel.2 := by
  have output := fit.output loose
  have apart : (m.suspension left).out ≠ m.channels.next := by
    intro same
    rw [same, fit.idle_next] at output
    cases output
  have parted := (fit.engage .linking).recast left .joined (loose ▸ trivial) nofun nofun
  refine parted.reassign _ .none ?_ (absurd rfl)
  rw [channel_setSuspension, channel_setChannel, if_neg apart, output]
  change (if left = left then Role.joined else roles.suspension left) ≠ .loose
  rw [if_pos rfl]
  nofun

/-- Two suspensions, the output of the left one being linked to a relay, become a pipe. -/
theorem join (fit : roles.Fit m) {left right : Ref .suspension} {relay : Ref .channel}
    (joined : roles.suspension left = .joined) (loose : roles.suspension right = .loose)
    (linking : roles.channel relay = .linking) (acceptsInput : Bool) (mime : Option String) :
    ((roles.join left right m.suspensions.next (m.suspension right).out relay).setSuspension
      m.suspensions.next .loose).Fit
      (m.newSuspension ⟨.created, some (.pipe left right relay), (m.suspension right).out,
        acceptsInput, mime⟩).2 := by
  have output := fit.output loose
  have apart : (m.suspension right).out ≠ relay := by
    rintro rfl
    rw [linking] at output
    cases output
  have sides : left ≠ right := by
    rintro rfl
    rw [joined] at loose
    cases loose
  -- The relay, the right side, the left side and the output change hands one after the other.
  have relayed := fit.reassign relay (.relay (.suspension m.suspensions.next)) (linking ▸ trivial)
    fun _ => fit.free (by rw [linking]; nofun)
  have second := relayed.recast right (.ward (.suspension m.suspensions.next) false)
    (loose ▸ trivial) nofun nofun
  have first := second.recast left (.ward (.suspension m.suspensions.next) true)
    (by rw [suspension_setSuspension, if_neg sides, suspension_setChannel, joined]; trivial)
    nofun nofun
  have renamed :
      (roles.join left right m.suspensions.next (m.suspension right).out relay).Fit m := by
    refine first.reassign _ _ ?_ fun _ => fit.free (by rw [output]; nofun)
    rw [channel_setSuspension, channel_setSuspension, channel_setChannel, if_neg apart, output]
    change (if right = left then _ else if right = right then _ else _) ≠ Role.loose
    rw [if_neg sides.symm, if_pos rfl]
    nofun
  refine renamed.enrol (if_pos rfl) fun _ _ _ same => ?_
  cases same
  exact ⟨if_pos rfl, (if_neg sides.symm).trans (if_pos rfl), (if_neg apart.symm).trans (if_pos rfl)⟩

/-- The claims of a task that is being started count no more. -/
theorem starting (fit : roles.Fit m) (task : Ref .task) : (roles.starting task).Fit m where
  spent := fit.spent
  pending := fit.pending
  output := fit.output
  free := fit.free
  pipe {holder _ _ _} holds current := by
    refine fit.pipe holds ?_
    cases holder with
    | suspension => trivial
    | task => exact fun past => current (Or.inr past)
  input ready current := fit.input ready fun past => current (Or.inr past)

/-- A task that has been started goes on. -/
theorem proceed (fit : roles.Fit m) (task : Ref .task) {progress : Progress}
    (started : ∀ work input, progress ≠ .ready work input) :
    (roles.started task).Fit { m with
      tasks := m.tasks.set task { m.task task with progress := progress } } := by
  have cell (other : Ref .task) :
      (m.tasks.set task { m.task task with progress := progress }).get other =
        if other = task then { m.task task with progress := progress } else m.task other :=
    Arena.get_set ..
  have old {other : Ref .task} {work : Work} {input : Option (Ref .channel)}
      (ready : ((m.tasks.set task { m.task task with progress := progress }).get other).progress =
        .ready work input) : other ≠ task ∧ (m.task other).progress = .ready work input := by
    rw [cell] at ready
    split at ready
    · exact absurd ready (started work input)
    · next other => exact ⟨other, ready⟩
  refine ⟨fit.spent, fit.pending, fit.output, fit.free, fun {holder _ _ _} holds current => ?_,
    fun ready current => ?_⟩
  · cases holds with
    | suspension created pending => exact fit.pipe (.suspension created pending) trivial
    | task ready =>
      obtain ⟨other, ready⟩ := old ready
      exact fit.pipe (.task ready) fun past => current ⟨other, past⟩
  · obtain ⟨other, ready⟩ := old ready
    exact fit.input ready fun past => current ⟨other, past⟩

/-- What was resumed may end. -/
theorem conclude (fit : roles.Fit m) {ref : Ref .suspension} (spent : roles.suspension ref = .spent)
    {phase : Phase} (started : phase ≠ .created) :
    roles.Fit { m with
      suspensions := m.suspensions.set ref { m.suspension ref with phase := phase } } := by
  have cell (other : Ref .suspension) :
      (m.suspensions.set ref { m.suspension ref with phase := phase }).get other =
        if other = ref then { m.suspension ref with phase := phase } else m.suspension other :=
    Arena.get_set ..
  have old {other : Ref .suspension}
      (created : ((m.suspensions.set ref { m.suspension ref with phase := phase }).get
        other).phase = .created) :
      (m.suspensions.set ref { m.suspension ref with phase := phase }).get other =
        m.suspension other ∧ (m.suspension other).phase = .created := by
    rw [cell] at created ⊢
    split at created
    · exact absurd created started
    · next other => exact ⟨if_neg other, created⟩
  refine { spent := ?spent, pending := ?pending, output := ?output, free := fit.free, pipe := ?pipe,
           input := fit.input }
  case spent =>
    intro other
    change _ ↔ ((m.suspensions.set ref _).get other).phase ≠ _
    rw [cell]
    split
    · next same => exact iff_of_true (same ▸ spent) started
    · exact fit.spent other
  case pending =>
    intro other created
    obtain ⟨same, created⟩ := old created
    exact (congrArg (·.work.isSome) same).trans (fit.pending created)
  case output =>
    intro other loose
    -- What was resumed is in nobody's hands.
    have same : (m.suspensions.set ref { m.suspension ref with phase := phase }).get other =
        m.suspension other := by
      rw [cell, if_neg]
      rintro rfl
      rw [spent] at loose
      cases loose
    exact (congrArg (roles.channel ·.out) same).trans (fit.output loose)
  case pipe =>
    intro holder _ _ _ holds current
    cases holds with
    | suspension created pending =>
      obtain ⟨same, created⟩ := old created
      exact fit.pipe (.suspension created ((congrArg Suspension.work same).symm.trans pending))
        trivial
    | task ready => exact fit.pipe (.task ready) current

end Fit

namespace Keeps

variable {roles roles' roles'' : Roles} {m m' m'' : Machine}

theorem refl (roles : Roles) (m : Machine) : roles.Keeps m roles m where
  loose loose := ⟨loose, rfl⟩
  joined joined := joined
  linking linking := linking
  past past := past
  task has := has

theorem trans (first : roles.Keeps m roles' m') (second : roles'.Keeps m' roles'' m'') :
    roles.Keeps m roles'' m'' where
  loose loose := by
    obtain ⟨loose, same⟩ := first.loose loose
    obtain ⟨loose, same'⟩ := second.loose loose
    exact ⟨loose, same'.trans same⟩
  joined joined := second.joined (first.joined joined)
  linking linking := second.linking (first.linking linking)
  past past := first.past (second.past past)
  task has := second.task (first.task has)

section Steps

variable (keeps : roles.Keeps m roles' m')

include keeps

theorem rewire (suspensions : m''.suspensions = m'.suspensions) (tasks : m''.tasks = m'.tasks) :
    roles.Keeps m roles' m'' where
  loose loose := by
    rw [Machine.suspension, suspensions]
    exact keeps.loose loose
  joined := keeps.joined
  linking := keeps.linking
  past := keeps.past
  task has := by
    rw [tasks]
    exact keeps.task has

theorem aside (plumbing : m''.plumbing = m'.plumbing) : roles.Keeps m roles' m'' :=
  keeps.rewire (congrArg Machine.Plumbing.suspensions plumbing)
    (congrArg Machine.Plumbing.tasks plumbing)

theorem reassign {ref : Ref .channel} (apart : roles.channel ref ≠ .linking) (duty : Duty) :
    roles.Keeps m (roles'.setChannel ref duty) m' where
  loose := keeps.loose
  joined := keeps.joined
  linking {other} linking := by
    rw [channel_setChannel, if_neg]
    · exact keeps.linking linking
    · rintro rfl
      exact apart linking
  past := keeps.past
  task := keeps.task

theorem recast {ref : Ref .suspension} (unheld : roles.suspension ref ≠ .loose)
    (unjoined : roles.suspension ref ≠ .joined) (role : Role) :
    roles.Keeps m (roles'.setSuspension ref role) m' where
  loose {other} loose := by
    rw [suspension_setSuspension, if_neg]
    · exact keeps.loose loose
    · rintro rfl
      exact unheld loose
  joined {other} joined := by
    rw [suspension_setSuspension, if_neg]
    · exact keeps.joined joined
    · rintro rfl
      exact unjoined joined
  linking := keeps.linking
  past := keeps.past
  task := keeps.task

theorem newChannel (fit : roles'.Fit m') (duty : Duty) :
    roles.Keeps m (roles'.setChannel m'.channels.next duty) m'.newChannel.2 := by
  have made : roles.Keeps m roles' m'.newChannel.2 := keeps.rewire rfl rfl
  refine made.reassign (fun linking => ?_) duty
  have linking := keeps.linking linking
  rw [fit.idle_next] at linking
  cases linking

theorem link (fit : roles'.Fit m') {left : Ref .suspension}
    (loose : roles'.suspension left = .loose) (unheld : roles.suspension left ≠ .loose)
    (unjoined : roles.suspension left ≠ .joined) :
    roles.Keeps m (roles'.link left (m'.suspension left).out m'.channels.next) m'.newChannel.2 := by
  have out : roles.channel (m'.suspension left).out ≠ .linking := by
    intro linking
    have linking := keeps.linking linking
    rw [fit.output loose] at linking
    cases linking
  exact ((keeps.newChannel fit .linking).recast unheld unjoined _).reassign out _

theorem enrol (new : roles'.suspension m'.suspensions.next = .spent) (suspension : Suspension) :
    roles.Keeps m (roles'.setSuspension m'.suspensions.next .loose)
      (m'.newSuspension suspension).2 where
  loose {other} loose := by
    obtain ⟨loose, same⟩ := keeps.loose loose
    have old : other ≠ m'.suspensions.next := by
      rintro rfl
      rw [new] at loose
      cases loose
    rw [suspension_setSuspension, if_neg old]
    exact ⟨loose, (Arena.get_alloc ..).trans ((if_neg old).trans same)⟩
  joined {other} joined := by
    have joined := keeps.joined joined
    rw [suspension_setSuspension, if_neg]
    · exact joined
    · rintro rfl
      rw [new] at joined
      cases joined
  linking := keeps.linking
  past := keeps.past
  task := keeps.task

theorem join (fit : roles'.Fit m') {left right : Ref .suspension} {relay : Ref .channel}
    (joined : roles'.suspension left = .joined) (loose : roles'.suspension right = .loose)
    (unlinked : roles.channel relay ≠ .linking) (left_unheld : roles.suspension left ≠ .loose)
    (left_unjoined : roles.suspension left ≠ .joined)
    (right_unheld : roles.suspension right ≠ .loose)
    (right_unjoined : roles.suspension right ≠ .joined) (suspension : Suspension) :
    roles.Keeps m ((roles'.join left right m'.suspensions.next (m'.suspension right).out
      relay).setSuspension m'.suspensions.next .loose) (m'.newSuspension suspension).2 := by
  have out : roles.channel (m'.suspension right).out ≠ .linking := by
    intro linking
    have linking := keeps.linking linking
    rw [fit.output loose] at linking
    cases linking
  have old {ref : Ref .suspension} (held : roles'.suspension ref ≠ .spent) :
      m'.suspensions.next ≠ ref := by
    rintro rfl
    exact held fit.spent_next
  have new : (roles'.join left right m'.suspensions.next (m'.suspension right).out
      relay).suspension m'.suspensions.next = .spent :=
    (if_neg (old (by rw [joined]; nofun))).trans
      ((if_neg (old (by rw [loose]; nofun))).trans fit.spent_next)
  -- In the order in which they change hands.
  exact ((((keeps.reassign unlinked _).recast right_unheld right_unjoined _).recast left_unheld
    left_unjoined _).reassign out _).enrol new suspension

theorem start {ref : Ref .suspension} (unheld : roles.suspension ref ≠ .loose)
    (unjoined : roles.suspension ref ≠ .joined) (heir : Holder) (work : Work)
    (input : Option (Ref .channel)) :
    roles.Keeps m ((roles'.handOver (.suspension ref) heir).setSuspension ref .spent)
      (m'.startTask ref work input).2 where
  loose {other} loose := by
    have old : other ≠ ref := by
      rintro rfl
      exact unheld loose
    obtain ⟨loose, same⟩ := keeps.loose loose
    rw [suspension_setSuspension, if_neg old]
    exact ⟨loose_handOver.2 loose, (Arena.get_set ..).trans ((if_neg old).trans same)⟩
  joined {other} joined := by
    rw [suspension_setSuspension, if_neg]
    · exact joined_handOver.2 (keeps.joined joined)
    · rintro rfl
      exact unjoined joined
  linking linking := channel_handOver (keeps.linking linking) nofun
  past := keeps.past
  task has := (keeps.task has).alloc _

end Steps

end Keeps

end Roles

end Wordstream
