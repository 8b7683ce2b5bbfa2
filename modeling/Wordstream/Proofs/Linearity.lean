import Wordstream.Proofs.Vigilance

/-!
# Programs use suspensions linearly

A program on a machine that has the core library only never uses a suspension as a value, and
never uses one twice. Evaluation is careful already; here tasks are driven with the same care. A
task that is started gives up its claims: the sides of a pipe are resumed from it, and its input
gets a stage for a listener. So no task ever fails because something was resumed or listened to
before.

## Main results

* `Session.linear` — nothing that is stored, published or passed is ever a suspension, none is
  resumed twice, and nothing fails for that reason
-/

namespace Wordstream

namespace Machine

/-- A sound machine for which there are roles that fit, no task being about to start. -/
def Kempt (m : Machine) : Prop :=
  m.Sound ∧ ∃ roles : Roles, roles.Fit m ∧ ∀ task, ¬ roles.past task

variable {m m' : Machine}

/-- What is not about suspensions and tasks, and leaves listeners alone. -/
theorem Kempt.rewire (kempt : m.Kempt) (sound : m'.Sound)
    (suspensions : m'.suspensions = m.suspensions) (tasks : m'.tasks = m.tasks)
    (free : ∀ ref, m.channels.Has ref → m'.channels.Has ref ∧
      (m'.channel ref).attachment = (m.channel ref).attachment) : m'.Kempt := by
  obtain ⟨_, roles, fit, none⟩ := kempt
  refine ⟨sound, roles, fit.rewire suspensions tasks fun ref _ has buffering => ?_, none⟩
  exact ⟨(free ref has).1, (free ref has).2.trans buffering⟩

/-- A task that was about to start has started. -/
theorem Sound.proceed (sound : m.Sound) {roles : Roles} (fit : roles.Fit m) {ref : Ref .task}
    (only : ∀ task, roles.past task → task = ref) (has : m.tasks.Has ref) (progress : Progress)
    (started : ∀ work input, progress ≠ .ready work input)
    (writing : ∀ source, progress ≠ .writing source)
    (decent : ∀ result, progress = .finished result → Decent result) :
    Kempt { m with tasks := m.tasks.set ref { m.task ref with progress := progress } } :=
  ⟨sound.setTask has rfl (fun work input ready => absurd ready (started work input)) writing decent,
    _, fit.proceed ref started, fun task past => past.1 (only task past.2)⟩

/-- A task that was about to start, or has started, may finish. -/
theorem Sound.finish (sound : m.Sound) {roles : Roles} (fit : roles.Fit m) {ref : Ref .task}
    (only : ∀ task, roles.past task → task = ref) (has : m.tasks.Has ref) {result : Result}
    (decent : Decent result) : (finishTask ref result m).2.Kempt := by
  have started : Phase.ofResult result ≠ .created := by cases result <;> nofun
  have spent := (fit.spent _).2 (sound.resumed has).2
  have safe : Sound { m with
      suspensions := m.suspensions.set (m.task ref).suspension
        { m.suspension (m.task ref).suspension with phase := .ofResult result } } :=
    sound.setSuspension _ (fun _ pending => sound.work pending) started
  have fits := fit.conclude spent started
  rw [finishTask_apply]
  exact safe.proceed fits only has (.finished result) nofun nofun fun _ same => by
    cases same
    exact decent

/-- What a stage has for a result is no failure of using a suspension twice. -/
theorem Sound.stageResult (sound : m.Sound) {stage : Ref .stage} {input : Ref .channel}
    {result : Result} (heard : stageResult? m stage input = some result) : Decent result := by
  unfold stageResult? at heard
  split at heard
  · next had =>
    cases heard
    exact sound.heard had
  · split at heard
    · cases heard
      rfl
    · cases heard

end Machine

/-- All results are results of tasks. -/
theorem mem_of_allResults? {results : List (Option Result)} {all : List Result} {result : Result}
    (h : allResults? results = some all) (mem : result ∈ all) : some result ∈ results := by
  induction results generalizing all with
  | nil =>
    cases h
    cases mem
  | cons first rest ih =>
    cases first with
    | none => cases h
    | some first =>
      obtain ⟨others, rest_eq, rfl⟩ := Option.map_eq_some_iff.1 h
      rcases List.mem_cons.1 mem with rfl | mem
      · exact List.mem_cons_self
      · exact List.mem_cons_of_mem _ (ih rest_eq mem)

/-- The first failure is one of the results. -/
theorem mem_of_firstFailure? {results : List Result} {failure : Failure}
    (h : firstFailure? results = some failure) : .error failure ∈ results := by
  obtain ⟨result, mem, failed⟩ := List.exists_of_findSome?_eq_some h
  cases result with
  | ok _ => cases failed
  | error other =>
    cases failed
    exact mem

/-! ## Driving with care -/

/-- Two computations have come out the same, with a sound machine, which is kempt if they have
ended. -/
structure Fares {α : Type} (post : α → Prop) (m : Machine) (ran ran' : Option α × Machine) :
    Prop where
  same : ran' = ran
  sound : ran.2.Sound
  kempt {result : α} (ended : ran.1 = some result) :
    ran.2.Kempt ∧ (∀ task, m.tasks.Has task → ran.2.tasks.Has task) ∧ post result

/-- Two computations come out the same from every machine that is kempt. -/
def Steady {α : Type} (post : α → Prop) (action action' : Effect Machine α) : Prop :=
  ∀ m : Machine, m.Kempt → Fares post m (action m) (action' m)

namespace Fares

variable {α β : Type} {m m' : Machine}

theorem ended {post : α → Prop} {result : α} (kempt : m'.Kempt)
    (has : ∀ task, m.tasks.Has task → m'.tasks.Has task) (holds : post result) :
    Fares post m (some result, m') (some result, m') :=
  ⟨rfl, kempt.1, fun same => by cases same; exact ⟨kempt, has, holds⟩⟩

theorem stopped {post : α → Prop} (sound : m'.Sound) :
    Fares post m ((none : Option α), m') (none, m') := ⟨rfl, sound, nofun⟩

/-- What is known of the tasks before holds after. -/
theorem rebase {post : α → Prop} {ran ran' : Option α × Machine} (h : Fares post m' ran ran')
    (has : ∀ task, m.tasks.Has task → m'.tasks.Has task) : Fares post m ran ran' where
  same := h.same
  sound := h.sound
  kempt ended := by
    obtain ⟨kempt, has', holds⟩ := h.kempt ended
    exact ⟨kempt, fun task old => has' task (has task old), holds⟩

theorem bind {P : α → Prop} {Q : β → Prop} {first first' : Effect Machine α}
    {next next' : α → Effect Machine β} (before : Fares P m (first m') (first' m'))
    (after : ∀ given m', m'.Kempt → (∀ task, m.tasks.Has task → m'.tasks.Has task) → P given →
      Fares Q m (next given m') (next' given m')) :
    Fares Q m ((first >>= next) m') ((first' >>= next') m') := by
  obtain ⟨same, sound, kempt⟩ := before
  rw [Effect.bind_apply, Effect.bind_apply, same]
  generalize first m' = ran at sound kempt
  obtain ⟨_ | given, m'⟩ := ran
  · exact .stopped sound
  · obtain ⟨kempt, has, holds⟩ := kempt rfl
    exact after given m' kempt has holds

/-- What is careful is so for the tasks too. -/
theorem of_fine {roles : Roles} {post : Roles → α → Prop} {Q : α → Prop}
    {ran ran' : Option α × Machine} (h : Fine post roles m ran ran')
    (none : ∀ task, ¬ roles.past task)
    (weaker : ∀ final result, post final result → Q result) : Fares Q m ran ran' where
  same := h.same
  sound := h.sound
  kempt ended := by
    obtain ⟨final, fit, keeps, holds⟩ := h.fit ended
    exact ⟨⟨h.sound, final, fit, fun task past => none task (keeps.past past)⟩,
      fun _ => keeps.task, weaker _ _ holds⟩

theorem finishTask (kempt : m'.Kempt) (has : ∀ task, m.tasks.Has task → m'.tasks.Has task)
    {ref : Ref .task} (old : m.tasks.Has ref) {result : Result} (decent : Decent result) :
    Fares (fun result => ∀ r, result = some r → Decent r) m (finishTask ref result m')
      (finishTask ref result m') := by
  obtain ⟨sound, roles, fit, none⟩ := kempt
  have finished := sound.finish fit (fun task past => absurd past (none task)) (has ref old) decent
  rw [finishTask_apply] at finished ⊢
  exact .ended finished (fun task old => (has task old).set _ _) fun _ same => by
    cases same
    exact decent

end Fares

namespace Steady

variable {α β : Type}

theorem done {post : α → Prop} {result : α} (holds : post result) :
    Steady post (pure result) (pure result) := fun _ kempt => .ended kempt (fun _ old => old) holds

theorem read {post : α → Prop} {next next' : Machine → Effect Machine α}
    (after : ∀ m : Machine, m.Kempt → Fares post m (next m m) (next' m m)) :
    Steady post (get >>= next) (get >>= next') := fun m kempt => after m kempt

theorem bind {P : α → Prop} {Q : β → Prop} {first first' : Effect Machine α}
    {next next' : α → Effect Machine β} (before : Steady P first first')
    (after : ∀ given, P given → Steady Q (next given) (next' given)) :
    Steady Q (first >>= next) (first' >>= next') :=
  fun m kempt => (before m kempt).bind fun given m' kempt has holds =>
    (after given holds m' kempt).rebase has

theorem of_careful {post : Roles → Roles → α → Prop} {Q : α → Prop}
    {action action' : Effect Machine α} (h : Careful post action action')
    (weaker : ∀ roles final result, post roles final result → Q result) :
    Steady Q action action' := by
  rintro m ⟨sound, roles, fit, none⟩
  exact .of_fine (h roles m sound fit) none (weaker roles)

/-- A change of a machine that is not about values, signals and tasks. -/
theorem aside {change : Machine → Machine} (stack : ∀ m : Machine, (change m).stack = m.stack)
    (holdings : ∀ m : Machine, (change m).holdings = m.holdings)
    (plumbing : ∀ m : Machine, (change m).plumbing = m.plumbing) :
    Steady (fun _ => True) (modify change : Effect Machine PUnit) (modify change) := by
  rintro m ⟨sound, roles, fit, none⟩
  have tasks : (change m).tasks = m.tasks := congrArg Machine.Plumbing.tasks (plumbing m)
  exact .ended ⟨sound.of_stores (sound.stores.of_eq (stack m) (holdings m)) (plumbing m), roles,
    fit.aside (plumbing m), none⟩ (fun _ old => tasks.symm ▸ old) trivial

section Engine

variable {engine engine' : Engine} (h : thrift.Relates engine engine')

include h

theorem tellOutput (out : Ref .channel) {result : Result} (decent : Decent result) :
    Steady (fun _ => True) (tellOutput engine out result) (tellOutput engine' out result) := by
  cases result with
  | ok _ => exact .of_careful (Careful.emit h.deliver out trivial) fun _ _ _ _ => trivial
  | error failure => exact .of_careful (Careful.emit h.deliver out decent) fun _ _ _ _ => trivial

/-- Work that is done once. -/
theorem runOnce {m : Machine} (kempt : m.Kempt) {ref : Ref .task} (old : m.tasks.Has ref)
    {work work' : Run Machine Unit} (careful : Careful InUse work work') :
    Fares (fun result => ∀ r, result = some r → Decent r) m (runOnce engine ref work m)
      (runOnce engine' ref work' m) := by
  have worked : Steady Decent (outcome work) (outcome work') := .of_careful careful fun _ _ _ h => h
  refine (worked m kempt).bind fun result m' kempt has decent => ?_
  rw [Effect.get_bind_apply, Effect.get_bind_apply]
  exact ((tellOutput h _ decent m' kempt).rebase has).bind fun _ _ kempt has _ =>
    .finishTask kempt has old decent

/-- A task that takes the values of an input gives up its claim to it, and its stage listens. -/
theorem startStage {m : Machine} (kempt : m.Kempt) {ref : Ref .task} {work : Work}
    {input : Ref .channel} (ready : (m.task ref).progress = .ready work (some input)) (step : Step)
    (usual : step.IsUsual) :
    Fares (fun result => ∀ r, result = some r → Decent r) m (startStage engine ref step input m)
      (startStage engine' ref step input m) := by
  obtain ⟨sound, roles, fit, none⟩ := kempt
  have old : m.tasks.Has ref := Machine.has_of_progress (by rw [ready]; nofun)
  have duty : roles.channel input = .input ref := fit.input ready (none ref)
  -- The task gives up its claim first, so that nobody counts on the input when the stage listens.
  have freed := (fit.starting ref).reassign input .none (duty ▸ Or.inl rfl) (absurd rfl)
  have listening : ((roles.starting ref).setChannel input .none).Fit
      (m.addStage ⟨step, (m.task ref).out, .none⟩) :=
    freed.rewire rfl rfl fun _ _ has buffering => ⟨has, buffering⟩
  have subscribed := Careful.subscribe h.deliver (sound.addStage usual rfl) listening (if_pos rfl)
    (fit.free (by rw [duty]; nofun)).2 (.stage m.stages.next) nofun
  obtain ⟨same, sound, ended⟩ := subscribed
  rw [startStage_apply, startStage_apply, Effect.bind_apply, Effect.bind_apply, outcome_apply,
    outcome_apply, same]
  generalize Wordstream.subscribe engine input (.stage m.stages.next)
    (m.addStage ⟨step, (m.task ref).out, .none⟩) = ran at sound ended
  obtain ⟨_ | result, m'⟩ := ran
  · exact .stopped sound
  · obtain ⟨roles', fit, keeps, rfl⟩ := ended rfl
    have only (task : Ref .task) (past : roles'.past task) : task = ref :=
      (keeps.past past).resolve_right (none task)
    exact .ended (sound.proceed fit only (keeps.task old) (.waiting m.stages.next input) nofun nofun
      nofun) (fun _ old => (keeps.task old).set _ _) nofun

omit h in
/-- The two sides of a pipe are resumed from its task, unless one does not take its input. -/
theorem startPipe {m : Machine} (kempt : m.Kempt) {ref : Ref .task} {left right : Ref .suspension}
    {relay : Ref .channel} {input : Option (Ref .channel)}
    (ready : (m.task ref).progress = .ready (.pipe left right relay) input) :
    ∃ m' roles', m'.Sound ∧ Roles.Fit roles' m' ∧ (∀ task, roles'.past task → task = ref) ∧
      (∀ task, m.tasks.Has task → m'.tasks.Has task) ∧
      (startPipe left right relay input m = (some (.error .missingInputCapability), m') ∨
        ∃ first second, startPipe left right relay input m =
          (some (.ok (.joining first second)), m')) := by
  obtain ⟨sound, roles, fit, none⟩ := kempt
  obtain ⟨leftWard, rightWard, relayed⟩ := fit.pipe (.task ready) (none ref)
  have only (task : Ref .task) (past : (roles.starting ref).past task) : task = ref :=
    past.resolve_right (none task)
  have past : (roles.starting ref).past ref := Or.inl rfl
  have sides : right ≠ left := by
    rintro rfl
    rw [leftWard] at rightWard
    cases rightWard
  have apart : input ≠ some relay := by
    rintro rfl
    have duty := fit.input ready (none ref)
    rw [relayed] at duty
    cases duty
  -- The sides and the relay are held by this task, which is about to count on them no longer.
  have vacantLeft : (roles.starting ref).Vacant ((roles.starting ref).suspension left) := by
    change Roles.Vacant _ (roles.suspension left)
    rw [leftWard]
    exact not_not_intro past
  have voidInput (channel : Ref .channel) (same : input = some channel) :
      (roles.starting ref).Void ((roles.starting ref).channel channel) ∧
        (roles.starting ref).channel channel ≠ .none := by
    have duty : (roles.starting ref).channel channel = .input ref :=
      fit.input (same ▸ ready) (none ref)
    rw [duty]
    exact ⟨past, nofun⟩
  rw [Wordstream.startPipe, Run.bind_apply]
  rcases (fit.starting ref).of_resume sound vacantLeft voidInput with
    refused | ⟨work, resumed, sound₁, fit₁⟩
  · rw [refused]
    exact ⟨m, _, sound, fit.starting ref, only, fun _ old => old, Or.inl rfl⟩
  · rw [resumed]
    dsimp only
    rw [Run.bind_apply]
    have past₁ : ((roles.starting ref).resume left m.tasks.next input).past =
      (roles.starting ref).past := Roles.past_resume ..
    -- Resuming the left side has changed neither who holds the right one nor the relay.
    have vacantRight : ((roles.starting ref).resume left m.tasks.next input).Vacant
        (((roles.starting ref).resume left m.tasks.next input).suspension right) := by
      have ward : (roles.starting ref).suspension right = .ward (.task ref) false := rightWard
      rw [Roles.ward_resume input ward sides]
      exact not_not_intro (past₁ ▸ past)
    have voidRelay (channel : Ref .channel) (same : some relay = some channel) :
        ((roles.starting ref).resume left m.tasks.next input).Void
          (((roles.starting ref).resume left m.tasks.next input).channel channel) ∧
        ((roles.starting ref).resume left m.tasks.next input).channel channel ≠ .none := by
      cases same
      have relayed : (roles.starting ref).channel relay = .relay (.task ref) := relayed
      rw [Roles.relay_resume relayed apart]
      exact ⟨not_not_intro (past₁ ▸ past), nofun⟩
    rcases fit₁.of_resume sound₁ vacantRight voidRelay with
      refused | ⟨work', resumed', sound₂, fit₂⟩
    · rw [refused]
      exact ⟨_, _, sound₁, fit₁, fun task past => only task (past₁ ▸ past),
        fun _ old => old.alloc _, Or.inl rfl⟩
    · rw [resumed']
      refine ⟨_, _, sound₂, fit₂, fun task past => only task ?_, fun _ old => (old.alloc _).alloc _,
        Or.inr ⟨_, _, rfl⟩⟩
      rw [Roles.past_resume, past₁] at past
      exact past

theorem startWork {m : Machine} (kempt : m.Kempt) {ref : Ref .task} {work : Work}
    {input : Option (Ref .channel)} (ready : (m.task ref).progress = .ready work input) :
    Fares (fun result => ∀ r, result = some r → Decent r) m (startWork engine ref work input m)
      (startWork engine' ref work input m) := by
  have usual := kempt.1.ready ready
  have old : m.tasks.Has ref := Machine.has_of_progress (by rw [ready]; nofun)
  cases work with
  | body activation =>
    cases input with
    | none => exact runOnce h kempt old (Careful.runBody h.execute activation rfl)
    | some input => exact startStage h kempt ready (.body activation) trivial
  | call native args =>
    cases input with
    | none =>
      change Fares _ m
        (Wordstream.runOnce engine ref (runCall engine (m.task ref).out native args) m)
        (Wordstream.runOnce engine' ref (runCall engine' (m.task ref).out native args) m)
      exact runOnce h kempt old (Careful.runCall h.deliver
        (fun native args free => h.call native args fun _ => free) (m.task ref).out native usual)
    | some input => exact startStage h kempt ready (.call native args) usual
  | pipe left right relay =>
    obtain ⟨m', roles, sound, fit, only, has, started⟩ := startPipe kempt ready
    unfold Wordstream.startWork
    dsimp only
    rw [Effect.bind_apply, outcome_apply]
    -- What is held can be resumed; only its input may be refused.
    rcases started with refused | ⟨first, second, started⟩
    · rw [refused]
      have finished : (finishTask ref (.error .missingInputCapability) m').2.Kempt :=
        sound.finish fit only (has ref old) rfl
      change Fares _ m (finishTask ref (.error .missingInputCapability) m')
        (finishTask ref (.error .missingInputCapability) m')
      rw [finishTask_apply] at finished ⊢
      exact .ended finished (fun task old => (has task old).set _ _) fun _ same => by
        cases same
        rfl
    · rw [started]
      exact .ended (sound.proceed fit only (has ref old) (.joining first second) nofun nofun nofun)
        (fun task old => (has task old).set _ _) nofun
  | source given => cases usual

theorem poll (fuel : Nat) (ref : Ref .task) :
    Steady (fun result => ∀ r, result = some r → Decent r) (poll engine fuel ref)
      (poll engine' fuel ref) := by
  induction fuel generalizing ref with
  | zero => exact fun _ kempt => .stopped kempt.1
  | succ fuel ih =>
    intro m kempt
    cases progress : (m.task ref).progress with
    | finished result =>
      rw [poll_of_finished _ _ progress, poll_of_finished _ _ progress]
      exact .ended kempt (fun _ old => old) fun _ same => by
        cases same
        exact kempt.1.finished progress
    | hanging =>
      rw [poll_of_hanging _ _ progress, poll_of_hanging _ _ progress]
      exact .ended kempt (fun _ old => old) nofun
    -- There are no sources unless the host makes them.
    | writing source => exact absurd progress (kempt.1.writing ref source)
    | waiting stage input =>
      rw [poll_of_waiting _ _ progress, poll_of_waiting _ _ progress]
      cases heard : stageResult? m stage input with
      | none => exact .ended kempt (fun _ old => old) nofun
      | some result =>
        exact .finishTask kempt
          (fun _ old => old) (Machine.has_of_progress (by rw [progress]; nofun))
          (kempt.1.stageResult heard)
    | joining left right =>
      rw [poll_of_joining _ _ progress, poll_of_joining _ _ progress]
      refine (ih left m kempt).bind fun first m₁ kempt has decent => ?_
      refine ((ih right m₁ kempt).rebase has).bind fun second m₂ kempt has decent' => ?_
      unfold finishJoint
      split
      · next left right =>
        refine .finishTask kempt has (Machine.has_of_progress (by rw [progress]; nofun)) ?_
        -- The result is that of the left side if it has failed, and otherwise that of the right
        -- one.
        cases left with
        | ok _ => exact decent' right rfl
        | error failure => exact decent (.error failure) rfl
      · exact .ended kempt has nofun
    | ready work input =>
      rw [poll_of_ready _ _ progress, poll_of_ready _ _ progress]
      refine (startWork h kempt progress).bind fun result m' kempt has decent => ?_
      cases result with
      | some result => exact .ended kempt has decent
      | none =>
        unfold goOn
        dsimp only
        rw [Effect.get_bind_apply, Effect.get_bind_apply]
        cases (m'.task ref).progress with
        | waiting | joining => exact (ih ref m' kempt).rebase has
        | _ => exact .ended kempt has nofun

theorem pollAll (fuel : Nat) (tasks : List (Ref .task)) :
    Steady (fun results => ∀ result, some result ∈ results → Decent result)
      (pollAll engine fuel tasks) (pollAll engine' fuel tasks) := by
  induction tasks with
  | nil => exact .done nofun
  | cons ref rest ih =>
    refine (poll h fuel ref).bind fun first decent => ih.bind fun results decents => .done ?_
    intro result mem
    rcases List.mem_cons.1 mem with same | mem
    · exact decent result same.symm
    · exact decents result mem

omit h in
/-- A channel may be found to be lost. -/
theorem modifyChannel (ref : Ref .channel) (abandoned : Bool) :
    Steady (fun _ => True)
      (modifyChannel ref fun channel => { channel with abandoned := abandoned })
      (modifyChannel ref fun channel => { channel with abandoned := abandoned }) := by
  intro m kempt
  refine .ended (kempt.rewire (kempt.1.setChannel ref (kempt.1.backlog ref) (kempt.1.listener ref))
    rfl rfl fun other has => ⟨has.set _ _, ?_⟩) (fun _ old => old) trivial
  change ((m.channels.set ref _).get other).attachment = _
  rw [Arena.get_set]
  split
  · next same => rw [same]
  · rfl

omit h in
theorem abandonLost (outside : List Thing) :
    Steady (fun _ => True) (abandonLost outside) (abandonLost outside) := by
  refine .read fun m kempt => ?_
  refine Steady.bind (P := fun _ => True) ?_ (fun _ _ => .done trivial) m kempt
  induction lostInputs m outside with
  | nil => exact .done trivial
  | cons input rest ih => exact (modifyChannel input true).bind fun _ _ => ih

omit h in
/-- Driving is steady if polling is. -/
theorem driveUntil {post : Option α → Prop} (pending : post none)
    {pollOnce pollOnce' : Effect Machine (Option α)} (polls : Steady post pollOnce pollOnce')
    (driven : List (Ref .task)) (outside : List Thing) (fuel : Nat) :
    Steady post (driveUntil pollOnce driven outside fuel)
      (driveUntil pollOnce' driven outside fuel) := by
  induction fuel with
  | zero => exact fun _ kempt => .stopped kempt.1
  | succ fuel ih =>
    refine .bind (aside (fun _ => rfl) (fun _ => rfl) fun _ => rfl) fun _ (_ : True) =>
      polls.bind fun result holds => ?_
    cases result with
    | some result => exact .done holds
    | none =>
      refine .read fun m kempt => ?_
      split
      · exact ih m kempt
      · refine Steady.read (fun m kempt => (abandonLost _).bind (fun lost _ => ?_) m kempt) m kempt
        split
        · exact ih
        · exact .done pending

theorem settleBatches (pollFuel : Nat) (outside : List Thing) (fuel : Nat)
    (failure : Option Failure) (ordinary : ∀ f, failure = some f → f.isOrdinary) :
    Steady (fun driven => ∀ f, driven = .finished (.error f) → f.isOrdinary)
      (settleBatches engine pollFuel outside fuel failure)
      (settleBatches engine' pollFuel outside fuel failure) := by
  induction fuel generalizing failure with
  | zero => exact fun _ kempt => .stopped kempt.1
  | succ fuel ih =>
    refine .read fun m kempt => ?_
    have emptied : Steady (fun _ => True) (modify fun m : Machine => { m with pending := [] }) _ :=
      aside (fun _ => rfl) (fun _ => rfl) fun _ => rfl
    refine emptied.bind (fun _ _ => ?_) m kempt
    split
    · split
      · next f =>
        exact .done fun _ same => by
          cases same
          exact ordinary f rfl
      · exact .done nofun
    · have round : Steady (fun round => ∀ results, round = some results →
          ∀ result ∈ results, Decent result)
          (do pure (allResults? (← Wordstream.pollAll engine pollFuel m.pending)))
          (do pure (allResults? (← Wordstream.pollAll engine' pollFuel m.pending))) :=
        (pollAll h pollFuel m.pending).bind fun results decent => .done fun all same result mem =>
          decent result (mem_of_allResults? same mem)
      refine (driveUntil nofun round m.pending outside pollFuel).bind fun results decent => ?_
      cases results with
      | none => exact .done nofun
      | some results =>
        refine ih _ fun f same => ?_
        -- A failure that was kept from an earlier batch stays the answer.
        cases failure with
        | some first =>
          cases same
          exact ordinary f rfl
        | none => exact decent results rfl (.error f) (mem_of_firstFailure? same)

end Engine

end Steady

/-! ## Sessions -/

/-- What becomes of a machine on which only the core library is installed: texts are evaluated,
tasks are settled, each of these coming to an end, and the host gives names to values that are no
suspensions. -/
inductive Session : Machine → Prop
  | install (config : Config) : Session (installLibrary (.ofConfig config))
  | define {m : Machine} (before : Session m) (name : String) {value : Value}
      (free : value.isSuspension = false) : Session (m.define name value)
  | evaluate {m m' : Machine} (before : Session m) (text : String) (fuel : Nat)
      {result : Except Failure Value}
      (ended : evaluate (.ofFuel .none fuel) text m = (some result, m')) : Session m'
  | settle {m m' : Machine} (before : Session m) (outside : List Thing) (fuel : Nat)
      {driven : Driven}
      (ended : settle (.ofFuel .none fuel) fuel outside m = (some driven, m')) : Session m'

namespace Session

/-- A machine that was booted is in a session. -/
theorem boot (config : Config) (fuel : Nat) {result : Except Failure Unit} {m : Machine}
    (ended : boot (.ofFuel .none fuel) (.ofConfig config) = (some result, m)) : Session m := by
  -- For any change and any text, for these are not to be unfolded.
  have ran {change : Machine → Machine} {text : String} {m' : Machine}
      (session : Session (change m')) (ended : (do
        modify change
        let _ ← Wordstream.evaluate (.ofFuel .none fuel) text : Run Machine Unit) m' =
          (some result, m)) : Session m := by
    change (Wordstream.evaluate (.ofFuel .none fuel) text >>= fun _ => pure () : Run Machine Unit)
      (change m') = _ at ended
    rw [Run.bind_apply] at ended
    cases ran : Wordstream.evaluate (.ofFuel .none fuel) text (change m') with
    | mk outcome last =>
      rw [ran] at ended
      rcases outcome with _ | failure | value
      · cases ended
      · cases ended
        exact session.evaluate text fuel ran
      · cases ended
        exact session.evaluate text fuel ran
  rw [Wordstream.boot] at ended
  exact ran (.install config) ended

/-- A new machine holds nothing at all. -/
theorem kempt_ofConfig (config : Config) : (Machine.ofConfig config).Kempt := by
  refine ⟨⟨⟨fun ref => ?_, nofun, nofun, fun _ => rfl⟩, nofun, nofun, fun _ => trivial, nofun,
    nofun, nofun, nofun, nofun, fun has => absurd has (Nat.not_lt_zero _),
    fun has => absurd has (Nat.not_lt_zero _)⟩, ⟨fun _ => .spent, fun _ => .none, fun _ => False⟩,
    ⟨fun _ => iff_of_true rfl nofun, nofun, nofun, fun engaged => absurd rfl engaged,
      fun holds _ => ?_, nofun⟩, fun _ => id⟩
  · change ∀ entry ∈ ((Arena.empty.alloc .empty : Arena .dictionary Dictionary).get ref).entries, _
    rw [Arena.get_alloc]
    split <;> nofun
  · cases holds with
    | suspension created => cases created
    | task ready => cases ready

theorem kempt_of_stirs {m m' : Machine} (kempt : m.Kempt) (stirred : m.Stirs True m') :
    m'.Kempt := by
  obtain ⟨sound, roles, fit, none⟩ := kempt
  exact ⟨sound.stirs stirred, roles, fit.aside stirred.plumbing_eq, none⟩

/-- Whatever a session has come to, there are roles that fit. -/
theorem kempt {m : Machine} (session : Session m) : m.Kempt := by
  have related (fuel : Nat) := Engine.careful_watched id (fun _ => false) fuel
  induction session with
  | install config => exact kempt_of_stirs (kempt_ofConfig config) (Machine.stirs_installLibrary ..)
  | define _ name free ih => exact kempt_of_stirs ih (.assign _ _ name _ fun _ => free)
  | evaluate _ text fuel ended ih =>
    have steady : Steady (fun _ => True) _ _ :=
      .of_careful ((related fuel).evaluate text) fun _ _ _ _ => trivial
    have fares := steady _ ih
    rw [Engine.interrupted_never, ended] at fares
    exact (fares.kempt rfl).1
  | settle _ outside fuel ended ih =>
    have fares := Steady.settleBatches (related fuel) fuel outside fuel none nofun _ ih
    rw [Engine.interrupted_never,
      show settleBatches _ fuel outside fuel none _ = _ from ended] at fares
    exact (fares.kempt rfl).1

/-- Programs use suspensions linearly. In a session on a machine that has the core library only, and
wherever it may be interrupted:

* no entry of a dictionary, slot of a frame or of an activation, argument of a function, or value
  that is published is a suspension;
* no suspension is resumed a second time;
* whoever watches what functions are called with and what code gives does not see a suspension;
* no evaluation, no settling and no task fails because something was resumed or listened to
  before. -/
theorem linear {m : Machine} (session : Session m) (alarm : Machine → Machine)
    (stop : Machine → Bool) (fuel : Nat) :
    m.Sound ∧
    (∀ text,
      let ran := Wordstream.evaluate (.interrupted .none stop fuel) text m
      Wordstream.evaluate (.watched .none alarm stop fuel) text m = ran ∧ ran.2.Sound ∧
        ∀ result, ran.1 = some result → Decent result) ∧
    ∀ outside,
      let ran := Wordstream.settle (.interrupted .none stop fuel) fuel outside m
      Wordstream.settle (.watched .none alarm stop fuel) fuel outside m = ran ∧ ran.2.Sound ∧
        ∀ failure, ran.1 = some (.finished (.error failure)) → failure.isOrdinary := by
  have related := Engine.careful_watched alarm stop fuel
  have kempt := session.kempt
  refine ⟨kempt.1, fun text => ?_, fun outside => ?_⟩
  · have steady : Steady Decent _ _ := .of_careful (related.evaluate text) fun _ _ _ h => h
    have fares := steady m kempt
    exact ⟨fares.same, fares.sound, fun _ ended => (fares.kempt ended).2.2⟩
  · have fares := Steady.settleBatches related fuel outside fuel none nofun m kempt
    exact ⟨fares.same, fares.sound, fun failure ended => (fares.kempt ended).2.2 failure rfl⟩

/-- A pipe of a pipe and another call, which is given a name. -/
def nestedPipeText : String :=
  "proc: native [params body] :core/proc
  f: proc [/out] [out \"a\"] g: proc [/in /out] [out in] x: pipe pipe f g g"

/-- The text is evaluated. -/
def nestedPipeAsked : Option (Except Failure Value) × Machine :=
  Wordstream.evaluate (.ofFuel .none 20) nestedPipeText .stocked

/-- All that the text has started is settled. -/
def nestedPipeRan : Option Driven × Machine :=
  Wordstream.settle (.ofFuel .none 20) 20 [] nestedPipeAsked.2

theorem nested_pipe_evaluated :
    nestedPipeAsked.1.isSome ∧
      (nestedPipeAsked.2.lookup? "x").map Value.isSuspension = some false ∧
      nestedPipeRan.2.suspensions.cells.toList.map Suspension.phase =
        List.replicate 5 .completed := by
  decide +kernel

/-- What is under the name is no suspension, though five were made for it, and all is settled
without anybody seeing one. -/
theorem linear_of_nested_pipe :
    let alarm := fun m : Machine => { m with printed := m.printed ++ ["a suspension"] }
    (nestedPipeAsked.2.lookup? "x").map Value.isSuspension = some false ∧
      nestedPipeRan.2.suspensions.cells.toList.map Suspension.phase =
        List.replicate 5 .completed ∧
      Wordstream.settle (.watched .none alarm (fun _ => false) 20) 20 [] nestedPipeAsked.2 =
        nestedPipeRan ∧
      nestedPipeRan.2.Sound := by
  intro alarm
  have session : Session .stocked := .install .standard
  obtain ⟨ended, named, completed⟩ := nested_pipe_evaluated
  obtain ⟨result, given⟩ := Option.isSome_iff_exists.1 ended
  obtain ⟨_, _, settled⟩ := linear (session.evaluate nestedPipeText 20 (Prod.ext given rfl)) alarm
    (fun _ => false) 20
  obtain ⟨same, sound, _⟩ := settled []
  rw [Engine.interrupted_never] at same sound
  exact ⟨named, completed, same, sound⟩

end Session

end Wordstream
