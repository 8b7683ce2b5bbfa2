import Wordstream.Proofs.Demand
import Wordstream.Proofs.Ownership

/-!
# Evaluation under watch

An engine can be watched: it looks at the arguments of every call of a function, and at what
executing code and reading a value give, and raises the alarm at the first suspension among them.
Watched and unwatched evaluation are the same on sound machines with fitting roles, because no
alarm is ever raised. Reading a deferred value is not watched, since that is how a pipe comes by
its sides; what is read in that way is a new suspension that nobody else counts on.

## Main results

* `Engine.careful_watched` — evaluation is careful, and watching makes no difference to it
-/

namespace Wordstream

open HasMachine (machine)

/-! ## Careful computations -/

/-- Two computations have come out the same, with a sound machine. If they have ended, there are
roles that fit it and that have kept what was to be kept. -/
structure Fine {σ α : Type} [HasMachine σ] (post : Roles → α → Prop) (roles : Roles) (m : Machine)
    (ran ran' : Option α × σ) : Prop where
  same : ran' = ran
  sound : (machine ran.2).Sound
  fit {result : α} (ended : ran.1 = some result) : ∃ roles' : Roles,
    roles'.Fit (machine ran.2) ∧ roles.Keeps m roles' (machine ran.2) ∧ post roles' result

/-- Two computations come out the same from wherever roles fit a sound machine. -/
def Careful {σ α : Type} [HasMachine σ] (post : Roles → Roles → α → Prop)
    (action action' : Effect σ α) : Prop :=
  ∀ (roles : Roles) (state : σ), (machine state).Sound → roles.Fit (machine state) →
    Fine (post roles) roles (machine state) (action state) (action' state)

/-- The result is in use. -/
def InUse {α : Type} [Graded α] (_ _ : Roles) : Except Failure α → Prop := Decent

/-- A suspension that is given was not there before, and is in hand now. -/
def InHand (roles roles' : Roles) : Except Failure Value → Prop
  | .ok (.suspension ref) => roles.suspension ref ≠ .loose ∧ roles.suspension ref ≠ .joined ∧
      roles'.suspension ref = .loose
  | result => Decent result

namespace Fine

variable {σ α β : Type} [HasMachine σ] {roles roles' : Roles} {m m' : Machine}

/-- A computation that leaves the roles to be found. -/
theorem of_fit {post : Roles → α → Prop} {outcome : Option α} {state : σ}
    (sound : (machine state).Sound)
    (fit : ∀ result, outcome = some result → ∃ roles' : Roles,
      roles'.Fit (machine state) ∧ roles.Keeps m roles' (machine state) ∧ post roles' result) :
    Fine post roles m (outcome, state) (outcome, state) := ⟨rfl, sound, fit _⟩

/-- A computation that has ended and leaves given roles. -/
theorem ended {post : Roles → α → Prop} {result : α} {state : σ} (sound : (machine state).Sound)
    (fit : roles'.Fit (machine state)) (keeps : roles.Keeps m roles' (machine state))
    (holds : post roles' result) : Fine post roles m (some result, state) (some result, state) :=
  .of_fit sound fun _ same => by
    cases same
    exact ⟨roles', fit, keeps, holds⟩

/-- A computation that has not ended. -/
theorem stopped {post : Roles → α → Prop} {state : σ} (sound : (machine state).Sound) :
    Fine post roles m ((none : Option α), state) (none, state) := .of_fit sound nofun

/-- What was kept before is kept after. -/
theorem rebase {post post' : Roles → α → Prop} {ran ran' : Option α × σ}
    (h : Fine post' roles' m' ran ran') (keeps : roles.Keeps m roles' m')
    (weaker : ∀ final result, post' final result → post final result) :
    Fine post roles m ran ran' where
  same := h.same
  sound := h.sound
  fit ended := by
    obtain ⟨final, fit, kept, holds⟩ := h.fit ended
    exact ⟨final, fit, keeps.trans kept, weaker _ _ holds⟩

theorem weaken {post post' : Roles → α → Prop} {ran ran' : Option α × σ}
    (h : Fine post' roles m ran ran')
    (weaker : ∀ final result, post' final result → post final result) :
    Fine post roles m ran ran' := h.rebase (.refl roles m) weaker

/-- What was in hand before is still in hand. -/
theorem hold {post : Roles → α → Prop} {ran ran' : Option α × σ} (h : Fine post roles m ran ran') :
    Fine (fun final result => post final result ∧
      ∀ ref, roles.suspension ref = .loose → final.suspension ref = .loose) roles m ran ran' where
  same := h.same
  sound := h.sound
  fit ended := by
    obtain ⟨final, fit, keeps, holds⟩ := h.fit ended
    exact ⟨final, fit, keeps, holds, fun _ loose => (keeps.loose loose).1⟩

theorem bind {P : Roles → α → Prop} {Q : Roles → β → Prop} {first first' : Effect σ α}
    {next next' : α → Effect σ β} {state : σ}
    (before : Fine P roles m (first state) (first' state))
    (after : ∀ given state' (roles' : Roles), (machine state').Sound → roles'.Fit (machine state') →
      roles.Keeps m roles' (machine state') → P roles' given →
      Fine Q roles m (next given state') (next' given state')) :
    Fine Q roles m ((first >>= next) state) ((first' >>= next') state) := by
  obtain ⟨same, sound, fit⟩ := before
  rw [Effect.bind_apply, Effect.bind_apply, same]
  generalize first state = ran at sound fit
  obtain ⟨_ | given, state'⟩ := ran
  · exact .stopped sound
  · obtain ⟨roles', fit, keeps, holds⟩ := fit rfl
    exact after given state' roles' sound fit keeps holds

/-- One computation after another; the first may fail. -/
theorem andThen {P : Roles → Except Failure α → Prop} {Q : Roles → Except Failure β → Prop}
    {first first' : Run σ α} {next next' : α → Run σ β} {state : σ}
    (before : Fine P roles m (first state) (first' state))
    (fails : ∀ final failure, P final (.error failure) → Q final (.error failure))
    (after : ∀ given state' (roles' : Roles), (machine state').Sound → roles'.Fit (machine state') →
      roles.Keeps m roles' (machine state') → P roles' (.ok given) →
      Fine Q roles m (next given state') (next' given state')) :
    Fine Q roles m ((first >>= next : Run σ β) state) ((first' >>= next' : Run σ β) state) := by
  obtain ⟨same, sound, fit⟩ := before
  rw [Run.bind_apply, Run.bind_apply, same]
  generalize first state = ran at sound fit
  obtain ⟨_ | (failure | given), state'⟩ := ran
  · exact .stopped sound
  · obtain ⟨roles', fit, keeps, holds⟩ := fit rfl
    exact .ended sound fit keeps (fails _ _ holds)
  · obtain ⟨roles', fit, keeps, holds⟩ := fit rfl
    exact after given state' roles' sound fit keeps holds

theorem onMachine {post : Roles → Except Failure α → Prop} {action action' : Run Machine α}
    {reader : Reader} (h : Fine post roles m (action reader.machine) (action' reader.machine)) :
    Fine post roles m (onMachine action reader) (onMachine action' reader) where
  same := by rw [onMachine_apply, onMachine_apply, h.same]
  sound := h.sound
  fit := h.fit

theorem withCursor {post : Roles → Except Failure α → Prop} {action action' : Run Reader α}
    {m' : Machine} {cursor : Cursor}
    (h : Fine post roles m (action ⟨m', cursor⟩) (action' ⟨m', cursor⟩)) :
    Fine post roles m (withCursor cursor action m') (withCursor cursor action' m') where
  same := by rw [withCursor_apply, withCursor_apply, h.same]
  sound := h.sound
  fit := h.fit

/-- Something is changed when a computation has ended, but nothing that roles are about. -/
theorem whenEnded {post : Roles → α → Prop} {ran ran' : Option α × Machine}
    (h : Fine post roles m ran ran') {finish : Machine → Machine}
    (sound : ∀ m : Machine, m.Sound → (finish m).Sound)
    (plumbing : ∀ m : Machine, (finish m).plumbing = m.plumbing) :
    Fine post roles m (whenEnded finish ran) (whenEnded finish ran') := by
  obtain ⟨same, safe, fit⟩ := h
  subst same
  obtain ⟨_ | result, m'⟩ := ran'
  · exact .stopped safe
  · obtain ⟨roles', fit, keeps, holds⟩ := fit rfl
    exact .ended (sound m' safe) (fit.aside (plumbing m')) (keeps.aside (plumbing m')) holds

/-- The result is seen in another way. -/
theorem map {P : Roles → α → Prop} {Q : Roles → β → Prop} {ran ran' : Option α × σ}
    (h : Fine P roles m ran ran') {view : α → β}
    (holds : ∀ final result, P final result → Q final (view result)) :
    Fine Q roles m (ran.1.map view, ran.2) (ran'.1.map view, ran'.2) := by
  obtain ⟨same, sound, fit⟩ := h
  subst same
  refine .of_fit sound fun result ended => ?_
  obtain ⟨given, gave, rfl⟩ := Option.map_eq_some_iff.1 ended
  obtain ⟨roles', fit, keeps, given⟩ := fit gave
  exact ⟨roles', fit, keeps, holds _ _ given⟩

end Fine

/-- A suspension that was not there later was not there before. -/
theorem InHand.rebase {roles roles' final : Roles} {m m' : Machine}
    (keeps : roles.Keeps m roles' m')
    {result : Except Failure Value} (h : InHand roles' final result) :
    InHand roles final result := by
  rcases result with failure | value
  · exact h
  · cases value with
    | suspension ref =>
      obtain ⟨unheld, unjoined, loose⟩ := h
      exact ⟨fun loose => unheld (keeps.loose loose).1,
        fun joined => unjoined (keeps.joined joined), loose⟩
    | _ => exact h

/-- What is in use is not in hand. -/
theorem InUse.inHand {roles roles' final final' : Roles} {result : Except Failure Value}
    (h : InUse roles final result) : InHand roles' final' result := by
  rcases result with failure | value
  · exact h
  · cases value with
    | suspension ref => cases h
    | _ => exact h

/-- What was no suspension and is one now is new. -/
theorem InHand.new {roles roles' : Roles} {ref : Ref .suspension}
    (spent : roles.suspension ref = .spent) (loose : roles'.suspension ref = .loose) :
    InHand roles roles' (.ok (.suspension ref)) :=
  ⟨by rw [spent]; nofun, by rw [spent]; nofun, loose⟩

namespace Careful

variable {σ α β : Type} [HasMachine σ]

theorem done [Graded α] {result : α} (free : Graded.IsFree result) :
    Careful InUse (pure result : Run σ α) (pure result : Run σ α) :=
  fun roles state sound fit => .ended sound fit (.refl roles (machine state)) free

theorem refuse [Graded α] {failure : Failure} (ordinary : failure.isOrdinary) :
    Careful InUse (throw failure : Run σ α) (throw failure : Run σ α) :=
  fun roles state sound fit => .ended sound fit (.refl roles (machine state)) ordinary

theorem read {post : Roles → Roles → Except Failure α → Prop} {next next' : σ → Run σ α}
    (after : ∀ state, (machine state).Sound → Careful post (next state) (next' state)) :
    Careful post (get >>= next : Run σ α) (get >>= next' : Run σ α) :=
  fun roles state sound fit => after state sound roles state sound fit

theorem andThen [Graded α] [Graded β] {first first' : Run σ α} {next next' : α → Run σ β}
    (before : Careful InUse first first')
    (after : ∀ result, Graded.IsFree result → Careful InUse (next result) (next' result)) :
    Careful InUse (first >>= next : Run σ β) (first' >>= next' : Run σ β) :=
  fun roles state sound fit => (before roles state sound fit).andThen (fun _ _ ordinary => ordinary)
    fun given state' roles' sound fit keeps free =>
      (after given free roles' state' sound fit).rebase keeps fun _ _ h => h

/-- What is given in the end may be in hand. -/
theorem andHand [Graded α] {first first' : Run σ α} {next next' : α → Run σ Value}
    (before : Careful InUse first first')
    (after : ∀ result, Graded.IsFree result → Careful InHand (next result) (next' result)) :
    Careful InHand (first >>= next : Run σ Value) (first' >>= next' : Run σ Value) :=
  fun roles state sound fit => (before roles state sound fit).andThen (fun _ _ ordinary => ordinary)
    fun given state' roles' sound fit keeps free =>
      (after given free roles' state' sound fit).rebase keeps fun _ _ => InHand.rebase keeps

theorem inHand {action action' : Run σ Value} (h : Careful InUse action action') :
    Careful InHand action action' :=
  fun roles state sound fit => (h roles state sound fit).weaken fun _ _ => InUse.inHand

theorem onMachine {post : Roles → Roles → Except Failure α → Prop} {action action' : Run Machine α}
    (h : Careful post action action') : Careful post (onMachine action) (onMachine action') :=
  fun roles reader sound fit => (h roles reader.machine sound fit).onMachine

theorem withCursor {post : Roles → Roles → Except Failure α → Prop} {action action' : Run Reader α}
    (h : Careful post action action') (cursor : Cursor) :
    Careful post (withCursor cursor action) (withCursor cursor action') :=
  fun roles m sound fit => (h roles ⟨m, cursor⟩ sound fit).withCursor

/-- A change of a machine that is not about signals and tasks, and that stores no suspension. -/
theorem change {change : Machine → Machine}
    (stores : ∀ m : Machine, m.Sound → (change m).Stores)
    (plumbing : ∀ m : Machine, (change m).plumbing = m.plumbing) :
    Careful InUse (modify change : Run Machine PUnit) (modify change : Run Machine PUnit) :=
  fun roles m sound fit => .ended (Machine.Sound.of_stores sound (stores m sound) (plumbing m))
    (Roles.Fit.aside fit (plumbing m)) ((Roles.Keeps.refl roles m).aside (plumbing m)) trivial

/-- Effects among computations that may fail. -/
theorem lift {effect effect' : Effect σ Unit} (h : Careful (fun _ _ _ => True) effect effect') :
    Careful InUse (liftM effect : Run σ Unit) (liftM effect' : Run σ Unit) := by
  intro roles state sound fit
  rw [Run.lift_apply, Run.lift_apply]
  exact (h roles state sound fit).map fun _ _ _ => trivial

/-- A computation whose failure is looked at. -/
theorem attempt [Graded α] {action action' : Run σ α} (h : Careful InUse action action') :
    Careful (fun _ _ result => ∃ inner, result = .ok inner ∧ Decent inner) (attempt action)
      (attempt action') :=
  fun roles state sound fit => (h roles state sound fit).map fun _ result decent =>
    ⟨result, rfl, decent⟩

theorem withScene [Graded α] {action action' : Run Machine α} (h : Careful InUse action action')
    (scene : Ref .scene) (activation : Ref .activation) :
    Careful InUse (withScene scene activation action) (withScene scene activation action') := by
  intro roles m sound fit
  rw [withScene_apply, withScene_apply]
  have entered := h roles (m.mount scene activation)
    (sound.of_stores (sound.stores.of_eq rfl rfl) rfl) (Roles.Fit.aside fit rfl)
  have keeps : roles.Keeps m roles (m.mount scene activation) :=
    (Roles.Keeps.refl roles m).aside rfl
  exact (entered.rebase keeps fun _ _ h => h).whenEnded
    (fun _ sound => sound.of_stores (sound.stores.dismount scene activation _) rfl) fun _ => rfl

/-- The body of a procedure may be run on a frame that holds no suspension. -/
theorem runFrame {engine engine' : Engine}
    (h : ∀ code, Careful InUse (engine.execute code) (engine'.execute code)) (ref : Ref .frame)
    {args : List Value} (free : ∀ value ∈ args, value.isSuspension = false) :
    Careful InUse (runFrame engine ref args) (runFrame engine' ref args) := by
  intro roles m sound fit
  replace sound : m.Sound := sound
  rw [runFrame_apply, runFrame_apply]
  split
  · exact .ended sound fit (.refl roles m) rfl
  · have keeps : roles.Keeps m roles (m.enter ref args) := (Roles.Keeps.refl roles m).aside rfl
    have entered := h (m.frames.get ref).body roles (m.enter ref args)
      (sound.of_stores (sound.stores.enter ref free) rfl) (Roles.Fit.aside fit rfl)
    have plumbing (m : Machine) : m.leave.plumbing = m.plumbing := by
      unfold Machine.leave
      cases m.calls <;> rfl
    exact (entered.rebase keeps fun _ _ h => h).whenEnded
      (fun m sound => sound.of_stores sound.stores.leave (plumbing m)) plumbing

end Careful

/-! ## Signals -/

/-- What a channel accepts it had before, or it is the new signal. -/
theorem Channel.mem_backlog_of_accept {channel : Channel} {signal other : Signal}
    (mem : other ∈ (channel.accept signal).backlog) : other ∈ channel.backlog ∨ other = signal := by
  unfold accept at mem
  split at mem
  · exact Or.inl mem
  · exact (List.mem_append.1 mem).imp_right List.mem_singleton.1

/-- What is handed over has waited, and so has what waits behind it. -/
theorem Channel.mem_backlog_of_take? {channel channel' : Channel} {listener : Listener}
    {signal : Signal} (h : channel.take? = some (listener, signal, channel')) :
    signal ∈ channel.backlog ∧ ∀ other ∈ channel'.backlog, other ∈ channel.backlog := by
  unfold take? at h
  split at h <;> cases h
  next waiting =>
    rw [waiting]
    exact ⟨List.mem_cons_self, fun _ => List.mem_cons_of_mem _⟩

/-- A channel that has a listener has no duty. -/
theorem Roles.Fit.idle {roles : Roles} {m : Machine} (fit : roles.Fit m) {ref : Ref .channel}
    {listener : Listener} {busy : Bool}
    (attached : (m.channel ref).attachment = .listening listener busy) :
    roles.channel ref = .none :=
  Classical.byContradiction fun engaged => by
    rw [(fit.free engaged).2] at attached
    cases attached

/-- The roles fit whatever is done to a channel that keeps its listener or has no duty. -/
theorem Roles.Fit.setChannel {roles : Roles} {m : Machine} (fit : roles.Fit m) {ref : Ref .channel}
    {channel : Channel}
    (kept : roles.channel ref = .none ∨ channel.attachment = (m.channel ref).attachment) :
    roles.Fit (m.setChannel ref channel) := by
  refine fit.rewire rfl rfl fun other engaged has buffering => ⟨has.set _ _, ?_⟩
  rw [Machine.channel_setChannel]
  split
  · next same =>
    subst same
    exact (kept.resolve_left engaged).trans buffering
  · exact buffering

namespace Careful

section Delivery

variable {engine engine' : Engine}
  (h : ∀ ref, Careful (fun _ _ _ => True) (engine.deliver ref) (engine'.deliver ref))

include h

theorem emit (ref : Ref .channel) {signal : Signal} (free : signal.IsFree) :
    Careful (fun _ _ _ => True) (emit engine ref signal) (emit engine' ref signal) := by
  intro roles m sound fit
  replace sound : m.Sound := sound
  replace fit : roles.Fit m := fit
  have accepted : (m.setChannel ref ((m.channel ref).accept signal)).Sound := by
    refine sound.setChannel ref (fun other mem => ?_) fun probe busy => ?_
    · rcases Channel.mem_backlog_of_accept mem with mem | rfl
      · exact sound.backlog ref other mem
      · exact free
    · rw [Channel.attachment_accept]
      exact sound.listener ref probe busy
  have fits : roles.Fit (m.setChannel ref ((m.channel ref).accept signal)) :=
    fit.setChannel (Or.inr (Channel.attachment_accept ..))
  have keeps : roles.Keeps m roles (m.setChannel ref ((m.channel ref).accept signal)) :=
    (Roles.Keeps.refl roles m).rewire rfl rfl
  rw [emit_apply, emit_apply]
  split
  · exact (h ref roles _ accepted fits).rebase keeps fun _ _ h => h
  · exact .ended accepted fits keeps trivial

/-- A channel without a duty takes a listener, if it has none. -/
theorem subscribe {roles : Roles} {m : Machine} (sound : m.Sound) (fit : roles.Fit m)
    {ref : Ref .channel} (idle : roles.channel ref = .none)
    (buffering : (m.channel ref).attachment = .buffering) (listener : Listener)
    (harmless : ∀ probe, listener ≠ .probe probe) :
    Fine (fun _ result => result = .ok ()) roles m (subscribe engine ref listener m)
      (subscribe engine' ref listener m) := by
  have attached : (m.channel ref).attach? listener =
      some { m.channel ref with attachment := .listening listener false } := by
    rw [Channel.attach?, buffering]
  have safe : (m.setChannel ref
      { m.channel ref with attachment := .listening listener false }).Sound := by
    refine sound.setChannel ref (sound.backlog ref) fun probe busy same => ?_
    cases same
    exact harmless probe rfl
  have fits : roles.Fit (m.setChannel ref
      { m.channel ref with attachment := .listening listener false }) :=
    fit.setChannel (Or.inl idle)
  have keeps : roles.Keeps m roles (m.setChannel ref
      { m.channel ref with attachment := .listening listener false }) :=
    (Roles.Keeps.refl roles m).rewire rfl rfl
  rw [subscribe_apply, subscribe_apply, attached]
  exact ((h ref roles _ safe fits).rebase keeps fun _ _ h => h).map fun _ _ _ => rfl

variable (execute : ∀ code, Careful InUse (engine.execute code) (engine'.execute code))
  (call : ∀ native args, (∀ value ∈ args, value.isSuspension = false) →
    Careful InUse (engine.call native args) (engine'.call native args))

omit h in
include execute in
theorem runBody (ref : Ref .activation) {value : Value} (free : value.isSuspension = false) :
    Careful InUse (runBody engine ref value) (runBody engine' ref value) :=
  read fun _ sound => .andThen (.change (fun _ sound' =>
      sound'.stores.setActivation ref (sound.stores.slots ref) free) fun _ => rfl) fun _ _ =>
    .andThen (.withScene (execute _) _ ref) fun _ _ => .done trivial

include call in
theorem runCall (out : Ref .channel) (native : Native) {args : List Value}
    (free : ∀ value ∈ args, value.isSuspension = false) :
    Careful InUse (runCall engine out native args) (runCall engine' out native args) := by
  intro roles m sound fit
  refine (Careful.attempt (call native args free) roles m sound fit).andThen
    (fun _ _ ⟨_, same, _⟩ => by cases same) fun given m' roles' sound fit keeps ended => ?_
  obtain ⟨inner, same, decent⟩ := ended
  cases same
  cases given with
  | ok value =>
    have written : Careful _ (Wordstream.emit engine out (.next value)) _ := emit h out decent
    exact (written.lift roles' m' sound fit).rebase keeps fun _ _ h => h
  | error failure =>
    exact (Careful.refuse (by cases failure <;> rfl) roles' m' sound fit).rebase keeps
      fun _ _ h => h

include execute call in
theorem runStep {stage : Stage} (usual : stage.step.IsUsual) {value : Value}
    (free : value.isSuspension = false) :
    Careful InUse (runStep engine stage value) (runStep engine' stage value) := by
  unfold Wordstream.runStep
  cases step : stage.step with
  | body activation => exact runBody execute activation free
  | call native args =>
    rw [step] at usual
    exact runCall h call stage.out native fun other mem =>
      (List.mem_append.1 mem).elim (usual other) fun mem => List.mem_singleton.1 mem ▸ free

omit h in
/-- A stage may get a result that is no failure of using a suspension twice. -/
theorem finishStage (ref : Ref .stage) {result : Result} (decent : Decent result) :
    Careful (fun _ _ _ => True) (finishStage ref result) (finishStage ref result) := by
  intro roles m sound fit
  replace sound : m.Sound := sound
  replace fit : roles.Fit m := fit
  cases given : (m.stages.get ref).result with
  | some _ =>
    rw [finishStage_of_some result given]
    exact .ended sound fit (.refl roles m) trivial
  | none =>
    rw [finishStage_of_none result given]
    have safe := sound.setStage ref decent
    exact .ended (safe.of_stores (safe.stores.of_eq rfl rfl) rfl)
      (fit.rewire rfl rfl fun _ _ has buffering => ⟨has, buffering⟩)
      ((Roles.Keeps.refl roles m).rewire rfl rfl) trivial

/-- A stage ends, and so does its output. -/
theorem endStage (out : Ref .channel) (ref : Ref .stage) (signal : Signal) (free : signal.IsFree)
    (result : Result) (decent : Decent result) :
    Careful (fun _ _ _ => True)
      (Wordstream.emit engine out signal >>= fun _ => Wordstream.finishStage ref result)
      (Wordstream.emit engine' out signal >>= fun _ => Wordstream.finishStage ref result) :=
  fun roles m sound fit => (emit h out free roles m sound fit).bind
    fun _ m' roles' sound fit keeps _ =>
      (finishStage ref decent roles' m' sound fit).rebase keeps fun _ _ h => h

include execute call in
theorem deliverToStage (ref : Ref .stage) {signal : Signal} (free : signal.IsFree) :
    Careful (fun _ _ _ => True) (deliverToStage engine ref signal)
      (deliverToStage engine' ref signal) := by
  intro roles m sound fit
  replace sound : m.Sound := sound
  cases signal with
  | next value =>
    rw [deliverToStage_next, deliverToStage_next]
    split
    · refine (runStep h execute call (sound.step ref) free roles m sound fit).bind
        fun result m' roles' sound fit keeps decent => ?_
      cases result with
      | ok _ => exact .ended sound fit keeps trivial
      | error failure =>
        exact (endStage h _ ref (.failed failure) decent (.error failure) decent roles' m' sound
          fit).rebase keeps fun _ _ h => h
    · exact .ended sound fit (.refl roles m) trivial
  | failed failure =>
    exact endStage h _ ref (.failed failure) free (.error failure) free roles m sound fit
  | complete => exact endStage h _ ref .complete trivial (.ok ()) trivial roles m sound fit

include execute call in
theorem deliverTo {listener : Listener} (harmless : ∀ probe, listener ≠ .probe probe)
    {signal : Signal} (free : signal.IsFree) :
    Careful (fun _ _ _ => True) (deliverTo engine listener signal)
      (deliverTo engine' listener signal) := by
  cases listener with
  | forward target => exact emit h target free
  | collector ref =>
    exact fun roles m sound fit => .ended
      ⟨sound.stores.of_eq rfl rfl, sound.backlog, sound.listener, sound.step, sound.heard,
        sound.work, sound.ready, sound.writing, sound.finished, sound.resumed, sound.unique⟩
      (Roles.Fit.rewire fit rfl rfl fun _ _ has buffering => ⟨has, buffering⟩)
      ((Roles.Keeps.refl roles m).rewire rfl rfl) trivial
  | stage ref => exact deliverToStage h execute call ref free
  | probe ref => exact absurd rfl (harmless ref)

include execute call in
theorem deliverAll (ref : Ref .channel) :
    Careful (fun _ _ _ => True) (deliverAll engine ref) (deliverAll engine' ref) := by
  intro roles m sound fit
  replace sound : m.Sound := sound
  replace fit : roles.Fit m := fit
  rw [deliverAll_apply, deliverAll_apply]
  cases taken : (m.channel ref).take? with
  | none =>
    have backlog : (m.channel ref).release.backlog = (m.channel ref).backlog := by
      unfold Channel.release
      split <;> rfl
    have safe : (m.setChannel ref (m.channel ref).release).Sound := by
      refine sound.setChannel ref (backlog ▸ sound.backlog ref) fun probe _ attached => ?_
      obtain ⟨busy, attached⟩ := Channel.attachment_of_release attached
      exact sound.listener ref probe busy attached
    -- A channel that somebody listens to has no role, so its listener may come to rest.
    have kept : roles.channel ref = .none ∨
        (m.channel ref).release.attachment = (m.channel ref).attachment := by
      unfold Channel.release
      split
      · next attached => exact Or.inl (fit.idle attached)
      · exact Or.inr rfl
    exact .ended safe (fit.setChannel kept) ((Roles.Keeps.refl roles m).rewire rfl rfl) trivial
  | some next =>
    obtain ⟨listener, signal, channel⟩ := next
    obtain ⟨⟨busy, attached⟩, after⟩ := Channel.attachment_of_take? taken
    obtain ⟨waited, behind⟩ := Channel.mem_backlog_of_take? taken
    -- A probe writes whatever it likes, suspensions too, so none may be among the listeners.
    have harmless (probe : Ref .probe) : listener ≠ .probe probe := by
      rintro rfl
      exact sound.listener ref probe busy attached
    have safe : (m.setChannel ref channel).Sound := by
      refine sound.setChannel ref (fun other mem => sound.backlog ref other (behind other mem))
        fun probe _ same => ?_
      rw [after] at same
      cases same
      exact harmless probe rfl
    have keeps : roles.Keeps m roles (m.setChannel ref channel) :=
      (Roles.Keeps.refl roles m).rewire rfl rfl
    refine ((deliverTo h execute call harmless (sound.backlog ref signal waited) roles _ safe
      (fit.setChannel (Or.inl (fit.idle attached)))).rebase keeps fun _ _ h => h).bind
        fun _ m' roles' sound fit keeps _ => ?_
    exact (h ref roles' m' sound fit).rebase keeps fun _ _ h => h

end Delivery

end Careful

/-! ## Suspensions -/

/-- A suspension on which nobody counts is resumed, unless it does not take the input. -/
theorem Roles.Fit.of_resume {roles : Roles} {m : Machine} (fit : roles.Fit m) (sound : m.Sound)
    {ref : Ref .suspension} {input : Option (Ref .channel)}
    (vacant : roles.Vacant (roles.suspension ref))
    (void : ∀ channel, input = some channel →
      roles.Void (roles.channel channel) ∧ roles.channel channel ≠ .none) :
    Wordstream.resume ref input m = (some (.error .missingInputCapability), m) ∨ ∃ work,
      Wordstream.resume ref input m = (some (.ok m.tasks.next), (m.startTask ref work input).2) ∧
      (m.startTask ref work input).2.Sound ∧
      (roles.resume ref m.tasks.next input).Fit (m.startTask ref work input).2 := by
  have created : (m.suspension ref).phase = .created := by
    refine fit.created fun spent => ?_
    rw [spent] at vacant
    exact vacant
  obtain ⟨work, pending⟩ := Option.isSome_iff_exists.1 (fit.pending created)
  rw [resume_apply, if_neg (not_not_intro created)]
  split
  · exact Or.inl rfl
  · rw [pending]
    exact Or.inr ⟨work, rfl, sound.startTask created pending input, fit.resume vacant pending void⟩

/-- A suspension that is in hand is resumed, and its task is in use. -/
theorem Fine.autoResume {roles roles' : Roles} {m m' : Machine} (sound : m'.Sound)
    (fit : roles'.Fit m') (keeps : roles.Keeps m roles' m') {value : Value}
    (inHand : InHand roles roles' (.ok value)) :
    Fine (InUse roles) roles m (autoResume value m') (autoResume value m') := by
  cases value with
  | suspension ref =>
    obtain ⟨unheld, unjoined, loose⟩ := inHand
    have vacant : roles'.Vacant (roles'.suspension ref) := by rw [loose]; trivial
    rcases fit.of_resume sound vacant
      (fun channel (fed : Option.none = some channel) => by cases fed)
      with refused | ⟨work, resumed, safe, fits⟩
    · rw [Wordstream.autoResume, Run.bind_apply, refused]
      exact .ended sound fit keeps rfl
    · have auto : Wordstream.autoResume (.suspension ref) m' = (some (.ok (.task m'.tasks.next)),
          { (m'.startTask ref work none).2 with pending := m'.pending ++ [m'.tasks.next] }) := by
        rw [Wordstream.autoResume, Run.bind_apply, resumed]
        rfl
      have kept := keeps.start unheld unjoined (.task m'.tasks.next) work none
      rw [auto]
      exact .ended (safe.of_stores (safe.stores.of_eq rfl rfl) rfl) (fits.aside rfl)
        (kept.aside rfl) rfl
  | _ => exact .ended sound fit keeps inHand

namespace Careful

theorem keepResult {roles roles' : Roles} {m : Machine} {reader : Reader}
    (sound : reader.machine.Sound) (fit : roles'.Fit reader.machine)
    (keeps : roles.Keeps m roles' reader.machine) {post : Roles → Except Failure Value → Prop}
    {value : Value} (holds : post roles' (.ok value)) :
    Fine post roles m (keepResult value reader) (keepResult value reader) :=
  .ended (sound.of_stores (sound.stores.of_eq rfl rfl) rfl) (fit.aside rfl) (keeps.aside rfl) holds

/-- A value that is taken into use is no suspension any more. -/
theorem use {action action' : Run Reader Value} (h : Careful InHand action action') :
    Careful InUse
      (action >>= fun value => Wordstream.onMachine (autoResume value) >>= Wordstream.keepResult :
        Run Reader Value)
      (action' >>= fun value => Wordstream.onMachine (autoResume value) >>= Wordstream.keepResult :
        Run Reader Value) := by
  intro roles reader sound fit
  refine (h roles reader sound fit).andThen (fun _ _ ordinary => ordinary)
    fun value reader' roles' sound fit keeps inHand => ?_
  have resumed := (Fine.autoResume sound fit keeps inHand).onMachine
  exact resumed.andThen (fun _ _ ordinary => ordinary) fun _ _ _ sound fit keeps free =>
    keepResult sound fit keeps free

theorem keep {action action' : Run Reader Value} (h : Careful InHand action action') :
    Careful InHand (action >>= Wordstream.keepResult : Run Reader Value)
      (action' >>= Wordstream.keepResult : Run Reader Value) :=
  fun roles reader sound fit => (h roles reader sound fit).andThen (fun _ _ ordinary => ordinary)
    fun _ _ _ sound fit keeps inHand => keepResult sound fit keeps inHand

/-- A new suspension is in hand. -/
theorem suspend {work : Work} (free : work.IsFree) (acceptsInput : Bool) (mime : Option String) :
    Careful InHand (suspend work acceptsInput mime) (suspend work acceptsInput mime) := by
  intro roles m sound fit
  have usual (other : Work) (same : some work = some other) : other.IsUsual := by
    cases same
    exact free.isUsual
  have kept : roles.Keeps m _ _ := ((Roles.Keeps.refl roles m).newChannel fit
    (.output m.suspensions.next)).enrol fit.spent_next
      ⟨.created, some work, m.channels.next, acceptsInput, mime⟩
  exact .ended ((Machine.Sound.newChannel sound).newSuspension usual)
    (Roles.Fit.suspend fit free acceptsInput mime) kept (.new fit.spent_next (if_pos rfl))

/-- A suspended body is in hand, and there is no suspension in its slots. -/
theorem suspendBody (definition : StreamDefinition) {args : List Value}
    (free : ∀ value ∈ args, value.isSuspension = false) :
    Careful InHand (suspendBody definition args) (suspendBody definition args) := by
  intro roles m sound fit
  -- But for the activation it is the same as to suspend any other work.
  have body : Work.IsFree (.body m.activations.next) := trivial
  have suspended := suspend body definition.acceptsInput none roles m sound fit
  obtain ⟨roles', fit, keeps, inHand⟩ := suspended.fit rfl
  refine .ended (suspended.sound.of_stores (suspended.sound.stores.newActivation ?_ rfl) rfl)
    (fit.aside rfl) (keeps.aside rfl) inHand
  exact Machine.isSuspension_of_mem_padded free

/-- Two suspensions in hand are piped together without refusal, unless the right one takes no
input; so the pipe is in hand. -/
theorem pipe {engine engine' : Engine}
    (h : ∀ ref, Careful (fun _ _ _ => True) (engine.deliver ref) (engine'.deliver ref))
    {roles roles' : Roles} {m m' : Machine} (sound : m'.Sound) (fit : roles'.Fit m')
    (keeps : roles.Keeps m roles' m') {left right : Ref .suspension}
    (first : InHand roles roles' (.ok (.suspension left)))
    (second : InHand roles roles' (.ok (.suspension right))) (sides : left ≠ right) :
    Fine (fun final result => InHand roles final (result.map Value.suspension)) roles m
      (pipe engine left right m') (pipe engine' left right m') := by
  obtain ⟨left_unheld, left_unjoined, left_loose⟩ := first
  obtain ⟨right_unheld, right_unjoined, right_loose⟩ := second
  have left_new : (m'.suspension left).phase = .created := fit.created (by rw [left_loose]; nofun)
  have right_new : (m'.suspension right).phase = .created :=
    fit.created (by rw [right_loose]; nofun)
  rw [pipe_apply, pipe_apply]
  split
  · exact .ended sound fit keeps rfl
  · rw [if_neg (by simp [left_new, right_new]), if_neg (by simp [left_new, right_new])]
    have output : roles'.channel (m'.suspension left).out ≠ .none := by
      rw [fit.output left_loose]
      nofun
    have apart : m'.channels.next ≠ (m'.suspension left).out := fun same =>
      output (same ▸ fit.idle_next)
    -- The left side is linked first, while the right one is still loose.
    have kept := keeps.link fit left_loose left_unheld left_unjoined
    have linked := subscribe h sound.newChannel (fit.link left_loose) (if_pos rfl)
      (fit.newChannel.free output).2 (.forward m'.channels.next) nofun
    obtain ⟨same, sound, ended⟩ := linked
    rw [same]
    generalize Wordstream.subscribe engine (m'.suspension left).out (.forward m'.channels.next)
      m'.newChannel.2 = ran at sound ended
    obtain ⟨_ | result, linked⟩ := ran
    · exact .stopped sound
    · obtain ⟨roles'', fit', keeps', rfl⟩ := ended rfl
      have joined : roles''.suspension left = .joined := keeps'.joined (if_pos rfl)
      obtain ⟨loose, cell⟩ := keeps'.loose ((if_neg sides.symm).trans right_loose)
      have linking : roles''.channel m'.channels.next = .linking :=
        keeps'.linking ((if_neg apart).trans (if_pos rfl))
      -- The channel between the sides is new, so it had no role before.
      have unlinked : roles.channel m'.channels.next ≠ .linking := fun linking =>
        absurd (keeps.linking linking) (by rw [fit.idle_next]; nofun)
      have out : (m'.suspension right).out = (linked.suspension right).out :=
        (congrArg Suspension.out cell).symm
      have kept := kept.trans keeps'
      rw [out]
      refine .ended (sound.newSuspension fun _ same => ?_)
        (fit'.join joined loose linking (m'.suspension left).acceptsInput none)
        (kept.join fit' joined loose unlinked left_unheld left_unjoined right_unheld
          right_unjoined _)
        (InHand.rebase kept (.new fit'.spent_next (if_pos rfl)))
      cases same
      trivial

/-- A pipe reads its two sides, and has both of them in hand. -/
theorem performPipe {engine engine' : Engine}
    (h : ∀ ref, Careful (fun _ _ _ => True) (engine.deliver ref) (engine'.deliver ref))
    (deferred : Careful InHand (engine.read .deferred) (engine'.read .deferred)) :
    Careful InHand (performPipe engine) (performPipe engine') := by
  intro roles reader sound fit
  refine (deferred roles reader sound fit).andThen (fun _ _ ordinary => ordinary)
    fun left reader₁ roles₁ sound₁ fit₁ keeps₁ first => ?_
  refine ((deferred roles₁ reader₁ sound₁ fit₁).hold.rebase keeps₁ fun _ _ h => h).andThen
    (fun _ _ ⟨ordinary, _⟩ => ordinary) fun right reader₂ roles₂ sound₂ fit₂ keeps₂ both => ?_
  obtain ⟨second, held⟩ := both
  split
  · next left right =>
    have sides : left ≠ right := by
      rintro rfl
      exact second.1 first.2.2
    have piped := pipe h sound₂ fit₂ keeps₂ ⟨first.1, first.2.1, held left first.2.2⟩
      (second.rebase keeps₁) sides
    exact piped.onMachine.andThen (fun _ _ ordinary => ordinary) fun _ _ _ sound fit keeps inHand =>
      .ended sound fit keeps inHand
  · exact .ended sound₂ fit₂ keeps₂ rfl

end Careful

/-- What is written on scene is no suspension. -/
theorem Careful.writeOnScene {engine engine' : Engine}
    (h : ∀ ref, Careful (fun _ _ _ => True) (engine.deliver ref) (engine'.deliver ref))
    (scene : Ref .scene) {value : Value} (free : value.isSuspension = false) :
    Careful InUse (writeOnScene engine scene value) (writeOnScene engine' scene value) := by
  intro roles m sound fit
  rw [writeOnScene_apply, writeOnScene_apply]
  cases m.scenes.get scene with
  | none => exact .ended sound fit (.refl roles m) rfl
  | some activation =>
    have written :
        Careful _ (Wordstream.emit engine (m.activations.get activation).out (.next value)) _ :=
      emit h _ free
    exact (written roles m sound fit).map fun _ _ _ => free

/-- The discipline of careful computations. -/
def thrift : Discipline where
  limit n := n
  strict := True
  Fits := Careful InUse
  Yields := Careful InHand
  Hands _ := Careful fun _ _ _ => True
  stir {_ _ _ _ action} h _ free ordinary := fun roles state sound fit => by
    have stirred := h state
    refine ⟨rfl, sound.stirs stirred, fun {result} ended => ⟨roles, fit.aside stirred.plumbing_eq,
      (Roles.Keeps.refl roles _).aside stirred.plumbing_eq, ?_⟩⟩
    cases result with
    | error failure => exact ordinary trivial state failure ended
    | ok result => exact free trivial state result ended
  read _ after := .read fun state sound => after state fun _ => sound.stores
  andThen before after := before.andThen fun result free => after result fun _ => free
  onMachine h := h.onMachine
  withCursor h cursor := h.withCursor cursor
  yield h := h.inHand
  readYield _ after := .read fun state sound => after state fun _ => sound.stores
  andYield before after := before.andHand fun result free => after result fun _ => free
  yieldOnMachine h := h.onMachine
  use h := h.use
  keep h := h.keep
  frame h ref _ free := .runFrame h ref (free trivial)
  suspend _ _ free acceptsInput mime := .suspend (free trivial) acceptsInput mime
  suspendBody definition _ free := .suspendBody definition (free trivial)
  write h scene _ free := .writeOnScene h scene (free trivial)
  pipe h deferred := .performPipe h deferred

/-! ## Watching -/

/-- Go on with a value unless it is a suspension; then raise the alarm and stop. -/
def watchResult {σ : Type} [HasMachine σ] (alarm : Machine → Machine) (action : Run σ Value) :
    Run σ Value :=
  fun state => match action state with
    | (some (.ok (.suspension _)), state) => (none, HasMachine.change alarm state)
    | ran => ran

namespace Engine

/-- Raise the alarm and stop when executing code or reading a value gives a suspension, deferred
values apart, and when a function is called with a suspension among its arguments. -/
def watchedBy (alarm : Machine → Machine) (engine : Engine) : Engine where
  execute code := watchResult alarm (engine.execute code)
  read
    | .whole => watchResult alarm (engine.read .whole)
    | .operand => watchResult alarm (engine.read .operand)
    | .deferred => engine.read .deferred
  deliver ref := engine.deliver ref
  call native args :=
    if args.any Value.isSuspension then fun m => (none, alarm m) else engine.call native args
  hostAction name := engine.hostAction name
  hostOperator name left right := engine.hostOperator name left right

/-- The calls that some fuel allows, up to the first at which a condition on the machine holds or
the alarm is raised. -/
def watched (host : Host) (alarm : Machine → Machine) (stop : Machine → Bool) : Nat → Engine
  | 0 => exhausted
  | fuel + 1 => ((step host (watched host alarm stop fuel)).watchedBy alarm).stoppedBy stop

end Engine

namespace Careful

variable {σ α : Type} [HasMachine σ]

theorem unlessStopped {post : Roles → Roles → α → Prop} {action action' : Effect σ α}
    (h : Careful post action action') (stop : Machine → Bool) :
    Careful post (unlessStopped stop action) (unlessStopped stop action') := by
  intro roles state sound fit
  unfold Wordstream.unlessStopped
  split
  · exact .stopped sound
  · exact h roles state sound fit

/-- No alarm is raised by a result that is in use. -/
theorem watchResult {action action' : Run σ Value} (h : Careful InUse action action')
    (alarm : Machine → Machine) : Careful InUse action (Wordstream.watchResult alarm action') := by
  intro roles state sound fit
  have fine := h roles state sound fit
  refine ⟨?_, fine.sound, fine.fit⟩
  rw [Wordstream.watchResult, fine.same]
  split
  · next ended =>
    obtain ⟨_, _, _, free⟩ := fine.fit (congrArg Prod.fst ended)
    cases free
  · rfl

end Careful

/-- Evaluation is careful, however much fuel it has and wherever it is interrupted, and it is the
same when it is watched. -/
theorem Engine.careful_watched (alarm : Machine → Machine) (stop : Machine → Bool) (fuel : Nat) :
    thrift.Relates (interrupted .none stop fuel) (watched .none alarm stop fuel) := by
  induction fuel with
  | zero =>
    have never {σ α : Type} [HasMachine σ] (post : Roles → Roles → α → Prop) :
        Careful post (outOfFuel : Effect σ α) outOfFuel := fun _ _ sound _ => .stopped sound
    exact ⟨fun _ => never _, fun _ _ => never _, never _, fun _ => never _, fun _ _ _ => never _,
      fun _ => never _, fun _ _ _ _ _ => never _⟩
  | succ fuel ih =>
    have next := ih.step thrift.admits_none fun ref => Careful.deliverAll ih.deliver ih.execute
      (fun native args free => ih.call native args fun _ => free) ref
    refine ⟨fun code => ((next.execute code).watchResult alarm).unlessStopped stop,
      fun reading use => ?_, next.deferred.unlessStopped stop,
      fun ref => (next.deliver ref).unlessStopped stop, fun native args free => ?_,
      fun name => (next.hostAction name).unlessStopped stop,
      fun name left right freeLeft freeRight =>
        (next.hostOperator name left right freeLeft freeRight).unlessStopped stop⟩
    · cases reading with
      | whole => exact (next.whole.watchResult alarm).unlessStopped stop
      | operand => exact (next.operand.watchResult alarm).unlessStopped stop
      | deferred => exact absurd rfl use
    · -- Watching makes a difference only where a suspension is among the arguments.
      have quiet : args.any Value.isSuspension = false := by
        rw [List.any_eq_false]
        exact fun value mem => Bool.eq_false_iff.1 (free trivial value mem)
      have called := (next.call native args free).unlessStopped stop
      change Careful InUse _ (Wordstream.unlessStopped stop (if args.any Value.isSuspension then _
        else _))
      rw [if_neg (Bool.eq_false_iff.1 quiet)]
      exact called

end Wordstream
