import Wordstream.Proofs.Library
import Wordstream.Proofs.Demand

/-!
# The limit on calls

A machine counts its active calls and refuses one that would be beyond its limit. That refusal is
all that the limit is for: an evaluation that ends in any other way ends in the same way under
every higher limit, and leaves the same machine.

The two evaluations run in lock step. There is one place where a refusal would not come to light:
a stage that takes values from a channel turns the failure of a step into a signal, and the writer
goes on. So none of the channels that evaluation can write to, directly or through others, may
lead to a stage.

## Main results

* `Engine.raises_ofFuel` — evaluation under a higher limit follows evaluation under a lower one
* `evaluate_relimit` — an evaluation that does not reach its limit does not depend on it
-/

namespace Wordstream

open HasMachine (machine)

namespace Machine

/-- Who may hear what evaluation writes: the outputs of the activations on scene, who listens to a
channel that may hear it, and the channel that a probe answers on. -/
inductive Hears (m : Machine) : Listener → Prop
  | output {scene : Ref .scene} {activation : Ref .activation}
      (on : m.scenes.get scene = some activation) :
      Hears m (.forward (m.activations.get activation).out)
  | attached {ref : Ref .channel} {listener : Listener} {busy : Bool} (h : Hears m (.forward ref))
      (attached : (m.channel ref).attachment = .listening listener busy) : Hears m listener
  | answer {probe : Ref .probe} (h : Hears m (.probe probe)) :
      Hears m (.forward (m.probes.get probe).channel)

/-- A machine with a limit on calls, in which only some listeners may hear what evaluation writes,
and no stage among them. -/
structure Calm (limit : Nat) (within : Listener → Prop) (m : Machine) : Prop where
  limited : m.config.maxCallDepth = limit
  output {scene : Ref .scene} {activation : Ref .activation}
    (on : m.scenes.get scene = some activation) :
    within (.forward (m.activations.get activation).out)
  attached {ref : Ref .channel} {listener : Listener} {busy : Bool} (h : within (.forward ref))
    (attached : (m.channel ref).attachment = .listening listener busy) : within listener
  answer {probe : Ref .probe} (h : within (.probe probe)) :
    within (.forward (m.probes.get probe).channel)
  stageless (stage : Ref .stage) : ¬ within (.stage stage)

/-- A machine is calm if no stage may hear what evaluation writes. -/
theorem calm_of_hears {m : Machine} {limit : Nat} (limited : m.config.maxCallDepth = limit)
    (stageless : ∀ stage, ¬ m.Hears (.stage stage)) : m.Calm limit m.Hears :=
  ⟨limited, .output, .attached, .answer, stageless⟩

/-- Nobody hears anything where nobody is on scene. -/
theorem not_hears {m : Machine} (off : ∀ scene, m.scenes.get scene = none) (listener : Listener) :
    ¬ m.Hears listener := by
  intro h
  induction h with
  | @output scene _ on =>
    rw [off scene] at on
    cases on
  | attached _ _ ih => exact ih
  | answer _ ih => exact ih

namespace Calm

variable {limit : Nat} {within : Listener → Prop} {m m' : Machine}

/-- What evaluation does by itself leaves a machine calm. -/
theorem stirs (h : m.Calm limit within) {strict : Prop} (stirred : m.Stirs strict m') :
    m'.Calm limit within := by
  induction stirred with
  | @aside m m' bearings holdings _ =>
    have footing := footing_of_bearings bearings
    have plumbing := plumbing_of_bearings bearings
    have config : m'.config = m.config := congrArg Footing.config footing
    have scenes : m'.scenes = m.scenes := congrArg Footing.scenes footing
    have channels : m'.channels = m.channels := congrArg Plumbing.channels plumbing
    have probes : m'.probes = m.probes := congrArg Plumbing.probes plumbing
    have activations : m'.activations = m.activations := congrArg Prod.snd holdings
    refine ⟨?_, fun on => ?_, fun inside attached => ?_, fun inside => ?_, h.stageless⟩
    · rw [config]
      exact h.limited
    · rw [activations]
      exact h.output (scenes ▸ on)
    · exact h.attached inside (by rw [channel, channels] at attached; exact attached)
    · rw [probes]
      exact h.answer inside
  | assign | dictionary | define | store =>
    exact ⟨h.limited, h.output, h.attached, h.answer, h.stageless⟩
  | @cell m _ ref _ index value _ =>
    refine ⟨h.limited, fun {scene activation} on => ?_, h.attached, h.answer, h.stageless⟩
    -- Only the slots of the activation change, and calm is about where it writes.
    have out : ((m.activations.set ref { m.activations.get ref with
        slots := (m.activations.get ref).slots.set index value }).get activation).out =
          (m.activations.get activation).out := by
      rw [Arena.get_set]
      split
      · next same => rw [same]
      · rfl
    exact out.symm ▸ h.output on
  | scene m =>
    refine ⟨h.limited, fun {scene _} on => ?_, h.attached, h.answer, h.stageless⟩
    change (m.scenes.alloc none).get scene = _ at on
    rw [Arena.get_alloc] at on
    split at on
    · cases on
    · exact h.output on
  | trans _ _ first second => exact second (first h)

/-- A channel may change as long as it keeps its listener. -/
theorem setChannel (h : m.Calm limit within) {ref : Ref .channel} {channel : Channel}
    (heard : ∀ listener busy, channel.attachment = .listening listener busy →
      within (.forward ref) → within listener) : (m.setChannel ref channel).Calm limit within := by
  refine ⟨h.limited, h.output, fun {other _ _} inside attached => ?_, h.answer, h.stageless⟩
  rw [channel_setChannel] at attached
  split at attached
  · next same =>
    rw [same] at inside
    exact heard _ _ attached inside
  · exact h.attached inside attached

/-- A probe may change as long as it keeps its channel. -/
theorem setProbe (h : m.Calm limit within) {ref : Ref .probe} {probe : Probe}
    (same : probe.channel = (m.probes.get ref).channel) :
    (m.setProbe ref probe).Calm limit within := by
  refine ⟨h.limited, h.output, h.attached, fun {other} inside => ?_, h.stageless⟩
  have channel : ((m.probes.set ref probe).get other).channel = (m.probes.get other).channel := by
    rw [Arena.get_set]
    split
    · next at_ref => rw [same, at_ref]
    · rfl
  exact channel.symm ▸ h.answer inside

/-- Nobody listens to a new channel. -/
theorem newChannel (h : m.Calm limit within) : m.newChannel.2.Calm limit within := by
  refine ⟨h.limited, h.output, fun {ref _ _} inside attached => ?_, h.answer, h.stageless⟩
  change ((m.channels.alloc .fresh).get ref).attachment = _ at attached
  rw [Arena.get_alloc] at attached
  split at attached
  · cases attached
  · exact h.attached inside attached

/-- With a new activation that has a new output, evaluation can be heard on that output also. -/
theorem newActivation (h : m.Calm limit within) (activation : Activation)
    (out : activation.out = m.channels.next) :
    Calm limit (fun listener => within listener ∨ listener = .forward m.channels.next)
      { m with
        channels := m.channels.alloc .fresh
        activations := m.activations.alloc activation } := by
  refine ⟨h.limited, fun {scene ref} on => ?_, fun {ref _ _} inside attached => ?_,
    fun inside => ?_, fun stage inside => ?_⟩
  · change _ ∨ Listener.forward ((m.activations.alloc activation).get ref).out = _
    rw [Arena.get_alloc]
    split
    · exact Or.inr (congrArg _ out)
    · exact Or.inl (h.output on)
  · change ((m.channels.alloc .fresh).get ref).attachment = _ at attached
    rw [Arena.get_alloc] at attached
    split at attached
    · cases attached
    · next old =>
      refine inside.elim (fun inside => Or.inl (h.attached inside attached)) fun new => ?_
      cases new
      exact absurd rfl old
  · exact Or.inl (h.answer (inside.resolve_right nofun))
  · exact h.stageless stage (inside.resolve_right nofun)

/-- With the output of a suspension relayed to a new channel, evaluation may be heard on both. -/
theorem relayed (h : m.Calm limit within) (out : Ref .channel) {channel : Channel}
    (forwards : channel.attachment = .listening (.forward m.channels.next) false) :
    Calm limit
      (fun listener => within listener ∨ listener = .forward out ∨
        listener = .forward m.channels.next)
      (m.newChannel.2.setChannel out channel) := by
  refine ⟨h.limited, fun on => Or.inl (h.output on), fun {ref _ _} inside attached => ?_,
    fun inside => ?_, fun stage inside => ?_⟩
  · rw [channel_setChannel] at attached
    split at attached
    · rw [forwards] at attached
      cases attached
      exact Or.inr (Or.inr rfl)
    · next other =>
      change ((m.channels.alloc .fresh).get ref).attachment = _ at attached
      rw [Arena.get_alloc] at attached
      split at attached
      · cases attached
      · next old =>
        refine Or.inl (h.attached (inside.resolve_right ?_) attached)
        rintro (same | same) <;> cases same
        · exact other rfl
        · exact old rfl
  · exact Or.inl (h.answer (inside.resolve_right (by rintro (same | same) <;> cases same)))
  · exact h.stageless stage (inside.resolve_right (by rintro (same | same) <;> cases same))

/-- A call can be entered and left in calm. -/
theorem leave (h : m.Calm limit within) : m.leave.Calm limit within := by
  unfold Machine.leave
  cases m.calls with
  | nil => exact h
  | cons call calls => exact ⟨h.limited, h.output, h.attached, h.answer, h.stageless⟩

end Calm

/-- Leaving a call has nothing to do with the limit. -/
theorem leave_relimit (change : Nat → Nat) (m : Machine) :
    (m.relimit change).leave = m.leave.relimit change := by
  cases calls : m.calls with
  | nil =>
    have calls' : (m.relimit change).calls = [] := calls
    unfold leave
    rw [calls', calls]
  | cons call rest =>
    have calls' : (m.relimit change).calls = call :: rest := calls
    rw [leave_of_calls calls, leave_of_calls calls']
    rfl

/-- What is seen of a value has nothing to do with the limit. -/
theorem snapshotWithin_relimit (limit : Nat → Nat) (m : Machine) (depth : Nat)
    (path : List (Ref .dictionary)) (value : Value) :
    (m.relimit limit).snapshotWithin depth path value = m.snapshotWithin depth path value := by
  induction depth generalizing path value with
  | zero => cases value <;> simp only [snapshotWithin, display_relimit] <;> rfl
  | succ depth ih =>
    cases value <;> simp only [snapshotWithin, display_relimit, display?_relimit, ih] <;> rfl

end Machine

/-- What a probe sees of a signal has nothing to do with the limit. -/
theorem sighting_relimit (limit : Nat → Nat) (m : Machine) (signal : Signal) :
    sighting (m.relimit limit) signal = sighting m signal := by
  cases signal with
  | next value => exact congrArg Sighting.next (m.snapshotWithin_relimit limit _ _ value)
  | failed | complete => rfl

/-! ## Handing over -/

/-- An effect that ends has its like under another limit, and what may be heard stays within. -/
def Carries (limit limit' : Nat) (within : Listener → Prop) {α : Type}
    (action action' : Effect Machine α) : Prop :=
  ∀ m result m', m.Calm limit within → action m = (some result, m') →
    action' (m.relimit fun _ => limit') = (some result, m'.relimit fun _ => limit') ∧
      m'.Calm limit within

namespace Carries

variable {limit limit' : Nat} {within : Listener → Prop} {α β : Type}

/-- A change that has nothing to do with the limit. -/
theorem change {change : Machine → Machine}
    (blind : ∀ m : Machine, change (m.relimit fun _ => limit') = (change m).relimit fun _ => limit')
    (calm : ∀ m : Machine, m.Calm limit within → (change m).Calm limit within) :
    Carries limit limit' within (modify change) (modify change) := by
  intro m result m' h ended
  cases ended
  exact ⟨congrArg (Prod.mk _) (blind m), calm m h⟩

theorem done (result : α) :
    Carries limit limit' within (pure result : Effect Machine α) (pure result) := by
  intro m _ _ h ended
  cases ended
  exact ⟨rfl, h⟩

/-- Looking at the machine, as long as the limit makes no difference. -/
theorem read {next next' : Machine → Effect Machine α}
    (blind : ∀ m : Machine, next' (m.relimit fun _ => limit') = next' m)
    (after : ∀ m : Machine, m.Calm limit within →
      Carries limit limit' within (next m) (next' m)) :
    Carries limit limit' within (get >>= next) (get >>= next') := by
  intro m result m' h ended
  rw [Effect.get_bind_apply] at ended ⊢
  rw [blind]
  exact after m h m result m' h ended

theorem bind {first first' : Effect Machine α} {next next' : α → Effect Machine β}
    (before : Carries limit limit' within first first')
    (after : ∀ result, Carries limit limit' within (next result) (next' result)) :
    Carries limit limit' within (first >>= next) (first' >>= next') := by
  intro m result m' h ended
  rw [Effect.bind_apply] at ended ⊢
  cases ran : first m with
  | mk outcome middle =>
    rw [ran] at ended
    cases outcome with
    | none => cases ended
    | some given =>
      obtain ⟨same, calm⟩ := before m given middle h ran
      rw [same]
      exact after given middle result m' calm ended

theorem recordExchange (ref : Ref .probe) (exchange : Exchange) :
    Carries limit limit' within (recordExchange ref exchange) (recordExchange ref exchange) :=
  .change (fun _ => rfl) fun _ h => h.setProbe rfl

theorem logSighting (ref : Ref .probe) (sighting : Sighting) :
    Carries limit limit' within (logSighting ref sighting) (logSighting ref sighting) :=
  .change (fun _ => rfl) fun _ h => h.setProbe rfl

section Delivery

variable {engine engine' : Engine}
  (h : ∀ ref, within (.forward ref) →
    Carries limit limit' within (engine.deliver ref) (engine'.deliver ref))

include h

theorem emit {ref : Ref .channel} (heard : within (.forward ref)) (signal : Signal) :
    Carries limit limit' within (emit engine ref signal) (emit engine' ref signal) := by
  intro m result m' calm ended
  have accepted : (m.setChannel ref ((m.channel ref).accept signal)).Calm limit within :=
    calm.setChannel fun _ _ attached inside =>
      calm.attached inside ((Channel.attachment_accept ..).symm.trans attached)
  rw [emit_apply] at ended
  rw [emit_apply]
  change (if (m.channel ref).mustDeliver then _ else _) = _ ∧ _
  split at ended
  · next due =>
    rw [if_pos due]
    exact h ref heard _ _ _ accepted ended
  · next waiting =>
    rw [if_neg waiting]
    cases ended
    exact ⟨rfl, accepted⟩

theorem subscribe {ref : Ref .channel} (heard : within (.forward ref)) {listener : Listener}
    (hears : within listener) :
    Carries limit limit' within (outcome (subscribe engine ref listener))
      (outcome (subscribe engine' ref listener)) := by
  intro m result m' calm ended
  have same_channel : (m.relimit fun _ => limit').channel ref = m.channel ref := rfl
  rw [outcome_apply, subscribe_apply] at ended ⊢
  rw [same_channel]
  cases free : (m.channel ref).attach? listener with
  | none =>
    rw [free] at ended
    cases ended
    exact ⟨rfl, calm⟩
  | some channel =>
    rw [free] at ended
    -- The new listener is one of those that may hear.
    have attached : (m.setChannel ref channel).Calm limit within := by
      refine calm.setChannel fun other busy attached _ => ?_
      rw [Channel.attachment_of_attach? free] at attached
      cases attached
      exact hears
    cases ran : engine.deliver ref (m.setChannel ref channel) with
    | mk given after =>
      dsimp only at ended
      rw [ran] at ended
      cases given with
      | none => cases ended
      | some _ =>
        cases ended
        obtain ⟨same, calm⟩ := h ref heard _ _ _ attached ran
        refine ⟨?_, calm⟩
        change ((engine'.deliver ref ((m.setChannel ref channel).relimit fun _ => limit')).1.map
          Except.ok,
          (engine'.deliver ref ((m.setChannel ref channel).relimit fun _ => limit')).2) = _
        rw [same]
        rfl

theorem fulfil {ref : Ref .probe} (heard : within (.probe ref)) (request : Request) :
    Carries limit limit' within (fulfil engine ref request) (fulfil engine' ref request) := by
  cases request with
  | send signal =>
    exact (recordExchange ref _).bind fun _ => .read (fun _ => rfl) fun _ calm =>
      emit h (calm.answer heard) signal
  | listen =>
    refine (recordExchange ref _).bind fun _ => .read (fun _ => rfl) fun _ calm =>
      (subscribe h (calm.answer heard) heard).bind fun result => ?_
    cases result with
    | ok _ => exact .done _
    | error failure => exact recordExchange ref _
  | note => exact logSighting ref _

theorem fulfilAll {ref : Ref .probe} (heard : within (.probe ref)) (requests : List Request) :
    Carries limit limit' within (fulfilAll engine ref requests)
      (fulfilAll engine' ref requests) := by
  induction requests with
  | nil => exact .done _
  | cons request rest ih => exact (fulfil h heard request).bind fun _ => ih

theorem deliverToProbe {ref : Ref .probe} (heard : within (.probe ref)) (signal : Signal) :
    Carries limit limit' within (deliverToProbe engine ref signal)
      (deliverToProbe engine' ref signal) := by
  refine .read (fun m => ?_) fun _ _ => (logSighting ref _).bind fun _ =>
    (recordExchange ref _).bind fun _ => .read (fun _ => rfl) fun _ _ =>
      (fulfilAll h heard _).bind fun _ => recordExchange ref _
  simp only [sighting_relimit]

/-- All listeners but stages do with a signal what they would do under another limit. -/
theorem deliverTo {listener : Listener} (heard : within listener)
    (stageless : ∀ stage, ¬ within (.stage stage)) (signal : Signal) :
    Carries limit limit' within (deliverTo engine listener signal)
      (deliverTo engine' listener signal) := by
  cases listener with
  | forward target => exact emit h heard signal
  | collector ref =>
    exact .change (fun _ => rfl) fun _ h => ⟨h.limited, h.output, h.attached, h.answer, h.stageless⟩
  | stage stage => exact absurd heard (stageless stage)
  | probe ref => exact deliverToProbe h heard signal

theorem deliverAll {ref : Ref .channel} (heard : within (.forward ref)) :
    Carries limit limit' within (deliverAll engine ref) (deliverAll engine' ref) := by
  intro m result m' calm ended
  have same_channel : (m.relimit fun _ => limit').channel ref = m.channel ref := rfl
  rw [deliverAll_apply] at ended ⊢
  rw [same_channel]
  cases taken : (m.channel ref).take? with
  | none =>
    rw [taken] at ended
    cases ended
    exact ⟨rfl, calm.setChannel fun listener busy attached inside => by
      obtain ⟨busy, attached⟩ := Channel.attachment_of_release attached
      exact calm.attached inside attached⟩
  | some next =>
    obtain ⟨listener, signal, channel⟩ := next
    rw [taken] at ended
    obtain ⟨⟨busy, attached⟩, after⟩ := Channel.attachment_of_take? taken
    have busied : (m.setChannel ref channel).Calm limit within := by
      refine calm.setChannel fun other _ attached' inside => ?_
      rw [after] at attached'
      cases attached'
      exact calm.attached inside attached
    exact bind (deliverTo h (calm.attached heard attached) calm.stageless signal)
      (fun _ => h ref heard) _ _ _ busied ended

end Delivery

end Carries

/-! ## Evaluation -/

/-- A computation that ends other than by reaching the limit has its like under another limit.
What it may be heard by can become more, but no stage. -/
def Raises (limit limit' : Nat) {σ α : Type} [HasMachine σ] (action action' : Run σ α) : Prop :=
  ∀ state result state', (∃ within, (machine state).Calm limit within) →
    action state = (some result, state') → result ≠ .error (.callDepthExceeded limit) →
    action' (HasMachine.change (·.relimit fun _ => limit') state) =
      (some result, HasMachine.change (·.relimit fun _ => limit') state') ∧
        ∃ within, (machine state').Calm limit within

namespace Raises

variable {limit limit' : Nat} {σ α β : Type} [HasMachine σ]

/-- A computation that has nothing to do with the limit. -/
theorem of_blind {action : Run σ α}
    (blind : ∀ state, action (HasMachine.change (·.relimit fun _ => limit') state) =
      ((action state).1, HasMachine.change (·.relimit fun _ => limit') (action state).2))
    (calm : ∀ state within, (machine state).Calm limit within →
      ∃ within, (machine (action state).2).Calm limit within) :
    Raises limit limit' action action := by
  rintro state result state' ⟨within, h⟩ ended _
  have kept := calm state within h
  rw [blind]
  rw [ended] at kept ⊢
  exact ⟨rfl, kept⟩

/-- A change that has nothing to do with the limit nor with what can be heard. -/
theorem of_change {change : Machine → Machine}
    (blind : ∀ m : Machine, change (m.relimit fun _ => limit') = (change m).relimit fun _ => limit')
    (calm : ∀ (m : Machine) within, m.Calm limit within → (change m).Calm limit within) :
    Raises limit limit' (modify change : Run Machine PUnit) (modify change) :=
  .of_blind (fun m => congrArg (Prod.mk _) (blind m)) fun m within h => ⟨within, calm m within h⟩

theorem done (result : α) : Raises limit limit' (pure result : Run σ α) (pure result) :=
  .of_blind (fun _ => rfl) fun _ within h => ⟨within, h⟩

theorem refuse (failure : Failure) :
    Raises limit limit' (throw failure : Run σ α) (throw failure) :=
  .of_blind (fun _ => rfl) fun _ within h => ⟨within, h⟩

theorem read {next next' : σ → Run σ α}
    (blind : ∀ state, next' (HasMachine.change (·.relimit fun _ => limit') state) = next' state)
    (after : ∀ state, Raises limit limit' (next state) (next' state)) :
    Raises limit limit' (get >>= next : Run σ α) (get >>= next' : Run σ α) := by
  intro state result state' calm ended other
  have same := after state state result state' calm ended other
  rw [← blind] at same
  exact same

theorem andThen {first first' : Run σ α} {next next' : α → Run σ β}
    (before : Raises limit limit' first first')
    (after : ∀ result, Raises limit limit' (next result) (next' result)) :
    Raises limit limit' (first >>= next : Run σ β) (first' >>= next' : Run σ β) := by
  intro state result state' calm ended other
  rw [Run.bind_apply] at ended ⊢
  cases ran : first state with
  | mk outcome middle =>
    rw [ran] at ended
    cases outcome with
    | none => cases ended
    | some given =>
      cases given with
      | error failure =>
        cases ended
        obtain ⟨same, calm⟩ := before state _ _ calm ran fun reached =>
          other (congrArg Except.error (Except.error.inj reached))
        rw [same]
        exact ⟨rfl, calm⟩
      | ok given =>
        obtain ⟨same, calm⟩ := before state _ middle calm ran nofun
        rw [same]
        exact after given middle result state' calm ended other

theorem onMachine {action action' : Run Machine α} (h : Raises limit limit' action action') :
    Raises limit limit' (onMachine action) (onMachine action') := by
  intro reader result reader' calm ended other
  cases ran : action reader.machine with
  | mk outcome m =>
    rw [onMachine_apply, ran] at ended
    cases ended
    obtain ⟨same, calm⟩ := h _ _ _ calm ran other
    refine ⟨?_, calm⟩
    change ((action' (reader.machine.relimit fun _ => limit')).1,
      (⟨(action' (reader.machine.relimit fun _ => limit')).2, reader.cursor⟩ : Reader)) = _
    rw [show action' (reader.machine.relimit fun _ => limit') = _ from same]
    rfl

theorem withCursor {action action' : Run Reader α} (h : Raises limit limit' action action')
    (cursor : Cursor) :
    Raises limit limit' (withCursor cursor action) (withCursor cursor action') := by
  intro m result m' calm ended other
  cases ran : action ⟨m, cursor⟩ with
  | mk outcome reader =>
    rw [withCursor_apply, ran] at ended
    cases ended
    obtain ⟨same, calm⟩ := h _ _ _ calm ran other
    refine ⟨?_, calm⟩
    change ((action' ⟨m.relimit fun _ => limit', cursor⟩).1,
      (action' ⟨m.relimit fun _ => limit', cursor⟩).2.machine) = _
    rw [show action' ⟨m.relimit fun _ => limit', cursor⟩ = _ from same]
    rfl

/-- Where there is room for a call there is room under every higher limit. -/
theorem runFrame {engine engine' : Engine} (le : limit ≤ limit')
    (h : ∀ code, Raises limit limit' (engine.execute code) (engine'.execute code))
    (ref : Ref .frame) (args : List Value) :
    Raises limit limit' (runFrame engine ref args) (runFrame engine' ref args) := by
  rintro m result m' ⟨within, calm⟩ ended other
  have limited : m.config.maxCallDepth = limit := calm.limited
  rw [runFrame_apply, limited] at ended
  split at ended
  · cases ended
    -- The call was refused under the lower limit, and that failure is excluded.
    exact absurd rfl other
  · next room =>
    have higher : ¬ limit' ≤ m.depth := by omega
    have entered : (m.enter ref args).Calm limit within :=
      ⟨calm.limited, calm.output, calm.attached, calm.answer, calm.stageless⟩
    cases ran : engine.execute (m.frames.get ref).body (m.enter ref args) with
    | mk outcome middle =>
      rw [ran] at ended
      cases outcome with
      | none => cases ended
      | some given =>
        cases ended
        obtain ⟨same, inside, calm⟩ := h _ _ _ _ ⟨within, entered⟩ ran other
        refine ⟨?_, inside, calm.leave⟩
        rw [runFrame_apply]
        change (if limit' ≤ m.depth then _ else whenEnded Machine.leave (engine'.execute
          (m.frames.get ref).body ((m.enter ref args).relimit fun _ => limit'))) = _
        rw [if_neg higher, show engine'.execute (m.frames.get ref).body
          ((m.enter ref args).relimit fun _ => limit') = _ from same]
        exact congrArg (Prod.mk _) (middle.leave_relimit _)

theorem resume (ref : Ref .suspension) (input : Option (Ref .channel)) :
    Raises limit limit' (resume ref input) (resume ref input) := by
  refine .of_blind (fun m => ?_) fun m within h => ⟨within, ?_⟩
  · change Wordstream.resume ref input (m.relimit fun _ => limit') = _
    have same_suspension : (m.relimit fun _ => limit').suspension ref = m.suspension ref := rfl
    rw [resume_apply, resume_apply, same_suspension]
    split
    · rfl
    · split
      · rfl
      · cases (m.suspension ref).work <;> rfl
  · change (Wordstream.resume ref input m).2.Calm limit within
    rw [resume_apply]
    split
    · exact h
    · split
      · exact h
      · cases (m.suspension ref).work with
        | none => exact h
        | some work => exact ⟨h.limited, h.output, h.attached, h.answer, h.stageless⟩

theorem autoResume (value : Value) :
    Raises limit limit' (autoResume value) (autoResume value) := by
  unfold Wordstream.autoResume
  split
  · exact (resume _ none).andThen fun _ => .andThen (.of_change (fun _ => rfl) fun _ _ h =>
      ⟨h.limited, h.output, h.attached, h.answer, h.stageless⟩) fun _ => .done _
  · exact .done _

theorem keepResult (value : Value) :
    Raises limit limit' (keepResult value) (keepResult value) :=
  .andThen (.onMachine (.of_change (fun _ => rfl) fun _ _ h =>
    ⟨h.limited, h.output, h.attached, h.answer, h.stageless⟩)) fun _ => .done _

theorem suspend (work : Work) (acceptsInput : Bool) (mime : Option String) :
    Raises limit limit' (suspend work acceptsInput mime) (suspend work acceptsInput mime) := by
  refine .of_blind (fun _ => rfl) fun m within h => ⟨within, ?_⟩
  have made := h.newChannel
  exact ⟨made.limited, made.output, made.attached, made.answer, made.stageless⟩

theorem suspendBody (definition : StreamDefinition) (args : List Value) :
    Raises limit limit' (suspendBody definition args) (suspendBody definition args) :=
  .of_blind (fun _ => rfl) fun m within h =>
      ⟨fun listener => within listener ∨ listener = .forward m.channels.next, by
    have made := h.newActivation
      ⟨definition.body, definition.scene, padded definition.width args, .none, m.channels.next,
        padded definition.width args⟩ rfl
    exact ⟨made.limited, made.output, made.attached, made.answer, made.stageless⟩⟩

section Signals

variable {engine engine' : Engine}
  (h : ∀ ref within, within (.forward ref) →
    Carries limit limit' within (engine.deliver ref) (engine'.deliver ref))

include h

/-- What is written on scene is heard by no stage. -/
theorem writeOnScene (scene : Ref .scene) (value : Value) :
    Raises limit limit' (writeOnScene engine scene value) (writeOnScene engine' scene value) := by
  rintro m result m' ⟨within, calm⟩ ended other
  replace calm : m.Calm limit within := calm
  have same_scenes : (m.relimit fun _ => limit').scenes = m.scenes := rfl
  change Wordstream.writeOnScene engine' scene value (m.relimit fun _ => limit') = _ ∧ _
  rw [writeOnScene_apply] at ended ⊢
  rw [same_scenes]
  cases on : m.scenes.get scene with
  | none =>
    rw [on] at ended
    cases ended
    exact ⟨rfl, within, calm⟩
  | some activation =>
    rw [on] at ended
    dsimp only at ended
    cases ran : emit engine (m.activations.get activation).out (.next value) m with
    | mk outcome after =>
      rw [ran] at ended
      cases outcome with
      | none => cases ended
      | some _ =>
        cases ended
        obtain ⟨same, calm⟩ :=
          Carries.emit (fun ref => h ref within) (calm.output on) _ _ _ _ calm ran
        refine ⟨?_, within, calm⟩
        change ((emit engine' (m.activations.get activation).out (.next value)
          (m.relimit fun _ => limit')).1.map _, (emit engine' (m.activations.get activation).out
            (.next value) (m.relimit fun _ => limit')).2) = _
        rw [same]
        rfl

/-- A new channel that listens is heard by no stage, as nobody listens to it. -/
theorem subscribe_new (out : Ref .channel) {m : Machine} {within : Listener → Prop}
    (calm : m.Calm limit within) (result : Except Failure Unit) (m' : Machine)
    (ended : subscribe engine out (.forward m.channels.next) m.newChannel.2 = (some result, m')) :
    subscribe engine' out (.forward m.channels.next) (m.newChannel.2.relimit fun _ => limit') =
      (some result, m'.relimit fun _ => limit') ∧ ∃ within, m'.Calm limit within := by
  have same_channel : (m.newChannel.2.relimit fun _ => limit').channel out =
      m.newChannel.2.channel out :=
    rfl
  rw [subscribe_apply] at ended ⊢
  rw [same_channel]
  cases free : (m.newChannel.2.channel out).attach? (.forward m.channels.next) with
  | none =>
    rw [free] at ended
    cases ended
    exact ⟨rfl, within, calm.newChannel⟩
  | some channel =>
    rw [free] at ended
    dsimp only at ended
    cases ran : engine.deliver out (m.newChannel.2.setChannel out channel) with
    | mk outcome after =>
      rw [ran] at ended
      cases outcome with
      | none => cases ended
      | some _ =>
        cases ended
        -- The out and the new channel come to be among those that may hear, and no stage does.
        have relayed := calm.relayed out (Channel.attachment_of_attach? free)
        obtain ⟨same, calm⟩ := h out _ (Or.inr (Or.inl rfl)) _ _ _ relayed ran
        refine ⟨?_, _, calm⟩
        change ((engine'.deliver out ((m.newChannel.2.setChannel out channel).relimit
            fun _ => limit')).1.map Except.ok,
          (engine'.deliver out ((m.newChannel.2.setChannel out channel).relimit
            fun _ => limit')).2) = _
        rw [same]
        rfl

/-- The output of a suspension is relayed to a channel that nobody listens to. -/
theorem pipe (left right : Ref .suspension) :
    Raises limit limit' (pipe engine left right) (pipe engine' left right) := by
  rintro m result m' ⟨within, calm⟩ ended other
  replace calm : m.Calm limit within := calm
  have linked := subscribe_new h (m.suspension left).out calm
  have same_suspension : (m.relimit fun _ => limit').suspension = m.suspension := rfl
  have same_next : (m.relimit fun _ => limit').channels.next = m.channels.next := rfl
  have same_new : (m.relimit fun _ => limit').newChannel.2 =
      m.newChannel.2.relimit fun _ => limit' := rfl
  change Wordstream.pipe engine' left right (m.relimit fun _ => limit') = _ ∧ _
  rw [pipe_apply] at ended ⊢
  rw [same_suspension, same_next, same_new]
  -- Whether the pipe is refused has nothing to do with the limit.
  split at ended
  · next takes_none =>
    cases ended
    rw [if_pos takes_none]
    exact ⟨rfl, within, calm⟩
  · next takes =>
    rw [if_neg takes]
    split at ended
    · next started =>
      cases ended
      rw [if_pos started]
      exact ⟨rfl, within, calm⟩
    · next new =>
      rw [if_neg new]
      cases ran : subscribe engine (m.suspension left).out (.forward m.channels.next)
          m.newChannel.2 with
      | mk outcome after =>
        rw [ran] at ended
        cases outcome with
        | none => cases ended
        | some given =>
          obtain ⟨same, inside, calm⟩ := linked _ _ ran
          rw [same]
          cases given with
          | error failure =>
            cases ended
            exact ⟨rfl, inside, calm⟩
          | ok _ =>
            cases ended
            exact ⟨rfl, inside, calm.limited, calm.output, calm.attached, calm.answer,
              calm.stageless⟩

end Signals

end Raises

/-- The discipline of raising the limit on calls. -/
def raising {limit limit' : Nat} (le : limit ≤ limit') : Discipline where
  limit _ := limit'
  strict := False
  Fits := Raises limit limit'
  Yields := Raises limit limit'
  Hands ref action action' :=
    ∀ within, within (.forward ref) → Carries limit limit' within action action'
  stir h blind _ _ := .of_blind blind fun state within calm => ⟨within, calm.stirs (h state)⟩
  read blind after := .read blind fun state => after state nofun
  andThen before after := before.andThen fun result => after result nofun
  onMachine h := h.onMachine
  withCursor h cursor := h.withCursor cursor
  yield h := h
  readYield blind after := .read blind fun state => after state nofun
  andYield before after := before.andThen fun result => after result nofun
  yieldOnMachine h := h.onMachine
  use h := h.andThen fun value => (Raises.autoResume value).onMachine.andThen fun value =>
    .keepResult value
  keep h := h.andThen fun value => .keepResult value
  frame h ref args _ := .runFrame le h ref args
  suspend work _ _ acceptsInput mime := .suspend work acceptsInput mime
  suspendBody definition args _ := .suspendBody definition args
  write h scene value _ := .writeOnScene h scene value
  pipe h deferred := by
    refine deferred.andThen fun left => deferred.andThen fun right => ?_
    split
    · exact (Raises.pipe h _ _).onMachine.andThen fun _ => .done _
    · exact .refuse _

/-- Raising the limit has nothing to do with suspensions that are used as values. -/
theorem isLax_raising {limit limit' : Nat} (le : limit ≤ limit') : (raising le).IsLax where
  lax := id
  fits h := h

/-- What a host does has nothing to do with the limit on calls, beyond calls being refused. -/
def Host.IsLimitBlind (host : Host) : Prop :=
  ∀ {limit limit' : Nat} (le : limit ≤ limit'), (raising le).Admits host

theorem isLimitBlind_none : Host.none.IsLimitBlind := fun le => (raising le).admits_none

theorem isLimitBlind_toolkit : toolkit.IsLimitBlind :=
  fun le => Discipline.admits_toolkit (isLax_raising le)

/-- Evaluation under a higher limit follows evaluation under a lower one. -/
theorem Engine.raises_ofFuel {host : Host} (hosted : host.IsLimitBlind) {limit limit' : Nat}
    (le : limit ≤ limit') (fuel : Nat) :
    (raising le).Relates (ofFuel host fuel) (ofFuel host fuel) := by
  induction fuel with
  | zero =>
    have never {σ α : Type} [HasMachine σ] :
        Raises limit limit' (outOfFuel : Run σ α) outOfFuel := fun _ _ _ _ ended => by cases ended
    have unheard (ref : Ref .channel) : (raising le).Hands ref outOfFuel outOfFuel :=
      fun _ _ _ _ _ _ ended => by cases ended
    exact ⟨fun _ => never, fun _ _ => never, never, unheard, fun _ _ _ => never, fun _ => never,
      fun _ _ _ _ _ => never⟩
  | succ fuel ih =>
    exact ih.step (hosted le) fun ref within heard =>
      Carries.deliverAll (fun ref heard => ih.deliver ref within heard) heard

/-- The limit on calls is only a limit. An evaluation that ends in any other way than by reaching it
ends in the same way under every higher limit, with the same value or the same failure, and leaves a
machine that has only the limit different: what it has printed, its result, its dictionaries, the
height of its stack and the tasks that are pending are the same. No stage may be listening where the
evaluation can write. -/
theorem evaluate_relimit {host : Host} (hosted : host.IsLimitBlind) {m m' : Machine} {limit : Nat}
    (le : m.config.maxCallDepth ≤ limit) (stageless : ∀ stage, ¬ m.Hears (.stage stage))
    (fuel : Nat) (text : String) {result : Except Failure Value}
    (ended : evaluate (.ofFuel host fuel) text m = (some result, m'))
    (other : result ≠ .error (.callDepthExceeded m.config.maxCallDepth)) :
    evaluate (.ofFuel host fuel) text (m.relimit fun _ => limit) =
      (some result, m'.relimit fun _ => limit) :=
  ((Engine.raises_ofFuel hosted le fuel).evaluate text m result m'
    ⟨m.Hears, Machine.calm_of_hears rfl stageless⟩ ended other).1

/-- A text that prints a word from within two calls. -/
def nestedCallsText : String :=
  "fn: native [params body] :core/fn print: native [value] :core/print
  f: fn [x] [print x] g: fn [y] [f y] g \"deep\""

/-- Where two calls are just allowed, the same is printed as where many are. -/
theorem evaluate_relimit_of_nested_calls :
    let narrow := Machine.stocked.relimit fun _ => 2
    let run := evaluate (.ofFuel .none 20) nestedCallsText narrow
    run.1.map Except.toBool = some true ∧ run.2.printed = ["deep"] ∧
      evaluate (.ofFuel .none 20) nestedCallsText (narrow.relimit fun _ => 512) =
        (run.1, run.2.relimit fun _ => 512) := by
  intro narrow run
  have succeeded : run.1.map Except.toBool = some true := by decide +kernel
  refine ⟨succeeded, by decide +kernel, ?_⟩
  have off (scene : Ref .scene) : narrow.scenes.get scene = none := by
    have bearings := Machine.bearings_installLibrary (.ofConfig .standard)
    have scenes : Machine.stocked.scenes = .empty :=
      congrArg (fun bearings => bearings.1.scenes) bearings
    change Machine.stocked.scenes.get scene = none
    rw [scenes]
    rfl
  cases ran : run with
  | mk outcome after =>
    rw [ran] at succeeded
    cases outcome with
    | none => cases succeeded
    | some result =>
      refine evaluate_relimit isLimitBlind_none (by decide) (fun _ => Machine.not_hears off _) 20 _
        ran ?_
      rintro rfl
      cases succeeded

end Wordstream
