import Wordstream.Value

/-!
# Channels

A channel keeps the signals that it accepts until its one listener comes, and then hands them over
in order. It accepts nothing behind a terminal signal. While its listener is busy with a signal,
further ones wait in the backlog, so that the listener is never entered a second time.

The operations here say how the state of one channel changes; handing signals to a listener is the
business of evaluation.
-/

namespace Wordstream

/-- Who listens to a channel: another channel that everything is written to, a collector, the stage
of a task, or a probe. -/
inductive Listener where
  | forward (target : Ref .channel)
  | collector (collector : Ref .collector)
  | stage (stage : Ref .stage)
  | probe (probe : Ref .probe)
  deriving DecidableEq, Repr

/-- Whether a channel still buffers, or has a listener, which may be busy with a signal. -/
inductive Attachment where
  | buffering
  | listening (listener : Listener) (busy : Bool)
  deriving DecidableEq, Repr

/-- The state of a channel: the signals that wait, who listens, the terminal signal if one was
accepted, and whether nobody is left who could write to it. -/
structure Channel where
  backlog : List Signal
  attachment : Attachment
  ending : Option Signal
  abandoned : Bool

namespace Channel

/-- A channel that nothing was written to. -/
def fresh : Channel := ⟨[], .buffering, none, false⟩

instance : Inhabited Channel := ⟨fresh⟩

/-- Whether a channel has accepted a terminal signal. -/
def terminated (channel : Channel) : Bool := channel.ending.isSome

/-- Whether a channel has a listener. -/
def isSubscribed (channel : Channel) : Bool :=
  match channel.attachment with
  | .buffering => false
  | .listening _ _ => true

/-- The listener of a channel that has one. -/
theorem exists_listener {channel : Channel} (subscribed : channel.isSubscribed) :
    ∃ listener busy, channel.attachment = .listening listener busy := by
  unfold isSubscribed at subscribed
  split at subscribed
  · cases subscribed
  · next listener busy attached => exact ⟨listener, busy, attached⟩

/-- How many signals wait for a listener. -/
def queued (channel : Channel) : Nat :=
  match channel.attachment with
  | .buffering => channel.backlog.length
  | .listening _ _ => 0

/-- Accept a signal, unless the channel has terminated. -/
def accept (channel : Channel) (signal : Signal) : Channel :=
  if channel.terminated then channel
  else
    { channel with
      backlog := channel.backlog ++ [signal]
      ending := if signal.isTerminal then some signal else none }

/-- Accepting a signal has nothing to do with who listens. -/
@[simp]
theorem attachment_accept (channel : Channel) (signal : Signal) :
    (channel.accept signal).attachment = channel.attachment := by
  unfold accept
  split <;> rfl

/-- A channel that accepts a terminal signal has terminated. -/
@[simp]
theorem terminated_accept (channel : Channel) (signal : Signal) :
    (channel.accept signal).terminated = (channel.terminated || signal.isTerminal) := by
  unfold accept
  split
  · next closed => rw [closed, Bool.true_or]
  · next still_open =>
    rw [Bool.not_eq_true] at still_open
    rw [still_open, Bool.false_or, terminated]
    cases signal.isTerminal <;> rfl

/-- Whether there is a listener that is free to take signals. -/
def isIdle (channel : Channel) : Bool :=
  match channel.attachment with
  | .listening _ false => true
  | _ => false

/-- Whether a signal that is written now has to be handed over at once. -/
def mustDeliver (channel : Channel) : Bool := !channel.terminated && channel.isIdle

/-- A signal has to be handed over only if somebody listens. -/
theorem isSubscribed_of_mustDeliver {channel : Channel} (due : channel.mustDeliver) :
    channel.isSubscribed := by
  simp only [mustDeliver, Bool.and_eq_true] at due
  have idle := due.2
  unfold isIdle at idle
  unfold isSubscribed
  split at idle
  · next attached => rw [attached]
  · cases idle

/-- A signal that need not be handed over to a listener who is free has come too late. -/
theorem terminated_of_not_mustDeliver {channel : Channel} {listener : Listener}
    (attached : channel.attachment = .listening listener false) (late : ¬ channel.mustDeliver) :
    channel.terminated := by
  simpa [mustDeliver, isIdle, attached] using late

/-- Attach the one listener, unless there is one. -/
def attach? (channel : Channel) (listener : Listener) : Option Channel :=
  match channel.attachment with
  | .buffering => some { channel with attachment := .listening listener false }
  | .listening _ _ => none

/-- Who is attached listens, and is free. -/
theorem attachment_of_attach? {channel channel' : Channel} {listener : Listener}
    (h : channel.attach? listener = some channel') :
    channel'.attachment = .listening listener false := by
  unfold attach? at h
  split at h <;> cases h
  rfl

/-- The next signal to be handed over, its listener, and the channel while the listener is busy with
it. -/
def take? (channel : Channel) : Option (Listener × Signal × Channel) :=
  match channel.attachment, channel.backlog with
  | .listening listener _, signal :: rest =>
    some (listener, signal, { channel with
      backlog := rest
      attachment := .listening listener true })
  | _, _ => none

/-- What is handed over goes to who listens, and who listens is busy with it. -/
theorem attachment_of_take? {channel channel' : Channel} {listener : Listener} {signal : Signal}
    (h : channel.take? = some (listener, signal, channel')) :
    (∃ busy, channel.attachment = .listening listener busy) ∧
      channel'.attachment = .listening listener true := by
  unfold take? at h
  split at h <;> cases h
  next attached _ => exact ⟨⟨_, attached⟩, rfl⟩

/-- The channel with a listener that is free again. -/
def release (channel : Channel) : Channel :=
  match channel.attachment with
  | .listening listener _ => { channel with attachment := .listening listener false }
  | .buffering => channel

/-- Who is set free has listened before. -/
theorem attachment_of_release {channel : Channel} {listener : Listener} {busy : Bool}
    (h : channel.release.attachment = .listening listener busy) :
    ∃ busy, channel.attachment = .listening listener busy := by
  unfold release at h
  split at h
  · next attached =>
    cases h
    exact ⟨_, attached⟩
  · exact ⟨_, h⟩

end Channel

end Wordstream
