import Mathlib.Data.List.Induction
import Wordstream.Machine.Basic

/-!
# Journals of probes

What a probe has written to its channel and what the channel has handed over to it stand in the
probe's journal, in order. A channel and the journal of its probe agree: what was handed over,
followed by what still waits, is what was accepted; and a signal is accepted if no terminal one was
accepted before it.

Here is what each step of a channel does to that agreement.

## Main results

* `Account.send`, `Account.attach`, `Account.refuse`, `Account.take`, `Account.answer`,
  `Account.release` — every step of a channel keeps it
-/

namespace Wordstream

/-! ## What stands in a journal -/

/-- The signal that an exchange writes. -/
@[simp]
def sentSignal? : Exchange → Option Signal
  | .sent signal => some signal
  | .listened | .refused _ | .received _ | .answered => none

/-- The signal that an exchange hands over. -/
@[simp]
def receivedSignal? : Exchange → Option Signal
  | .received signal => some signal
  | .sent _ | .listened | .refused _ | .answered => none

/-- The signals that were written, in order. -/
def offered (journal : List Exchange) : List Signal := journal.filterMap sentSignal?

/-- The signals that were handed over, in order. -/
def handedOver (journal : List Exchange) : List Signal := journal.filterMap receivedSignal?

/-- The signals that are accepted: each before which no terminal one was accepted. -/
def accepted (signals : List Signal) : List Signal :=
  signals.foldl (fun taken signal =>
    if taken.any Signal.isTerminal then taken else taken ++ [signal]) []

/-- Whether the last signal that was handed over is being handled still. -/
def handling (journal : List Exchange) : Bool :=
  journal.foldl (fun busy exchange =>
    match exchange with
    | .received _ => true
    | .answered => false
    | _ => busy) false

/-- Whether one more signal is accepted depends on those accepted before. -/
theorem accepted_concat (signals : List Signal) (signal : Signal) :
    accepted (signals ++ [signal]) =
      if (accepted signals).any Signal.isTerminal then accepted signals
      else accepted signals ++ [signal] := by
  rw [accepted, List.foldl_append]
  rfl

theorem offered_append (journal later : List Exchange) :
    offered (journal ++ later) = offered journal ++ offered later := List.filterMap_append

/-- What one more exchange adds to the signals that were written. -/
@[simp]
theorem offered_concat (journal : List Exchange) (last : Exchange) :
    offered (journal ++ [last]) = offered journal ++ (sentSignal? last).toList := by
  rw [offered_append]
  cases last <;> rfl

/-- What one more exchange adds to the signals that were handed over. -/
@[simp]
theorem handedOver_concat (journal : List Exchange) (last : Exchange) :
    handedOver (journal ++ [last]) = handedOver journal ++ (receivedSignal? last).toList := by
  rw [handedOver, List.filterMap_append]
  cases last <;> rfl

/-- What one more exchange does to the handling of signals. -/
@[simp]
theorem handling_concat (journal : List Exchange) (last : Exchange) :
    handling (journal ++ [last]) = match last with
      | .received _ => true
      | .answered => false
      | .sent _ | .listened | .refused _ => handling journal := by
  rw [handling, List.foldl_append]
  cases last <;> rfl

/-- Nothing is accepted behind a terminal signal. -/
theorem accepted_terminal_last {signals before after : List Signal} {signal : Signal}
    (split : accepted signals = before ++ signal :: after) (terminal : signal.isTerminal) :
    after = [] := by
  -- Signals are accepted at the end, so the induction takes them off there.
  induction signals using List.reverseRecOn generalizing after with
  | nil => simp [accepted] at split
  | append_singleton signals last ih =>
    rw [accepted_concat] at split
    split at split
    · exact ih split
    · next open_still =>
      rcases List.eq_nil_or_concat after with rfl | ⟨rest, final, rfl⟩
      · rfl
      · have earlier : accepted signals = before ++ signal :: rest := by
          have reassociated : accepted signals ++ [last] =
              (before ++ signal :: rest) ++ [final] := by
            rw [split]
            simp
          exact List.append_inj_left' reassociated rfl
        refine absurd (List.any_eq_true.2 ⟨signal, ?_, terminal⟩) open_still
        rw [earlier]
        exact List.mem_append_right _ List.mem_cons_self

/-- An exchange in a journal is its last one, or stands before that. -/
theorem last_or_before {journal earlier later : List Exchange} {last exchange : Exchange}
    (split : journal ++ [last] = earlier ++ exchange :: later) :
    (earlier = journal ∧ exchange = last ∧ later = []) ∨
      ∃ rest, later = rest ++ [last] ∧ journal = earlier ++ exchange :: rest := by
  rcases List.eq_nil_or_concat later with rfl | ⟨rest, final, rfl⟩
  · obtain ⟨same, single⟩ := List.append_inj' split rfl
    exact .inl ⟨same.symm, (List.singleton_inj.1 single).symm, rfl⟩
  · have reassociated : journal ++ [last] = (earlier ++ exchange :: rest) ++ [final] := by
      rw [split]
      simp
    obtain ⟨same, single⟩ := List.append_inj' reassociated rfl
    exact .inr ⟨rest, by rw [List.singleton_inj.1 single, List.concat_eq_append], same⟩

/-! ## Order -/

/-- Every signal that was handed over was so when no other was being handled and somebody had asked
to listen, and it was the next of those accepted by then. -/
def InTurn (journal : List Exchange) : Prop :=
  ∀ earlier signal later, journal = earlier ++ .received signal :: later →
    handling earlier = false ∧ .listened ∈ earlier ∧
      handedOver earlier ++ [signal] <+: accepted (offered earlier)

/-- Whoever asked to listen when somebody had asked before was refused at once. -/
def RefusedAgain (journal : List Exchange) : Prop :=
  ∀ earlier later, journal = earlier ++ .listened :: later → .listened ∈ earlier →
    ∃ rest, later = .refused .alreadySubscribed :: rest

theorem InTurn.concat {journal : List Exchange} (h : InTurn journal) {last : Exchange}
    (fits : ∀ signal, last = .received signal →
      handling journal = false ∧ .listened ∈ journal ∧
        handedOver journal ++ [signal] <+: accepted (offered journal)) :
    InTurn (journal ++ [last]) := by
  intro earlier signal later split
  rcases last_or_before split with ⟨rfl, same, _⟩ | ⟨rest, _, before⟩
  · exact fits signal same.symm
  · exact h earlier signal rest before

theorem RefusedAgain.concat {journal : List Exchange} (h : RefusedAgain journal) {last : Exchange}
    (fits : last = .listened → .listened ∉ journal) : RefusedAgain (journal ++ [last]) := by
  intro earlier later split again
  rcases last_or_before split with ⟨rfl, same, _⟩ | ⟨rest, rfl, before⟩
  · exact absurd again (fits same.symm)
  · obtain ⟨behind, refused⟩ := h earlier rest before again
    exact ⟨behind ++ [last], by rw [refused]; rfl⟩

/-- Listening again and being refused. -/
theorem RefusedAgain.refuse {journal : List Exchange} (h : RefusedAgain journal) :
    RefusedAgain (journal ++ [.listened] ++ [.refused .alreadySubscribed]) := by
  intro earlier later split again
  rcases last_or_before split with ⟨_, same, _⟩ | ⟨rest, rfl, before⟩
  · cases same
  · rcases last_or_before before with ⟨_, _, rfl⟩ | ⟨behind, rfl, old⟩
    · exact ⟨[], rfl⟩
    · obtain ⟨final, refused⟩ := h earlier behind old again
      exact ⟨final ++ [.listened] ++ [.refused .alreadySubscribed], by rw [refused]; rfl⟩

/-! ## The agreement of a channel with a journal -/

/-- A channel agrees with the journal of its probe. What was handed over and what waits is what
was accepted; the channel has terminated if a terminal signal is among that; and the probe is
attached if it has asked to listen, and busy if it is handling a signal. -/
structure Account (probe : Ref .probe) (channel : Channel) (journal : List Exchange) : Prop where
  balanced : handedOver journal ++ channel.backlog = accepted (offered journal)
  terminated : channel.terminated = (accepted (offered journal)).any Signal.isTerminal
  inTurn : InTurn journal
  refusedAgain : RefusedAgain journal
  attached :
    (channel.attachment = .buffering ∧ .listened ∉ journal ∧ handling journal = false) ∨
      ∃ busy, channel.attachment = .listening (.probe probe) busy ∧ .listened ∈ journal ∧
        (handling journal = true → busy = true)

namespace Account

variable {probe : Ref .probe} {channel : Channel} {journal : List Exchange}

/-- A new channel agrees with an empty journal. -/
theorem fresh (probe : Ref .probe) : Account probe .fresh [] where
  balanced := rfl
  terminated := rfl
  inTurn := fun earlier signal later split => by simp at split
  refusedAgain := fun earlier later split => by simp at split
  attached := .inl ⟨rfl, List.not_mem_nil, rfl⟩

/-- Who listens is the probe, which has asked for it and is busy while it is handling a signal. -/
theorem of_listening (h : Account probe channel journal) {listener : Listener} {busy : Bool}
    (attached : channel.attachment = .listening listener busy) :
    listener = .probe probe ∧ .listened ∈ journal ∧ (handling journal = true → busy = true) := by
  rcases h.attached with ⟨buffering, _⟩ | ⟨_, attached', asked, keeps⟩
  · rw [buffering] at attached
    cases attached
  · rw [attached'] at attached
    cases attached
    exact ⟨rfl, asked, keeps⟩

/-- A probe that is handling a signal is attached, and busy. -/
theorem busy_of_handling (h : Account probe channel journal) (busy : handling journal = true) :
    channel.attachment = .listening (.probe probe) true := by
  rcases h.attached with ⟨_, _, free⟩ | ⟨flag, attached, _, keeps⟩
  · rw [free] at busy
    cases busy
  · rw [attached, keeps busy]

/-- A channel has a listener as soon as the probe has asked to listen. -/
theorem isSubscribed_iff (h : Account probe channel journal) :
    channel.isSubscribed ↔ .listened ∈ journal := by
  unfold Channel.isSubscribed
  rcases h.attached with ⟨buffering, first, _⟩ | ⟨busy, attached, asked, _⟩
  · rw [buffering]
    exact ⟨fun never => Bool.noConfusion never, fun asked => absurd asked first⟩
  · rw [attached]
    exact ⟨fun _ => asked, fun _ => rfl⟩

/-- Writing a signal. -/
theorem send (h : Account probe channel journal) (signal : Signal) :
    Account probe (channel.accept signal) (journal ++ [.sent signal]) := by
  have offered_eq : offered (journal ++ [.sent signal]) = offered journal ++ [signal] := by simp
  have handedOver_eq : handedOver (journal ++ [.sent signal]) = handedOver journal := by simp
  constructor
  · rw [handedOver_eq, offered_eq, accepted_concat, ← h.terminated, Channel.accept]
    split
    · exact h.balanced
    · rw [← h.balanced, List.append_assoc]
  · rw [offered_eq, accepted_concat, ← h.terminated, Channel.terminated_accept]
    split
    · next ended => rw [← h.terminated, ended, Bool.true_or]
    · simp [h.terminated]
  · exact h.inTurn.concat fun _ same => by cases same
  · exact h.refusedAgain.concat fun same => by cases same
  · simpa using h.attached

/-- Listening for the first time. -/
theorem attach (h : Account probe channel journal) (buffering : channel.attachment = .buffering) :
    Account probe { channel with attachment := .listening (.probe probe) false }
      (journal ++ [.listened]) := by
  obtain ⟨_, first, free⟩ : _ ∧ .listened ∉ journal ∧ handling journal = false := by
    rcases h.attached with first | ⟨busy, attached, _⟩
    · exact first
    · rw [buffering] at attached
      cases attached
  constructor
  · simpa using h.balanced
  · simpa [Channel.terminated] using h.terminated
  · exact h.inTurn.concat fun _ same => by cases same
  · exact h.refusedAgain.concat fun _ => first
  · refine .inr ⟨false, rfl, List.mem_append_right _ List.mem_cons_self, ?_⟩
    simp [free]

/-- Listening once more. -/
theorem refuse (h : Account probe channel journal) (listening : channel.attachment ≠ .buffering) :
    Account probe channel (journal ++ [.listened] ++ [.refused .alreadySubscribed]) := by
  constructor
  · rw [handedOver_concat, handedOver_concat, offered_concat, offered_concat]
    simpa using h.balanced
  · rw [offered_concat, offered_concat]
    simpa using h.terminated
  · refine (h.inTurn.concat fun _ same => ?_).concat fun _ same => ?_
    · cases same
    · cases same
  · exact h.refusedAgain.refuse
  · rcases h.attached with ⟨buffering, _⟩ | ⟨busy, attached, _, keeps⟩
    · exact absurd buffering listening
    · rw [handling_concat, handling_concat]
      exact .inr ⟨busy, attached, by simp, keeps⟩

/-- Handing over the signal that waits longest, when no other is being handled. -/
theorem take (h : Account probe channel journal) (free : handling journal = false)
    {busy : Bool} {listener : Listener} {signal : Signal} {rest : List Signal}
    (attached : channel.attachment = .listening listener busy)
    (waiting : channel.backlog = signal :: rest) :
    Account probe { channel with backlog := rest, attachment := .listening listener true }
      (journal ++ [.received signal]) := by
  have handedOver_eq :
      handedOver (journal ++ [.received signal]) = handedOver journal ++ [signal] := by simp
  have offered_eq : offered (journal ++ [.received signal]) = offered journal := by simp
  have balanced : (handedOver journal ++ [signal]) ++ rest = accepted (offered journal) := by
    rw [← h.balanced, waiting, List.append_assoc]
    rfl
  obtain ⟨same, asked, _⟩ := h.of_listening attached
  constructor
  · rw [handedOver_eq, offered_eq]
    exact balanced
  · rw [offered_eq]
    exact h.terminated
  · refine h.inTurn.concat fun other same => ?_
    cases same
    exact ⟨free, asked, rest, balanced⟩
  · exact h.refusedAgain.concat fun same => by cases same
  · exact .inr ⟨true, by rw [same], List.mem_append_left _ asked, fun _ => rfl⟩

/-- Being done with a signal. -/
theorem answer (h : Account probe channel journal) :
    Account probe channel (journal ++ [.answered]) := by
  constructor
  · simpa using h.balanced
  · simpa using h.terminated
  · exact h.inTurn.concat fun _ same => by cases same
  · exact h.refusedAgain.concat fun same => by cases same
  · rcases h.attached with ⟨buffering, first, _⟩ | ⟨busy, attached, asked, _⟩
    · exact .inl ⟨buffering, by simpa using first, by simp⟩
    · exact .inr ⟨busy, attached, by simpa using asked, by simp⟩

/-- Setting the listener free, when no signal is being handled. -/
theorem release (h : Account probe channel journal) (free : handling journal = false) :
    Account probe channel.release journal := by
  unfold Channel.release
  split
  · next listener busy attached =>
    obtain ⟨same, asked, _⟩ := h.of_listening attached
    refine ⟨h.balanced, h.terminated, h.inTurn, h.refusedAgain,
      .inr ⟨false, by rw [same], asked, ?_⟩⟩
    rw [free]
    exact id
  · exact h

end Account

end Wordstream
