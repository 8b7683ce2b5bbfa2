import Wordstream.Proofs.Outlet

/-!
# Chains of channels

Channels that are forwarded one into the next, with a collector behind the last of them, may be
wired up in any order, and signals may be written to the first of them before, between and after.
A channel that is not yet wired keeps what it has accepted and hands it over later, so that in the
end the collector holds what was sent, up to the first terminal signal, whatever the order was.

## Main results

* `takes_chained` — whatever is wired, a chain is a function of what was sent
* `ends_wire` — wiring one more channel
* `Chain.collector_of_wired` — the order of wiring does not matter
-/

namespace Wordstream

/-! ## What is left of signals -/

/-- The value that a signal brings, if it brings one. -/
def Signal.value? : Signal → Option Value
  | next value => some value
  | _ => none

/-- A collector that was told all signals up to the first terminal one: it holds their values, and
how they ended if they did. -/
def Collector.ofSent (sent : List Signal) : Collector where
  items := (sent.takeWhile (!·.isTerminal)).filterMap Signal.value?
  failure :=
    match sent.find? Signal.isTerminal with
    | some (.failed failure) => some failure
    | _ => none
  completed :=
    match sent.find? Signal.isTerminal with
    | some .complete => true
    | _ => false

/-- Of signals that are written one after the other, all are accepted up to the first terminal
one. -/
theorem History.signals_acceptAll {past : History} (still_open : past.ending? = none)
    (sent : List Signal) :
    (past.acceptAll sent).signals =
      past.signals ++
        (sent.takeWhile (!·.isTerminal) ++ (sent.find? Signal.isTerminal).toList) := by
  induction sent generalizing past with
  | nil => exact (List.append_nil _).symm
  | cons signal rest ih =>
    change ((past.accept signal).acceptAll rest).signals = _
    cases terminal : signal.isTerminal with
    | false =>
      have open_still : (past.accept signal).ending? = none := by
        rw [ending?_accept still_open, terminal]
        rfl
      rw [ih open_still, accept_of_open still_open]
      simp [terminal]
    | true =>
      -- All the rest comes too late.
      have ended : (past.accept signal).ending? ≠ none := by
        rw [ending?_accept still_open, terminal]
        exact Option.some_ne_none _
      have late (rest : List Signal) :
          (past.accept signal).acceptAll rest = past.accept signal := by
        induction rest with
        | nil => rfl
        | cons later rest ih =>
          change ((past.accept signal).accept later).acceptAll rest = _
          rw [accept_of_ended ended, ih]
      rw [late, accept_of_open still_open]
      simp [terminal]

/-- A collector puts the values that it is told behind those that it holds. -/
theorem Collector.foldl_hear_of_open {signals : List Signal}
    (still_open : ∀ signal ∈ signals, signal.isTerminal = false) (collector : Collector) :
    signals.foldl Collector.hear collector =
      { collector with items := collector.items ++ signals.filterMap Signal.value? } := by
  induction signals generalizing collector with
  | nil => simp
  | cons signal rest ih =>
    rw [List.forall_mem_cons] at still_open
    cases signal with
    | next value =>
      rw [List.foldl_cons, ih still_open.2]
      simp [hear, Signal.value?]
    | failed failure => cases still_open.1
    | complete => cases still_open.1

/-- A collector that is told what a channel has accepted. -/
theorem Collector.foldl_hear_acceptAll (sent : List Signal) :
    (History.empty.acceptAll sent).signals.foldl Collector.hear default = ofSent sent := by
  have values : ∀ signal ∈ sent.takeWhile (!·.isTerminal), signal.isTerminal = false := by
    intro signal member
    have all := List.all_eq_true.1 List.all_takeWhile signal member
    simpa using all
  rw [History.signals_acceptAll rfl, show History.empty.signals = [] from rfl, List.nil_append,
    List.foldl_append, foldl_hear_of_open values]
  cases ending : sent.find? Signal.isTerminal with
  | none => simp [ofSent, ending, default]
  | some signal =>
    have terminal : signal.isTerminal := List.find?_some ending
    cases signal with
    | next value => cases terminal
    | failed failure => simp [ofSent, ending, default, hear]
    | complete => simp [ofSent, ending, default, hear]

/-! ## Chains -/

/-- Who listens to the channel in front of a part of a chain: a relay to the next channel, or the
collector. -/
def Chain.listenerBefore (collector : Ref .collector) : List (Ref .channel) → Listener
  | [] => .collector collector
  | next :: _ => .forward next

/-- The channels of a part of a chain, each with who is to listen to it. -/
def Chain.wiresOf (collector : Ref .collector) :
    List (Ref .channel) → List (Ref .channel × Listener)
  | [] => []
  | channel :: rest =>
    (channel, Chain.listenerBefore collector rest) :: Chain.wiresOf collector rest

/-- Each channel of a chain is wired once. -/
theorem map_fst_wiresOf (collector : Ref .collector) (channels : List (Ref .channel)) :
    (Chain.wiresOf collector channels).map Prod.fst = channels := by
  induction channels with
  | nil => rfl
  | cons channel rest ih => exact congrArg (channel :: ·) ih

/-- What is wired is a channel of the chain. -/
theorem mem_of_mem_wiresOf {collector : Ref .collector} {channels : List (Ref .channel)}
    {wire : Ref .channel × Listener} (member : wire ∈ Chain.wiresOf collector channels) :
    wire.1 ∈ channels := by
  rw [← map_fst_wiresOf collector channels]
  exact List.mem_map_of_mem member

/-- Channels in a row, with a collector behind the last. -/
structure Chain where
  source : Ref .channel
  relays : List (Ref .channel)
  collector : Ref .collector
  distinct : (source :: relays).Nodup

namespace Chain

/-- All channels of a chain, in order. -/
def channels (chain : Chain) : List (Ref .channel) := chain.source :: chain.relays

/-- Who is to listen to what. -/
def wires (chain : Chain) : List (Ref .channel × Listener) :=
  Chain.wiresOf chain.collector chain.channels

/-- Nothing was written or wired yet. -/
structure IsFresh (chain : Chain) (m : Machine) : Prop where
  channel (ref : Ref .channel) : ref ∈ chain.channels → m.channel ref = .fresh
  collector : m.collectors.get chain.collector = default

end Chain

/-- A step of the host: to wire up a channel, or to send a signal. -/
inductive Chain.Step where
  | listen (channel : Ref .channel) (listener : Listener)
  | send (signal : Signal)

namespace Chain.Step

/-- What is wired up by a step. -/
def wire? : Chain.Step → Option (Ref .channel × Listener)
  | listen channel listener => some (channel, listener)
  | send _ => none

/-- What is sent by a step. -/
def signal? : Chain.Step → Option Signal
  | listen _ _ => none
  | send signal => some signal

/-- Do a step, where signals are sent to a source. -/
def run (engine : Engine) (source : Ref .channel) : Chain.Step → Effect Machine Result
  | listen channel listener => subscribe engine channel listener
  | send signal => do
    emit engine source signal
    pure (.ok ())

end Chain.Step

/-- Do steps one after the other. -/
def Chain.runSteps (engine : Engine) (source : Ref .channel) :
    List Chain.Step → Effect Machine (List Result)
  | [] => pure []
  | step :: rest => do
    let result ← step.run engine source
    let results ← Chain.runSteps engine source rest
    pure (result :: results)

/-! ## Chains that are wired in part -/

/-- The things that a part of a chain is made of. -/
def Chain.thingsOf (collector : Ref .collector) (channels : List (Ref .channel)) : List Thing :=
  channels.map Ref.thing ++ [collector.thing]

/-- A part of a chain of which some channels are wired, behind the signals `past`. A channel that is
not wired keeps them all, and what is behind it has got none. -/
def Chained (collector : Ref .collector) (wired : List (Ref .channel)) :
    List (Ref .channel) → History → Machine → Prop
  | [], past, m => m.collectors.get collector = past.signals.foldl Collector.hear default
  | channel :: rest, past, m =>
    if channel ∈ wired then
      m.channel channel = .idle (Chain.listenerBefore collector rest) past ∧
        Chained collector wired rest past m
    else m.channel channel = .keeping past ∧ Chained collector wired rest .empty m

section Chained

variable {collector : Ref .collector} {wired channels rest : List (Ref .channel)}
  {channel : Ref .channel} {past : History} {m m' : Machine}

theorem chained_cons_of_wired (member : channel ∈ wired) :
    Chained collector wired (channel :: rest) past m ↔
      m.channel channel = .idle (Chain.listenerBefore collector rest) past ∧
        Chained collector wired rest past m := by
  rw [Chained, if_pos member]

theorem chained_cons_of_not_wired (apart : channel ∉ wired) :
    Chained collector wired (channel :: rest) past m ↔
      m.channel channel = .keeping past ∧ Chained collector wired rest .empty m := by
  rw [Chained, if_neg apart]

/-- A channel is a thing of its own. -/
theorem thing_notMem_thingsOf (collector : Ref .collector) (apart : channel ∉ channels) :
    channel.thing ∉ Chain.thingsOf collector channels := by
  intro member
  rcases List.mem_append.1 member with member | member
  · obtain ⟨other, among, same⟩ := List.mem_map.1 member
    cases other
    cases channel
    cases same
    exact apart among
  · cases List.mem_singleton.1 member

/-- Wiring a channel that is elsewhere is no matter. -/
theorem Chained.wire_elsewhere (chained : Chained collector wired channels past m)
    (elsewhere : channel ∉ channels) : Chained collector (channel :: wired) channels past m := by
  induction channels generalizing past with
  | nil => exact chained
  | cons first rest ih =>
    rw [List.mem_cons, not_or] at elsewhere
    have other : first ≠ channel := fun same => elsewhere.1 same.symm
    by_cases member : first ∈ wired
    · rw [chained_cons_of_wired member] at chained
      rw [chained_cons_of_wired (List.mem_cons_of_mem _ member)]
      exact ⟨chained.1, ih chained.2 elsewhere.2⟩
    · rw [chained_cons_of_not_wired member] at chained
      rw [chained_cons_of_not_wired (by simp [other, member])]
      exact ⟨chained.1, ih chained.2 elsewhere.2⟩

/-- When all is wired the collector has got everything. -/
theorem Chained.collector_of_all (chained : Chained collector wired channels past m)
    (all : ∀ channel ∈ channels, channel ∈ wired) :
    m.collectors.get collector = past.signals.foldl Collector.hear default := by
  induction channels with
  | nil => exact chained
  | cons first rest ih =>
    rw [List.forall_mem_cons] at all
    rw [chained_cons_of_wired all.1] at chained
    exact ih chained.2 all.2

/-- A chain is without anything at first. -/
theorem Chained.of_fresh (fresh : ∀ channel ∈ channels, m.channel channel = .fresh)
    (empty : m.collectors.get collector = default) :
    Chained collector [] channels .empty m := by
  induction channels with
  | nil => exact empty
  | cons first rest ih =>
    rw [List.forall_mem_cons] at fresh
    exact (chained_cons_of_not_wired (List.not_mem_nil)).2 ⟨fresh.1, ih fresh.2⟩

end Chained

/-- Chains rely on nothing and take all values. -/
def Setting.bare : Setting := ⟨fun _ => True, fun _ => True, fun _ _ => trivial⟩

theorem Setting.admitsSignal_bare (signal : Signal) : Setting.bare.AdmitsSignal signal := by
  cases signal <;> trivial

section Wiring

variable {engine : Nat → Engine}
  (handsOver : ∀ fuel ref, (engine (fuel + 1)).deliver ref = deliverAll (engine fuel) ref)
  {collector : Ref .collector} {wired channels rest : List (Ref .channel)} {channel : Ref .channel}

include handsOver

/-- A channel in front of what takes signals is an outlet, wired or not. -/
theorem outlet_chained (apart : channel ∉ rest)
    (takes : (Chain.listenerBefore collector rest).Takes engine .bare
      (Chain.thingsOf collector rest) (Chained collector wired rest)) :
    Outlet engine .bare channel (Chain.thingsOf collector (channel :: rest))
      (Chained collector wired (channel :: rest)) := by
  have apart := thing_notMem_thingsOf collector apart
  by_cases member : channel ∈ wired
  · have same : Chained collector wired (channel :: rest) = fun past m =>
        m.channel channel = .idle (Chain.listenerBefore collector rest) past ∧
          Chained collector wired rest past m :=
      funext fun past => funext fun m => propext (chained_cons_of_wired member)
    rw [same]
    exact .of_takes handsOver takes apart
  · have same : Chained collector wired (channel :: rest) = fun past m =>
        m.channel channel = .keeping past ∧ Chained collector wired rest .empty m :=
      funext fun past => funext fun m => propext (chained_cons_of_not_wired member)
    rw [same]
    exact (Outlet.keeping channel).beside takes.spare fun thing among same =>
      apart (List.mem_singleton.1 same ▸ among)

/-- Whatever is wired, a part of a chain is a function of the signals that it was handed. -/
theorem takes_chained (distinct : channels.Nodup) :
    (Chain.listenerBefore collector channels).Takes engine .bare (Chain.thingsOf collector channels)
      (Chained collector wired channels) := by
  induction channels with
  | nil => exact takes_collector collector default
  | cons channel rest ih =>
    obtain ⟨apart, distinct⟩ := List.nodup_cons.1 distinct
    exact takes_forward (outlet_chained handsOver apart (ih distinct))

/-- When one more channel is wired, it hands on all that it has kept. -/
theorem ends_wire (distinct : channels.Nodup) {listener : Listener}
    (planned : (channel, listener) ∈ Chain.wiresOf collector channels) (apart : channel ∉ wired)
    {past : History} {m : Machine} (chained : Chained collector wired channels past m) :
    ∃ m', Ends (fun fuel => subscribe (engine fuel) channel listener) m (.ok ()) m' ∧
      Chained collector (channel :: wired) channels past m' ∧
      Setting.bare.Passage (Chain.thingsOf collector channels) m m' := by
  -- Along the chain: in front of the channel nothing changes, and all behind it is fed.
  induction channels generalizing past with
  | nil => cases planned
  | cons first rest ih =>
    obtain ⟨first_apart, distinct_rest⟩ := List.nodup_cons.1 distinct
    have more : Chain.thingsOf collector rest ⊆ Chain.thingsOf collector (first :: rest) :=
      List.subset_cons_self _ _
    rcases List.mem_cons.1 planned with here | later
    · cases here
      rw [chained_cons_of_not_wired apart] at chained
      obtain ⟨m', subscribed, ⟨idle, fed⟩, passage⟩ :=
        (takes_chained handsOver distinct_rest).ends_subscribe
        handsOver (thing_notMem_thingsOf collector first_apart)
        (fun signal _ => Setting.admitsSignal_bare signal) chained.1 chained.2 trivial
      refine ⟨m', subscribed, ?_, passage⟩
      rw [chained_cons_of_wired (List.mem_cons_self ..)]
      exact ⟨idle, fed.wire_elsewhere first_apart⟩
    · have other : first ≠ channel := by
        rintro rfl
        exact first_apart (mem_of_mem_wiresOf later)
      by_cases member : first ∈ wired
      · rw [chained_cons_of_wired member] at chained
        obtain ⟨m', subscribed, fed, passage⟩ := ih distinct_rest later chained.2
        refine ⟨m', subscribed, ?_, passage.mono more⟩
        rw [chained_cons_of_wired (List.mem_cons_of_mem _ member),
          passage.touches.channel first (thing_notMem_thingsOf collector first_apart)]
        exact ⟨chained.1, fed⟩
      · rw [chained_cons_of_not_wired member] at chained
        obtain ⟨m', subscribed, fed, passage⟩ := ih distinct_rest later chained.2
        refine ⟨m', subscribed, ?_, passage.mono more⟩
        rw [chained_cons_of_not_wired (by simp [other, member]),
          passage.touches.channel first (thing_notMem_thingsOf collector first_apart)]
        exact ⟨chained.1, fed⟩

/-- Steps come to an end one after the other: what was sent is accepted, and what was wired is
wired. -/
theorem ends_runSteps {source : Ref .channel} {relays : List (Ref .channel)}
    (distinct : (source :: relays).Nodup) {steps : List Chain.Step}
    (planned : ∀ wire ∈ steps.filterMap Chain.Step.wire?,
      wire ∈ Chain.wiresOf collector (source :: relays) ∧ wire.1 ∉ wired)
    (once : ((steps.filterMap Chain.Step.wire?).map Prod.fst).Nodup)
    {past : History} {m : Machine} (chained : Chained collector wired (source :: relays) past m) :
    ∃ m' wired', Ends (fun fuel => Chain.runSteps (engine fuel) source steps) m
        (steps.map fun _ => .ok ()) m' ∧
      Chained collector wired' (source :: relays)
        (past.acceptAll (steps.filterMap Chain.Step.signal?)) m' ∧
      wired ⊆ wired' ∧ (steps.filterMap Chain.Step.wire?).map Prod.fst ⊆ wired' := by
  induction steps generalizing wired past m with
  | nil => exact ⟨m, wired, .of_eq fun _ => rfl, chained, List.Subset.refl _, List.nil_subset _⟩
  | cons step rest ih =>
    cases step with
    | listen channel listener =>
      have head : (Chain.Step.listen channel listener :: rest).filterMap Chain.Step.wire? =
        (channel, listener) :: rest.filterMap Chain.Step.wire? := rfl
      rw [head, List.forall_mem_cons] at planned
      rw [head, List.map_cons, List.nodup_cons] at once
      obtain ⟨m₁, subscribed, chained₁, -⟩ :=
        ends_wire handsOver distinct planned.1.1 planned.1.2 chained
      -- No channel is listened to twice, so those to come are not this one.
      have planned₁ : ∀ wire ∈ rest.filterMap Chain.Step.wire?,
          wire ∈ Chain.wiresOf collector (source :: relays) ∧ wire.1 ∉ channel :: wired := by
        intro wire among
        refine ⟨(planned.2 wire among).1, ?_⟩
        rw [List.mem_cons, not_or]
        refine ⟨fun same => once.1 ?_, (planned.2 wire among).2⟩
        exact List.mem_map.2 ⟨wire, among, same⟩
      obtain ⟨m', wired', ended, chained', kept, all⟩ := ih planned₁ once.2 chained₁
      rw [List.cons_subset] at kept
      refine ⟨m', wired', ?_, chained', kept.2, ?_⟩
      · exact subscribed.bind (ended.bind (.of_eq fun _ => rfl))
      · rw [head, List.map_cons, List.cons_subset]
        exact ⟨kept.1, all⟩
    | send signal =>
      obtain ⟨apart, distinct_relays⟩ := List.nodup_cons.1 distinct
      have outlet : Outlet engine .bare source (Chain.thingsOf collector (source :: relays))
          (Chained collector wired (source :: relays)) :=
        outlet_chained handsOver apart (takes_chained handsOver distinct_relays)
      obtain ⟨m₁, sent, chained₁, -⟩ :=
        outlet.write chained trivial (Setting.admitsSignal_bare signal)
      obtain ⟨m', wired', ended, rest'⟩ := ih planned once chained₁
      have made : Ends (fun fuel => Chain.Step.run (engine fuel) source (.send signal)) m
          (.ok ()) m₁ :=
        sent.bind (.of_eq fun _ => rfl)
      exact ⟨m', wired', made.bind (ended.bind (.of_eq fun _ => rfl)), rest'⟩

end Wiring

/-! ## The order of wiring -/

/-- Let the channels of a chain be wired up in any order, each of them once, and let signals be
sent to the first of them before, between and after. Then every step comes to an end and succeeds,
and the collector holds exactly the values that were sent before the first terminal signal, in
order, and exactly that signal if there was one. -/
theorem Chain.collector_of_wired (host : Host) (chain : Chain) {m : Machine}
    (fresh : chain.IsFresh m)
    {steps : List Chain.Step} (wiring : (steps.filterMap Chain.Step.wire?).Perm chain.wires) :
    ∃ m', Ends (fun fuel => Chain.runSteps (.ofFuel host fuel) chain.source steps) m
        (steps.map fun _ => .ok ()) m' ∧
      m'.collectors.get chain.collector = .ofSent (steps.filterMap Chain.Step.signal?) := by
  have handsOver (fuel : Nat) (ref : Ref .channel) :
      (Engine.ofFuel host (fuel + 1)).deliver ref = deliverAll (.ofFuel host fuel) ref := rfl
  have fst : (steps.filterMap Chain.Step.wire?).map Prod.fst |>.Perm chain.channels := by
    rw [← map_fst_wiresOf chain.collector chain.channels]
    exact wiring.map _
  obtain ⟨m', wired, ended, chained, -, all⟩ := ends_runSteps handsOver chain.distinct
    (fun wire member => ⟨wiring.subset member, List.not_mem_nil⟩)
    (fst.nodup_iff.2 chain.distinct) (.of_fresh fresh.channel fresh.collector)
  refine ⟨m', ended, ?_⟩
  rw [chained.collector_of_all fun channel member => all (fst.symm.subset member),
    Collector.foldl_hear_acceptAll]

/-- Two channels are wired up from behind while signals are sent. -/
theorem Chain.collector_of_wired_between :
    let chain : Chain := ⟨⟨0⟩, [⟨1⟩], ⟨0⟩, by decide⟩
    let m := (Machine.ofConfig .standard).newChannel.2.newChannel.2
    let steps : List Chain.Step := [.send (.next (.number 1)), .listen ⟨1⟩ (.collector ⟨0⟩),
      .send (.next (.number 2)), .listen ⟨0⟩ (.forward ⟨1⟩), .send .complete, .send (.next .none)]
    ∃ m', Ends (fun fuel => Chain.runSteps (.ofFuel .none fuel) chain.source steps) m
        (steps.map fun _ => .ok ()) m' ∧
      m'.collectors.get chain.collector = ⟨[.number 1, .number 2], none, true⟩ := by
  refine collector_of_wired .none _ ⟨fun ref member => ?_, rfl⟩ (List.Perm.swap _ _ _)
  simp only [channels, List.mem_cons, List.not_mem_nil, or_false] at member
  rcases member with rfl | rfl <;> rfl

end Wordstream
