import Wordstream.Proofs.Conduct

/-!
# What is behind a channel

An outlet is a channel together with all that is behind it, so that writing to the channel comes
to an end and the state of everything behind it is a function of the signals that were written.
Outlets are put together from the end: a channel that keeps its signals, and a channel with a
listener that takes signals one by one, such as a collector, a relay that is an outlet again, or a
stage that writes to an outlet.

Who begins to listen to a channel that has kept its signals finds the same state as who has listened
from the start.

## Main results

* `Listener.Takes.ends_deliver` — handing over what waits
* `Outlet.keeping`, `Outlet.of_takes` — kinds of outlets
* `takes_collector`, `takes_forward`, `takes_stage` — kinds of listeners
* `Listener.Takes.ends_subscribe` — listening later
-/

namespace Wordstream

/-- A channel with all that is behind it, which is made of some things: `Down past` holds when the
signals `past` were written. Writing comes to an end, and what is done to other things is no
matter. -/
structure Outlet (engine : Nat → Engine) (world : Setting) (c : Ref .channel) (things : List Thing)
    (Down : History → Machine → Prop) : Prop where
  write {past : History} {m : Machine} {signal : Signal} (down : Down past m)
    (holds : world.Holds m) (admits : world.AdmitsSignal signal) :
    ∃ m', Ends (fun fuel => emit (engine fuel) c signal) m () m' ∧ Down (past.accept signal) m' ∧
      world.Passage things m m'
  spare {past : History} {m m' : Machine} (down : Down past m) (keeps : m.Keeps things m') :
    Down past m'

/-- A listener with all that is behind it: `Down given` holds when it was handed the signals
`given`. -/
structure Listener.Takes (listener : Listener) (engine : Nat → Engine) (world : Setting)
    (things : List Thing) (Down : History → Machine → Prop) : Prop where
  take {given : History} {m : Machine} {signal : Signal} (still_open : given.ending? = none)
    (down : Down given m) (holds : world.Holds m) (admits : world.AdmitsSignal signal) :
    ∃ m', Ends (fun fuel => deliverTo (engine fuel) listener signal) m () m' ∧
      Down (given.accept signal) m' ∧ world.Passage things m m'
  spare {given : History} {m m' : Machine} (down : Down given m) (keeps : m.Keeps things m') :
    Down given m'

/-! ## Handing over -/

namespace Listener.Takes

variable {listener : Listener} {engine : Nat → Engine} {world : Setting} {things : List Thing}
  {Down : History → Machine → Prop} (takes : listener.Takes engine world things Down)
  (handsOver : ∀ fuel ref, (engine (fuel + 1)).deliver ref = deliverAll (engine fuel) ref)
  {c : Ref .channel} (apart : c.thing ∉ things)

include takes apart

/-- What a listener has taken is not changed by what is done to the channel that it listens to. -/
theorem setChannel {given : History} {m : Machine} (down : Down given m) (channel : Channel) :
    Down given (m.setChannel c channel) := by
  refine takes.spare down ((m.touches_setChannel c channel).keeps fun thing member same => ?_)
  exact apart (List.mem_singleton.1 same ▸ member)

include handsOver

/-- A listener that takes each signal takes all that wait. -/
theorem ends_deliver {waiting : List Signal}
    (admits : ∀ signal ∈ waiting, world.AdmitsSignal signal) {total given : History}
    (split : total.signals = given.signals ++ waiting) {m : Machine} {busy : Bool}
    (here : m.channel c = .handing listener busy waiting total) (down : Down given m)
    (holds : world.Holds m) :
    ∃ m', Ends (fun fuel => (engine fuel).deliver c) m () m' ∧
      (m'.channel c = .idle listener total ∧ Down total m') ∧
      world.Passage (c.thing :: things) m m' := by
  -- On what waits: each signal is taken off and handed over while the listener is busy.
  induction waiting generalizing given m busy with
  | nil =>
    have all : given = total := History.ext (by rw [split, List.append_nil])
    refine ⟨m.setChannel c (.idle listener total), .of_succ (.of_eq fun fuel => ?_),
      ⟨by simp, takes.setChannel apart (all ▸ down) _⟩,
      (Setting.Passage.of_setChannel holds c _).mono (by simp)⟩
    rw [handsOver, deliverAll_apply, here]
    rfl
  | cons signal rest ih =>
    have still_open := History.ending?_of_append split
    have taken : world.Passage (c.thing :: things) m
        (m.setChannel c (.handing listener true rest total)) :=
      (Setting.Passage.of_setChannel holds c _).mono (by simp)
    obtain ⟨m₁, handed, down₁, passage₁⟩ := takes.take still_open
      (takes.setChannel apart down (.handing listener true rest total)) taken.holds
      (admits signal (List.mem_cons_self ..))
    have here₁ : m₁.channel c = .handing listener true rest total := by
      rw [passage₁.touches.channel c apart, Machine.channel_setChannel, if_pos rfl]
    have split₁ : total.signals = (given.accept signal).signals ++ rest := by
      rw [History.accept_of_open still_open, List.append_assoc]
      exact split
    obtain ⟨m', delivered, down', passage'⟩ :=
      ih (fun signal member => admits signal (List.mem_cons_of_mem _ member)) split₁ here₁ down₁
        passage₁.holds
    refine ⟨m', .of_succ ?_, down',
      (taken.trans (passage₁.mono (List.subset_cons_self _ _))).trans passage'⟩
    have both : Ends (fun fuel => deliverTo (engine fuel) listener signal >>= fun _ =>
        (engine fuel).deliver c) (m.setChannel c (.handing listener true rest total)) () m' :=
      handed.bind delivered
    refine .congr (fun fuel => ?_) both
    rw [handsOver, deliverAll_apply, here]
    rfl

/-- Who begins to listen is handed all that was kept. -/
theorem ends_subscribe {past : History} (admits : world.AdmitsAll past) {m : Machine}
    (here : m.channel c = .keeping past) (down : Down .empty m) (holds : world.Holds m) :
    ∃ m', Ends (fun fuel => subscribe (engine fuel) c listener) m (.ok ()) m' ∧
      (m'.channel c = .idle listener past ∧ Down past m') ∧
      world.Passage (c.thing :: things) m m' := by
  have here₁ : (m.setChannel c (.handing listener false past.signals past)).channel c =
      .handing listener false past.signals past := by simp
  have attached : world.Passage (c.thing :: things) m
      (m.setChannel c (.handing listener false past.signals past)) :=
    (Setting.Passage.of_setChannel holds c _).mono (by simp)
  -- Nothing has been handed over yet, and everything kept waits to be.
  have split : past.signals = History.empty.signals ++ past.signals := rfl
  obtain ⟨m', ⟨bound, delivered⟩, down', passage⟩ := takes.ends_deliver handsOver apart admits
    split here₁ (takes.setChannel apart down _) attached.holds
  refine ⟨m', ⟨bound, fun fuel enough => ?_⟩, down', attached.trans passage⟩
  have delivered : (engine fuel).deliver c
      (m.setChannel c (.handing listener false past.signals past)) = (some (), m') :=
    delivered fuel enough
  refine (subscribe_apply _ _ _ _).trans ?_
  have free : (m.channel c).attach? listener =
      some (.handing listener false past.signals past) := by rw [here]; rfl
  rw [free]
  dsimp only
  rw [delivered, Option.map_some]

end Listener.Takes

/-! ## Outlets -/

namespace Outlet

variable {engine : Nat → Engine} {world : Setting}

/-- A channel that keeps its signals. -/
theorem keeping (c : Ref .channel) :
    Outlet engine world c [c.thing] fun past m => m.channel c = .keeping past where
  write {past m signal} here holds _ := by
    refine ⟨m.setChannel c ((m.channel c).accept signal), .of_eq fun fuel => ?_, ?_,
      .of_setChannel holds c _⟩
    · rw [emit_apply, here, Channel.mustDeliver_keeping]
      rfl
    · rw [Machine.channel_setChannel, if_pos rfl, here, Channel.accept_keeping]
  spare here keeps := by
    rw [keeps.channel c (List.mem_singleton_self _), here]

/-- More may be behind a channel than what is written to. -/
theorem beside {c : Ref .channel} {things more : List Thing} {Down : History → Machine → Prop}
    {Rest : Machine → Prop} (outlet : Outlet engine world c things Down)
    (spare : ∀ {m m'}, Rest m → m.Keeps more m' → Rest m')
    (apart : ∀ thing ∈ more, thing ∉ things) :
    Outlet engine world c (things ++ more) fun past m => Down past m ∧ Rest m where
  write := by
    rintro past m signal ⟨down, rest⟩ holds admits
    obtain ⟨m', written, down', passage⟩ := outlet.write down holds admits
    exact ⟨m', written, ⟨down', spare rest (passage.touches.keeps apart)⟩,
      passage.mono (List.subset_append_left _ _)⟩
  spare down keeps :=
    ⟨outlet.spare down.1 (keeps.mono (List.subset_append_left _ _)),
      spare down.2 (keeps.mono (List.subset_append_right _ _))⟩

/-- A channel with a listener that takes signals one by one. -/
theorem of_takes
    (handsOver : ∀ fuel ref, (engine (fuel + 1)).deliver ref = deliverAll (engine fuel) ref)
    {listener : Listener} {things : List Thing} {Down : History → Machine → Prop}
    (takes : listener.Takes engine world things Down) {c : Ref .channel}
    (apart : c.thing ∉ things) :
    Outlet engine world c (c.thing :: things) fun past m =>
      m.channel c = .idle listener past ∧ Down past m where
  write {past m signal} := by
    rintro ⟨here, down⟩ holds admits
    let m₁ := m.setChannel c ((m.channel c).accept signal)
    have accepted : world.Passage (c.thing :: things) m m₁ :=
      (Setting.Passage.of_setChannel holds c _).mono (by simp)
    have down₁ : Down past m₁ := takes.setChannel apart down _
    by_cases still_open : past.ending? = none
    · have here₁ : m₁.channel c = .handing listener false [signal] (past.accept signal) := by
        rw [Machine.channel_setChannel, if_pos rfl, here, Channel.accept_idle still_open]
      obtain ⟨m', delivered, down', passage⟩ := takes.ends_deliver handsOver apart
        (by simpa using admits) (History.accept_of_open still_open signal) here₁ down₁
        accepted.holds
      have due : (m.channel c).mustDeliver := by
        rw [here, Channel.mustDeliver_idle, still_open]
        rfl
      refine ⟨m', .congr (fun fuel => ?_) delivered, down', accepted.trans passage⟩
      rw [emit_apply, if_pos due]
    · -- The signal comes too late.
      have late : ¬ (m.channel c).mustDeliver := by
        rw [here, Channel.mustDeliver_idle, Option.isNone_iff_eq_none]
        exact still_open
      refine ⟨m₁, .of_eq fun fuel => ?_, ?_, accepted⟩
      · rw [emit_apply, if_neg late]
      · rw [History.accept_of_ended still_open]
        refine ⟨?_, down₁⟩
        rw [Machine.channel_setChannel, if_pos rfl, here, Channel.accept_idle_of_ended still_open]
  spare down keeps := by
    refine ⟨?_, takes.spare down.2 (keeps.mono (List.subset_cons_self _ _))⟩
    rw [keeps.channel c (List.mem_cons_self ..), down.1]

end Outlet

/-! ## Listeners -/

section Listeners

variable {engine : Nat → Engine} {world : Setting}

/-- A relay that is an outlet takes what it is handed. -/
theorem takes_forward {relay : Ref .channel} {things : List Thing}
    {Down : History → Machine → Prop} (outlet : Outlet engine world relay things Down) :
    (Listener.forward relay).Takes engine world things Down where
  take _ down holds admits := outlet.write down holds admits
  spare := outlet.spare

/-- A collector takes what it is handed. -/
theorem takes_collector (ref : Ref .collector) (start : Collector) :
    (Listener.collector ref).Takes engine world [ref.thing] fun given m =>
      m.collectors.get ref = given.signals.foldl Collector.hear start where
  take {given m signal} still_open down holds _ := by
    refine ⟨{ m with collectors := m.collectors.set ref ((m.collectors.get ref).hear signal) },
      .of_eq fun _ => rfl, ?_, world.of_backdrop (by rfl) holds, .of_footing rfl, ?_⟩
    · rw [Arena.get_set, if_pos rfl, down, History.accept_of_open still_open, List.foldl_append]
      rfl
    · refine ⟨fun _ _ => rfl, fun _ _ => rfl, fun other apart => ?_, fun _ _ => rfl,
        fun _ has => has.set _ _, rfl, rfl, rfl, id⟩
      rw [Arena.get_set, if_neg]
      rintro rfl
      exact apart (List.mem_singleton_self _)
  spare down keeps := by
    rw [keeps.collector ref (List.mem_singleton_self _), down]

/-- Giving a stage its result, unless it has one, touches nothing else. -/
theorem ends_finishStage {ref : Ref .stage} (result : Result) {m : Machine}
    (has : m.stages.Has ref) (holds : world.Holds m) :
    ∃ m', Ends (fun _ => finishStage ref result) m () m' ∧
      m'.stages.get ref =
        { m.stages.get ref with result := (m.stages.get ref).result <|> some result } ∧
      world.Passage [ref.thing] m m' := by
  cases given : (m.stages.get ref).result with
  | some other =>
    refine ⟨m, .of_eq fun _ => finishStage_of_some result given, ?_, .refl holds⟩
    change m.stages.get ref = { m.stages.get ref with result := some other }
    rw [← given]
  | none =>
    refine ⟨_, .of_eq fun _ => finishStage_of_none result given, by simp,
      world.of_backdrop (by rfl) holds,
      .of_footing rfl, ?_⟩
    refine ⟨fun _ _ => rfl, fun other apart => ?_, fun _ _ => rfl, fun _ _ => rfl, fun _ => id,
      has.next_set _, rfl, rfl, fun _ => rfl⟩
    rw [Arena.get_set, if_neg]
    rintro rfl
    exact apart (List.mem_singleton_self _)

/-- A stage that has come so far, with what it has written behind it. -/
structure Worked (ref : Ref .stage) (step : Step) (out : Ref .channel)
    (Down : History → Machine → Prop) (flow : Flow) (m : Machine) : Prop where
  has : m.stages.Has ref
  stage : m.stages.get ref = ⟨step, out, flow.result⟩
  own : step.own? m = flow.memory
  down : Down flow.written m

/-- A stage is where it was if it is kept, and so is what is behind it. -/
theorem Worked.keeps {ref : Ref .stage} {step : Step} {out : Ref .channel}
    {Down Down' : History → Machine → Prop} {flow : Flow} {m m' : Machine}
    (worked : Worked ref step out Down flow m) (keeps : m.Keeps (ref.thing :: step.things) m')
    (down : Down' flow.written m') : Worked ref step out Down' flow m' where
  has := keeps.has_stage ref (List.mem_cons_self ..) worked.has
  stage := by rw [keeps.stage ref (List.mem_cons_self ..), worked.stage]
  own := by rw [(keeps.mono (List.subset_cons_self _ _)).own?, worked.own]
  down := down

section Stage

variable {things : List Thing} {Down : History → Machine → Prop} {out : Ref .channel}
  {ref : Ref .stage} {step : Step} {conduct : Conduct} {flow : Flow} {m : Machine}
  (outlet : Outlet engine world out things Down)
  (apart : (ref.thing :: (step.things ++ things)).Nodup)

include outlet apart

/-- A stage tells its output of an end, and gets a result unless it has one. -/
theorem Worked.ends_end (worked : Worked ref step out Down flow m) (holds : world.Holds m)
    {signal : Signal} (admits : world.AdmitsSignal signal) (result : Result) :
    ∃ m', Ends (fun fuel => do emit (engine fuel) out signal; finishStage ref result) m () m' ∧
      Worked ref step out Down
        ⟨flow.memory, flow.result <|> some result, flow.written.accept signal⟩ m' ∧
      world.Passage (ref.thing :: (step.things ++ things)) m m' := by
  simp only [List.nodup_cons, List.mem_append, not_or, List.nodup_append] at apart
  obtain ⟨⟨ref_own, ref_apart⟩, _, _, own_apart⟩ := apart
  obtain ⟨m₁, told, down₁, passage₁⟩ := outlet.write worked.down holds admits
  have stage₁ : m₁.stages.get ref = ⟨step, out, flow.result⟩ := by
    rw [passage₁.touches.stage ref ref_apart, worked.stage]
  have has₁ := worked.has.of_next passage₁.touches.next_stage
  obtain ⟨m', finished, stage', passage'⟩ := ends_finishStage result has₁ passage₁.holds
  refine ⟨m', told.bind finished,
    ⟨has₁.of_next passage'.touches.next_stage, by rw [stage', stage₁], ?_, ?_⟩,
    (passage₁.mono (by simp)).trans (passage'.mono (by simp))⟩
  · rw [(passage'.touches.keeps fun thing member same =>
        ref_own (List.mem_singleton.1 same ▸ member)).own?,
      (passage₁.touches.keeps fun thing member same => own_apart thing member thing same rfl).own?,
      worked.own]
  · -- Giving the stage its result touches nothing of the outlet.
    refine outlet.spare down₁ (passage'.touches.keeps fun thing member same => ?_)
    exact ref_apart (List.mem_singleton.1 same ▸ member)

/-- A step runs as its conduct says: it has written to the outlet, and the stage is as it was. -/
theorem Worked.ends_runStep (follows : step.Follows engine world out conduct)
    (worked : Worked ref step out Down flow m) (suits : conduct.Suits flow.memory)
    (holds : world.Holds m) {value : Value} (admits : world.Admits value) :
    ∃ m', Ends (fun fuel => runStep (engine fuel) ⟨step, out, none⟩ value) m
        (conduct.respond flow.memory value).result m' ∧
      Worked ref step out Down ⟨(conduct.respond flow.memory value).memory, flow.result,
        flow.written.acceptAll ((conduct.respond flow.memory value).outputs.map .next)⟩ m' ∧
      world.Passage (ref.thing :: (step.things ++ things)) m m' := by
  simp only [List.nodup_cons, List.mem_append, not_or, List.nodup_append] at apart
  obtain ⟨⟨ref_own, ref_apart⟩, _, _, own_apart⟩ := apart
  rw [← worked.own] at suits ⊢
  -- The invariant of the run: what the outlet has been told so far, and what was touched for it.
  obtain ⟨m', ran, ⟨down', touches⟩, holds', posture, own'⟩ := follows.runs
    (fun told m' => Down (flow.written.acceptAll (told.map .next)) m' ∧
      m.Touches (step.things ++ things) m')
    (fun {_ _ _} ⟨down, touches⟩ aside =>
      ⟨outlet.spare down
        (aside.keeps fun thing member same => own_apart thing same thing member rfl),
        touches.trans (aside.mono (List.subset_append_left _ _))⟩)
    (fun {told m₁ value} ⟨down, touches⟩ holds admits => by
      have admits : world.AdmitsSignal (.next value) := admits
      obtain ⟨m₂, written, down₂, passage⟩ := outlet.write down holds admits
      refine ⟨m₂, written,
        ⟨?_, touches.trans (passage.touches.mono (List.subset_append_right _ _))⟩,
        passage.holds, passage.posture,
        (passage.touches.keeps fun thing member same => own_apart thing member thing same rfl).own?⟩
      rw [List.map_append, History.acceptAll_append]
      exact down₂)
    holds admits suits ⟨worked.down, .refl _ _⟩
  refine ⟨m', ran, ⟨worked.has.of_next touches.next_stage, ?_, own', down'⟩, holds', posture,
    touches.mono (List.subset_cons_self _ _)⟩
  rw [touches.stage ref (by simp [ref_own, ref_apart]), worked.stage]

/-- A stage takes a signal as its conduct says. -/
theorem Worked.ends_take (follows : step.Follows engine world out conduct)
    (worked : Worked ref step out Down flow m)
    (suits : flow.result = none → conduct.Suits flow.memory) (holds : world.Holds m)
    {signal : Signal} (admits : world.AdmitsSignal signal) :
    ∃ m', Ends (fun fuel => deliverToStage (engine fuel) ref signal) m () m' ∧
      Worked ref step out Down (conduct.take flow signal) m' ∧
      world.Passage (ref.thing :: (step.things ++ things)) m m' := by
  cases signal with
  | failed failure =>
    obtain ⟨m', ended, worked'⟩ := worked.ends_end outlet apart holds admits (.error failure)
    refine ⟨m', .congr (fun fuel => ?_) ended, worked'⟩
    change (do emit (engine fuel) (m.stages.get ref).out _; finishStage ref _) m = _
    rw [worked.stage]
  | complete =>
    obtain ⟨m', ended, worked'⟩ := worked.ends_end outlet apart holds admits (.ok ())
    refine ⟨m', .congr (fun fuel => ?_) ended, worked'⟩
    change (do emit (engine fuel) (m.stages.get ref).out _; finishStage ref _) m = _
    rw [worked.stage]
  | next value =>
    cases working : flow.result with
    | some result =>
      -- The stage has a result, so the value is dropped.
      rw [Conduct.take_next_of_result working]
      refine ⟨m, .of_eq fun fuel => ?_, worked, .refl holds⟩
      rw [deliverToStage_next, worked.stage, working]
      rfl
    | none =>
      have idle : m.stages.get ref = ⟨step, out, none⟩ := by rw [worked.stage, working]
      have opened (fuel : Nat) := deliverToStage_of_none (engine fuel) value idle rfl
      obtain ⟨m₁, ran, worked₁, passage₁⟩ :=
        worked.ends_runStep outlet apart follows (suits working) holds admits
      rw [working] at worked₁
      cases responded : (conduct.respond flow.memory value).result with
      | ok =>
        rw [responded] at ran
        rw [Conduct.take_next_of_ok working responded]
        exact ⟨m₁, .congr opened (.bind ran (.of_eq fun _ => rfl)), worked₁, passage₁⟩
      | error failure =>
        rw [responded] at ran
        rw [Conduct.take_next_of_error working responded]
        have admits : world.AdmitsSignal (.failed failure) := trivial
        obtain ⟨m', ended, worked', passage'⟩ :=
          worked₁.ends_end outlet apart passage₁.holds admits (.error failure)
        exact ⟨m', .congr opened (.bind ran ended), worked', passage₁.trans passage'⟩

/-- A stage takes the signals of its input as its conduct says. -/
theorem takes_stage (follows : step.Follows engine world out conduct) {start : Option Activation}
    (suits : conduct.Suits start) :
    (Listener.stage ref).Takes engine world (ref.thing :: (step.things ++ things)) fun given m =>
      Worked ref step out Down (conduct.flow start given) m ∧ world.AdmitsAll given where
  take {given m signal} := by
    rintro still_open ⟨worked, admitted⟩ holds admits
    obtain ⟨m', ended, worked', passage⟩ := worked.ends_take outlet apart follows
      (conduct.flow_suits follows suits admitted).1 holds admits
    rw [← conduct.flow_accept start still_open] at worked'
    exact ⟨m', ended, ⟨worked', admitted.accept admits⟩, passage⟩
  spare := by
    rintro given m m' ⟨worked, admitted⟩ keeps
    exact ⟨worked.keeps (keeps.mono (by simp)) (outlet.spare worked.down (keeps.mono (by simp))),
      admitted⟩

end Stage

end Listeners

end Wordstream
