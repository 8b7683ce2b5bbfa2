import Wordstream.Proofs.Outlet

/-!
# A line of stages

On a line every stage is fed by a relay, to which the channel before it is forwarded, and writes
to a channel that is forwarded to the next relay. The stages begin one after the other from the
first on; the relay of the first that has not begun keeps what arrives. At the exit of the line
signals are kept or collected.

The state of a line is a function of the signals at its entrance and of how many stages have begun.
When all have begun it makes no difference any more when they did.

## Main results

* `Line.outlet` — the entrance of a line is an outlet
* `Line.ends_begin` — the next stage begins
* `Line.ends_collect` — a collector comes to the exit
-/

namespace Wordstream

/-- What a stage will do: the conduct of its step, and the activation that it has at the start. -/
structure Player where
  conduct : Conduct
  start : Option Activation

/-- A stage behind all signals of its input. -/
abbrev Player.flow (player : Player) (past : History) : Flow :=
  player.conduct.flow player.start past

/-- What a stage does with values that end in some way: what it writes, and how it ends. -/
def Player.pass (x : Player) (values : List Value) (result : Result) : List Value × Result :=
  let response := x.conduct.respondAll x.start values
  (response.outputs, bothResults response.result result)

/-- A stage on a line: the relay that feeds it, where the stage is to be, what it does for each
value, and the channel that it writes to. -/
structure Station where
  relay : Ref .channel
  stage : Ref .stage
  step : Step
  out : Ref .channel
  player : Player

/-- The step of a station follows the conduct, from the start on. -/
structure Station.Lawful (x : Station) (engine : Nat → Engine) (world : Setting) : Prop where
  follows : x.step.Follows engine world x.out x.player.conduct
  suits : x.player.conduct.Suits x.player.start

/-- What becomes of the signals at the exit of a line. -/
inductive Exit where
  | kept
  | collected (ref : Ref .collector)

namespace Exit

/-- What is at an exit apart from its channel. -/
def things : Exit → List Thing
  | kept => []
  | collected ref => [ref.thing]

/-- An exit behind some signals. -/
def Holds : Exit → Ref .channel → History → Machine → Prop
  | kept, c, past, m => m.channel c = .keeping past
  | collected ref, c, past, m => m.channel c = .idle (.collector ref) past ∧
      m.collectors.get ref = past.signals.foldl Collector.hear default

/-- An exit is as it was if it is kept. -/
theorem Holds.keeps {exit : Exit} {c : Ref .channel} {past : History} {m m' : Machine}
    (holds : exit.Holds c past m) (keeps : m.Keeps (c.thing :: exit.things) m') :
    exit.Holds c past m' := by
  have here := keeps.channel c (List.mem_cons_self ..)
  cases exit with
  | kept => exact here.trans holds
  | collected ref =>
    exact ⟨here.trans holds.1,
      (keeps.collector ref (List.mem_cons_of_mem _ (List.mem_singleton_self _))).trans holds.2⟩

end Exit

namespace Line

/-- What a line is made of. -/
def things (exit : Exit) : List Station → Ref .channel → List Thing
  | [], c => c.thing :: exit.things
  | x :: rest, c => c.thing :: x.relay.thing :: x.stage.thing ::
      (x.step.things ++ things exit rest x.out)

/-- What is behind a station is a part of its line. -/
theorem things_sublist (exit : Exit) (x : Station) (rest : List Station) (c : Ref .channel) :
    (things exit rest x.out).Sublist (things exit (x :: rest) c) :=
  .cons _ (.cons _ (.cons _ (List.sublist_append_right _ _)))

/-- What is at the exit is apart from all else. -/
theorem things_eq_append (exit : Exit) (stations : List Station) (c : Ref .channel) :
    things exit stations c = things .kept stations c ++ exit.things := by
  induction stations generalizing c with
  | nil => rfl
  | cons x rest ih => simp [things, ih x.out]

/-- Nobody collects anywhere but at the exit. -/
theorem kind_of_mem_things {stations : List Station} {c : Ref .channel} {thing : Thing}
    (member : thing ∈ things .kept stations c) : thing.kind ≠ .collector := by
  induction stations generalizing c with
  | nil =>
    rw [List.mem_singleton.1 member]
    exact nofun
  | cons x rest ih =>
    simp only [things, List.mem_cons, List.mem_append] at member
    rcases member with rfl | rfl | rfl | own | behind
    · exact nofun
    · exact nofun
    · exact nofun
    · cases step : x.step with
      | body activation =>
        rw [step] at own
        rw [List.mem_singleton.1 own]
        exact nofun
      | call native args =>
        rw [step] at own
        cases own
    · exact ih behind

/-- It is no matter for the line who is at the exit. -/
theorem nodup_things (exit : Exit) {stations : List Station} {c : Ref .channel}
    (apart : (things .kept stations c).Nodup) : (things exit stations c).Nodup := by
  rw [things_eq_append]
  cases exit with
  | kept => rwa [Exit.things, List.append_nil]
  | collected ref =>
    refine List.nodup_append.2 ⟨apart, by simp [Exit.things], fun thing member other there => ?_⟩
    rw [List.mem_singleton.1 there]
    rintro rfl
    exact kind_of_mem_things member rfl

/-- A stage is a part of its line. -/
theorem stage_mem (exit : Exit) {stations : List Station} {n : Nat} {x : Station}
    (there : stations[n]? = some x) (c : Ref .channel) :
    x.stage.thing ∈ things exit stations c := by
  induction stations generalizing n c with
  | nil => cases there
  | cons y rest ih =>
    cases n with
    | zero =>
      obtain rfl : y = x := Option.some.inj there
      simp [things]
    | succ n => simp [things, ih there y.out]

/-- The channel at the exit of a line. -/
def last : List Station → Ref .channel → Ref .channel
  | [], c => c
  | x :: rest, _ => last rest x.out

/-- The exit is a part of its line. -/
theorem exit_subset (exit : Exit) (stations : List Station) (c : Ref .channel) :
    (last stations c).thing :: exit.things ⊆ things exit stations c := by
  induction stations generalizing c with
  | nil => exact List.Subset.refl _
  | cons x rest ih => exact fun _ member => (things_sublist exit x rest c).subset (ih x.out member)

/-- The stages of a line when all have begun, behind the signals at the entrance. -/
def flows : List Player → History → List Flow
  | [], _ => []
  | x :: rest, past => x.flow past :: flows rest (x.flow past).written

/-- What arrives at the exit of a line when all stages have begun. -/
def output : List Player → History → History
  | [], past => past
  | x :: rest, past => output rest (x.flow past).written

theorem length_flows (players : List Player) (past : History) :
    (flows players past).length = players.length := by
  induction players generalizing past with
  | nil => rfl
  | cons x rest ih => exact congrArg (· + 1) (ih _)

/-- Stages that have results keep them when more signals arrive. -/
theorem flows_extends (players : List Player) (past : History) (signals : List Signal) {i : Nat}
    {flow : Flow} (there : (flows players past)[i]? = some flow) :
    ∃ later, (flows players (past.acceptAll signals))[i]? = some later ∧
      ∀ result, flow.result = some result → later.result = some result := by
  induction players generalizing past signals i with
  | nil => cases there
  | cons x rest ih =>
    obtain ⟨⟨more, written⟩, keeps⟩ := x.conduct.flow_extends x.start past signals
    cases i with
    | zero =>
      obtain rfl := Option.some.inj there
      exact ⟨_, rfl, keeps⟩
    | succ i =>
      rw [flows, written]
      exact ih _ more there

/-- The values at the exit of a line when those at its entrance end in some way, and how they
end. -/
def pass : List Player → List Value → Result → List Value × Result
  | [], values, result => (values, result)
  | x :: rest, values, result => pass rest (x.pass values result).1 (x.pass values result).2

/-- How the stages of a line end, and the activations that they leave. -/
def ends : List Player → List Value → Result → List (Result × Option Activation)
  | [], _, _ => []
  | x :: rest, values, result =>
    ((x.pass values result).2, (x.conduct.respondAll x.start values).memory) ::
      ends rest (x.pass values result).1 (x.pass values result).2

/-- When the values at the entrance have ended, so have those at the exit. -/
theorem output_closed (players : List Player) (values : List Value) (result : Result) :
    output players (.closed values result) =
      .closed (pass players values result).1 (pass players values result).2 := by
  induction players generalizing values result with
  | nil => rfl
  | cons x rest ih =>
    rw [output, Player.flow, Conduct.flow_closed]
    exact ih _ _

theorem length_ends (players : List Player) (values : List Value) (result : Result) :
    (ends players values result).length = players.length := by
  induction players generalizing values result with
  | nil => rfl
  | cons x rest ih => exact congrArg (· + 1) (ih _ _)

/-- When the values at the entrance have ended, so have all stages. -/
theorem flows_closed (players : List Player) (values : List Value) (result : Result) :
    (flows players (.closed values result)).map (fun flow => (flow.result, flow.memory)) =
      (ends players values result).map fun ended => (some ended.1, ended.2) := by
  induction players generalizing values result with
  | nil => rfl
  | cons x rest ih =>
    rw [flows, ends, List.map_cons, List.map_cons, Player.flow, Conduct.flow_closed]
    exact congrArg (_ :: ·) (ih _ _)

/-- The stage at some place when the values at the entrance have ended. -/
theorem getElem?_flows_closed {players : List Player} {values : List Value} {result : Result}
    {i : Nat} {ended : Result × Option Activation}
    (there : (ends players values result)[i]? = some ended) :
    ∃ flow, (flows players (.closed values result))[i]? = some flow ∧ flow.result = some ended.1 ∧
      flow.memory = ended.2 := by
  have same := congrArg (·[i]?) (flows_closed players values result)
  rw [List.getElem?_map, List.getElem?_map, there, Option.map_some, Option.map_eq_some_iff] at same
  obtain ⟨flow, flowing, same⟩ := same
  exact ⟨flow, flowing, congrArg Prod.fst same, congrArg Prod.snd same⟩

/-- The state of a line, the first stages of which have begun, behind the signals at its
entrance. -/
def Carries (world : Setting) (exit : Exit) :
    List Station → Nat → Ref .channel → History → Machine → Prop
  | [], _, c => exit.Holds c
  | x :: rest, 0, c => fun past m =>
      m.channel c = .idle (.forward x.relay) past ∧ m.channel x.relay = .keeping past ∧
        x.step.own? m = x.player.start ∧ Carries world exit rest 0 x.out .empty m
  | x :: rest, n + 1, c => fun past m =>
      m.channel c = .idle (.forward x.relay) past ∧
        m.channel x.relay = .idle (.stage x.stage) past ∧
          Worked x.stage x.step x.out (Carries world exit rest n x.out)
            (x.player.flow past) m ∧
          world.AdmitsAll past

section State

variable {world : Setting} {exit : Exit} {stations : List Station} {n : Nat} {c : Ref .channel}
  {past : History} {m m' : Machine}

/-- A line is in the state that it was in until something is done to it. -/
theorem Carries.keeps (carries : Carries world exit stations n c past m)
    (keeps : m.Keeps (things exit stations c) m') : Carries world exit stations n c past m' := by
  induction stations generalizing n c past with
  | nil => exact Exit.Holds.keeps carries keeps
  | cons x rest ih =>
    have at_c : m'.channel c = m.channel c := keeps.channel c (by simp [things])
    have at_relay : m'.channel x.relay = m.channel x.relay :=
      keeps.channel x.relay (by simp [things])
    have kept : m.Keeps (x.stage.thing :: (x.step.things ++ things exit rest x.out)) m' :=
      keeps.mono fun thing member => List.mem_cons_of_mem _ (List.mem_cons_of_mem _ member)
    cases n with
    | zero =>
      obtain ⟨here, relayed, own, behind⟩ := carries
      refine ⟨at_c.trans here, at_relay.trans relayed, ?_, ih behind (kept.mono (by simp))⟩
      rw [(kept.mono (by simp)).own?, own]
    | succ n =>
      obtain ⟨here, relayed, worked, admits⟩ := carries
      exact ⟨at_c.trans here, at_relay.trans relayed,
        worked.keeps (kept.mono (by simp)) (ih worked.down (kept.mono (by simp))), admits⟩

/-- What is at the exit. When all stages have begun it is what has passed through the line. -/
theorem Carries.arrived (carries : Carries world exit stations n c past m) :
    ∃ heard, exit.Holds (last stations c) heard m ∧
      (stations.length ≤ n → heard = output (stations.map Station.player) past) := by
  induction stations generalizing n c past with
  | nil => exact ⟨past, carries, fun _ => rfl⟩
  | cons x rest ih =>
    cases n with
    | zero =>
      obtain ⟨heard, holds, -⟩ := ih carries.2.2.2
      exact ⟨heard, holds, fun all => by simp at all⟩
    | succ n =>
      obtain ⟨heard, holds, all⟩ := ih carries.2.2.1.down
      exact ⟨heard, holds, fun enough => all (Nat.le_of_succ_le_succ enough)⟩

/-- A stage that has begun has come as far as the signals have that arrived at it. -/
theorem Carries.begun (carries : Carries world exit stations n c past m) {i : Nat} {x : Station}
    (there : stations[i]? = some x) (begun : i < n) :
    ∃ flow heard, (flows (stations.map Station.player) past)[i]? = some flow ∧
      m.channel x.relay = .idle (.stage x.stage) heard ∧
      m.stages.get x.stage = ⟨x.step, x.out, flow.result⟩ ∧ x.step.own? m = flow.memory := by
  induction stations generalizing n c past i with
  | nil => cases there
  | cons y rest ih =>
    obtain ⟨n, rfl⟩ : ∃ rest, n = rest + 1 := ⟨n - 1, by omega⟩
    obtain ⟨-, relayed, worked, -⟩ := carries
    cases i with
    | zero =>
      obtain rfl : y = x := Option.some.inj there
      exact ⟨_, _, rfl, relayed, worked.stage, worked.own⟩
    | succ i => exact ih worked.down there (by omega)

/-- Nothing of what there is gets lost when a stage is made. -/
theorem keeps_addStage {things : List Thing} (stage : Stage)
    (apart : m.stages.next.thing ∉ things) :
    m.Keeps things (m.addStage stage) where
  channel _ _ := rfl
  stage ref member := by
    rw [Machine.addStage, Arena.get_alloc, if_neg]
    rintro rfl
    exact apart member
  has_stage _ _ has := has.alloc stage
  collector _ _ := rfl
  activation _ _ := rfl

end State

/-! ## What happens on a line -/

section Events

variable {world : Setting} {exit : Exit} {engine : Nat → Engine}
  (handsOver : ∀ fuel ref, (engine (fuel + 1)).deliver ref = deliverAll (engine fuel) ref)

include handsOver

theorem outlet_exit (c : Ref .channel) (apart : (c.thing :: exit.things).Nodup) :
    Outlet engine world c (c.thing :: exit.things) (exit.Holds c) := by
  cases exit with
  | kept => exact .keeping c
  | collected ref =>
    exact .of_takes handsOver (takes_collector ref default) (List.nodup_cons.1 apart).1

/-- The entrance of a line is an outlet. -/
theorem outlet {stations : List Station} (lawful : ∀ x ∈ stations, x.Lawful engine world)
    {c : Ref .channel} (apart : (things exit stations c).Nodup) (n : Nat) :
    Outlet engine world c (things exit stations c) (Carries world exit stations n c) := by
  induction stations generalizing n c with
  | nil => exact outlet_exit handsOver c apart
  | cons x rest ih =>
    rw [List.forall_mem_cons] at lawful
    obtain ⟨c_apart, apart⟩ := List.nodup_cons.1 apart
    obtain ⟨relay_apart, apart⟩ := List.nodup_cons.1 apart
    have apart_rest := (List.nodup_append.1 (List.nodup_cons.1 apart).2).2.1
    cases n with
    | zero =>
      -- The relay keeps what arrives, and the stations behind it wait.
      refine .of_takes handsOver (takes_forward ((Outlet.keeping x.relay).beside ?_ ?_)) c_apart
      · rintro m m' ⟨own, behind⟩ keeps
        refine ⟨?_, behind.keeps (keeps.mono (by simp))⟩
        rw [(keeps.mono (by simp)).own?, own]
      · intro thing member same
        exact relay_apart (List.mem_singleton.1 same ▸ member)
    | succ n =>
      have takes := takes_stage (ih lawful.2 apart_rest n) apart lawful.1.follows lawful.1.suits
      exact .of_takes handsOver (takes_forward (.of_takes handsOver takes relay_apart)) c_apart

/-- The next stage begins: it is made, and takes what its relay has kept. -/
theorem ends_begin {stations : List Station} (lawful : ∀ x ∈ stations, x.Lawful engine world)
    {c : Ref .channel} (apart : (things exit stations c).Nodup) {n : Nat} {past : History}
    {m : Machine} (carries : Carries world exit stations n c past m) (holds : world.Holds m)
    (admits : world.AdmitsAll past) {x : Station} (there : stations[n]? = some x)
    (place : m.stages.next = x.stage) :
    ∃ m', Ends (fun fuel => subscribe (engine fuel) x.relay (.stage x.stage))
        (m.addStage ⟨x.step, x.out, none⟩) (.ok ()) m' ∧
      Carries world exit stations (n + 1) c past m' ∧
      world.Passage (things exit stations c)
        (m.addStage ⟨x.step, x.out, none⟩) m' := by
  -- Along the line, up to the stage that begins.
  induction stations generalizing n c past with
  | nil => cases there
  | cons y rest ih =>
    rw [List.forall_mem_cons] at lawful
    have apart_rest : (things exit rest y.out).Nodup := apart.sublist (things_sublist exit y rest c)
    cases n with
    | zero =>
      obtain rfl : y = x := Option.some.inj there
      obtain ⟨here, relayed, own, behind⟩ := carries
      obtain ⟨c_apart, apart⟩ := List.nodup_cons.1 apart
      obtain ⟨relay_apart, apart⟩ := List.nodup_cons.1 apart
      have kept := keeps_addStage ⟨y.step, y.out, none⟩ (place ▸ (List.nodup_cons.1 apart).1)
      have takes := takes_stage (outlet handsOver lawful.2 apart_rest 0) apart lawful.1.follows
        lawful.1.suits
      have made : Worked y.stage y.step y.out (Carries world exit rest 0 y.out)
          (y.player.flow .empty)
          (m.addStage ⟨y.step, y.out, none⟩) :=
        ⟨place ▸ Arena.has_alloc_next .., by simp [← place, Machine.addStage, Conduct.flow_empty],
          (kept.mono (by simp)).own?.trans own, behind.keeps (kept.mono (by simp))⟩
      have relayed : (m.addStage ⟨y.step, y.out, none⟩).channel y.relay = .keeping past := relayed
      obtain ⟨m', ended, ⟨relayed', worked'⟩, passage⟩ := takes.ends_subscribe handsOver relay_apart
        admits relayed ⟨made, fun _ nothing => by cases nothing⟩ (world.of_backdrop (by rfl) holds)
      exact ⟨m', ended, ⟨(passage.touches.channel c c_apart).trans here, relayed', worked'⟩,
        passage.mono (List.subset_cons_self _ _)⟩
    | succ n =>
      obtain ⟨here, relayed, worked, admitted⟩ := carries
      have written := (y.player.conduct.flow_suits lawful.1.follows lawful.1.suits admitted).2
      obtain ⟨m', ended, behind, passage⟩ := ih lawful.2 apart_rest worked.down written there
      -- What is before is apart from all that is behind.
      have before : ∀ thing ∈ c.thing :: y.relay.thing :: y.stage.thing :: y.step.things,
          thing ∉ things exit rest y.out :=
        fun thing member same => (List.nodup_append.1 apart).2.2 thing member thing same rfl
      have there : rest[n]? = some x := there
      have x_mem := stage_mem exit there y.out
      have kept := (keeps_addStage ⟨x.step, x.out, none⟩ fun member =>
        before _ member (place ▸ x_mem)).trans (passage.touches.keeps before)
      exact ⟨m', ended, ⟨(kept.channel c (by simp)).trans here,
        (kept.channel y.relay (by simp)).trans relayed, worked.keeps (kept.mono (by simp)) behind,
        admitted⟩, passage.mono (things_sublist exit y rest c).subset⟩

/-- A collector comes to the exit, and hears all that was kept there. -/
theorem ends_collect {stations : List Station} (lawful : ∀ x ∈ stations, x.Lawful engine world)
    {ref : Ref .collector} {c : Ref .channel}
    (apart : (things (.collected ref) stations c).Nodup) {n : Nat} {past : History} {m : Machine}
    (carries : Carries world .kept stations n c past m) (holds : world.Holds m)
    (admits : world.AdmitsAll past) (new : m.collectors.get ref = default) :
    ∃ m', Ends (fun fuel => subscribe (engine fuel) (last stations c) (.collector ref)) m
        (.ok ()) m' ∧
      Carries world (.collected ref) stations n c past m' ∧
      world.Passage [(last stations c).thing, ref.thing] m m' := by
  induction stations generalizing n c past with
  | nil =>
    exact (takes_collector ref default).ends_subscribe handsOver (List.nodup_cons.1 apart).1 admits
      carries new holds
  | cons y rest ih =>
    rw [List.forall_mem_cons] at lawful
    have apart_rest := apart.sublist (things_sublist (.collected ref) y rest c)
    -- The exit is behind the station and apart from it.
    have before : ∀ thing ∈ c.thing :: y.relay.thing :: y.stage.thing :: y.step.things,
        thing ∉ [(last rest y.out).thing, ref.thing] := fun thing member same =>
      (List.nodup_append.1 apart).2.2 thing member thing
        (exit_subset (.collected ref) rest y.out same) rfl
    cases n with
    | zero =>
      obtain ⟨here, relayed, own, behind⟩ := carries
      obtain ⟨m', ended, behind', passage⟩ := ih lawful.2 apart_rest behind
        fun _ nothing => by cases nothing
      have kept := passage.touches.keeps before
      refine ⟨m', ended, ⟨(kept.channel c (by simp)).trans here,
        (kept.channel y.relay (by simp)).trans relayed, ?_, behind'⟩, passage⟩
      rw [(kept.mono fun thing member => by simp [member]).own?, own]
    | succ n =>
      obtain ⟨here, relayed, worked, admitted⟩ := carries
      have written := (y.player.conduct.flow_suits lawful.1.follows lawful.1.suits admitted).2
      obtain ⟨m', ended, behind', passage⟩ := ih lawful.2 apart_rest worked.down written
      have kept := passage.touches.keeps before
      exact ⟨m', ended, ⟨(kept.channel c (by simp)).trans here,
        (kept.channel y.relay (by simp)).trans relayed, worked.keeps (kept.mono (by simp)) behind',
        admitted⟩, passage⟩

end Events

end Line

end Wordstream
