import Wordstream.Proofs.Joining
import Wordstream.Proofs.Turn

/-!
# Pipes

A source is piped through workers, in any grouping. However its values are split into portions,
whenever a collector comes to the output, and however often the task has been polled before it is
driven, the signals at the output, the result of the task and the phases of all suspensions are the
same: a function of the values and of what the steps do.

## Main results

* `Piping.At.polls` — one round
-/

namespace Wordstream

open Line (Moment)

/-- A suspension that takes values one by one. -/
structure Worker where
  ref : Ref .suspension
  out : Ref .channel
  step : Step
  player : Player

/-- A worker as a part of pipes. -/
def Worker.part (x : Worker) : Part := ⟨x.ref, x.out, x.step.work⟩

/-- A source, which has its values in portions and ends in some way, and workers behind it. -/
structure Piping where
  source : Ref .suspension
  out : Ref .channel
  portions : List (List Value)
  result : Result
  workers : List Worker

namespace Piping

/-- All values of the source. -/
def values (p : Piping) : List Value := p.portions.flatten

/-- What the workers will do. -/
def players (p : Piping) : List Player := p.workers.map Worker.player

/-- The source and the workers as parts of pipes. -/
def parts (p : Piping) : List Part :=
  ⟨p.source, p.out, .source ⟨p.portions, .ofResult p.result⟩⟩ :: p.workers.map Worker.part

end Piping

/-! ## How far the source has come -/

/-- How far a source has come: it was not polled, it has written some values and is left with some
portions, or it has ended. -/
inductive Standing where
  | fresh
  | going (written : List Value) (rest : List (List Value))
  | ended

namespace Standing

variable (p : Piping)

/-- What the source has written. -/
def past : Standing → History
  | fresh => .empty
  | going written _ => History.empty.acceptAll (written.map .next)
  | ended => .closed p.values p.result

/-- The portions that are left. -/
def portions : Standing → List (List Value)
  | fresh => p.portions
  | going _ rest => rest
  | ended => []

/-- The values that were written and those that are left are all that there are. -/
def Fits : Standing → Prop
  | going written rest => written ++ rest.flatten = p.values
  | _ => True

/-- Write the first of some portions. -/
def advance (written : List Value) (portions : List (List Value)) : Standing :=
  match portions.tail with
  | [] => ended
  | rest => going (written ++ portions.headD []) rest

/-- How far the source has come when it was polled once more. -/
def next : Standing → Standing
  | fresh => advance [] p.portions
  | going written rest => advance written rest
  | ended => ended

/-- How far the task of the source has come. -/
def source : Standing → Progress
  | fresh => .ready (.source ⟨p.portions, .ofResult p.result⟩) none
  | going _ rest => .writing ⟨rest, .ofResult p.result⟩
  | ended => .finished p.result

/-- How far the task of a worker has come that has become a station. -/
def worker (stations : List Station) (i : Nat) (x : Station) : Standing → Progress
  | fresh => .ready x.step.work (some x.relay)
  | standing => x.progress
      (((Line.flows (stations.map Station.player) (standing.past p))[i]?).getD ⟨none, none, .empty⟩)

/-- How far all tasks have come: the first is that of the source. -/
def progress (stations : List Station) (standing : Standing) : Nat → Progress
  | 0 => standing.source p
  | i + 1 =>
    match stations[i]? with
    | some x => standing.worker p stations i x
    | none => .hanging

/-- Who was polled is not new. -/
theorem next_ne_fresh (standing : Standing) : standing.next p ≠ fresh := by
  have advanced (written : List Value) (portions : List (List Value)) :
      advance written portions ≠ fresh := by
    rw [advance]
    cases portions.tail <;> exact nofun
  cases standing with
  | fresh => exact advanced [] p.portions
  | going written rest => exact advanced written rest
  | ended => exact nofun

variable {p}

/-- How far the task of a worker has come that was polled. -/
theorem progress_of_flowing {standing : Standing} (polled : standing ≠ fresh)
    {stations : List Station} {i : Nat} {x : Station} (there : stations[i]? = some x) {flow : Flow}
    (flowing : (Line.flows (stations.map Station.player) (standing.past p))[i]? = some flow) :
    standing.progress p stations (i + 1) = x.progress flow := by
  rw [progress, there]
  dsimp only
  cases standing with
  | fresh => exact (polled rfl).elim
  | going written rest =>
    change x.progress (Option.getD _ _) = _
    rw [flowing, Option.getD_some]
  | ended =>
    change x.progress (Option.getD _ _) = _
    rw [flowing, Option.getD_some]

theorem flatten_of_tail {portions : List (List Value)} (last : portions.tail = []) :
    portions.flatten = portions.headD [] := by
  cases portions with
  | nil => rfl
  | cons portion rest =>
    rw [List.tail_cons] at last
    rw [last]
    simp

theorem headD_append_flatten_tail (portions : List (List Value)) :
    portions.headD [] ++ portions.tail.flatten = portions.flatten := by
  cases portions <;> rfl

theorem Fits.next {standing : Standing} (fits : standing.Fits p) : (standing.next p).Fits p := by
  have advanced {written : List Value} {portions : List (List Value)}
      (all : written ++ portions.flatten = p.values) : (advance written portions).Fits p := by
    rw [advance]
    cases pausing : portions.tail with
    | nil => trivial
    | cons portion rest =>
      change (written ++ portions.headD []) ++ (portion :: rest).flatten = _
      rw [← pausing, List.append_assoc, headD_append_flatten_tail, all]
  cases standing with
  | fresh => exact advanced rfl
  | going written rest => exact advanced fits
  | ended => trivial

/-- What the source has written when it was polled once more. -/
theorem past_next {standing : Standing} (fits : standing.Fits p) (unended : standing ≠ ended) :
    (standing.next p).past p = (standing.past p).portion (standing.portions p) p.result := by
  have advanced {written : List Value} {portions : List (List Value)}
      (all : written ++ portions.flatten = p.values) : (advance written portions).past p =
        (History.empty.acceptAll (written.map .next)).portion portions p.result := by
    rw [advance, History.portion, ← History.acceptAll_append, ← List.map_append]
    cases pausing : portions.tail with
    | nil =>
      dsimp only
      rw [History.accept_ofResult, ← flatten_of_tail pausing, all]
      rfl
    | cons portion rest => rfl
  cases standing with
  | fresh => exact advanced rfl
  | going written rest => exact advanced fits
  | ended => exact (unended rfl).elim

/-- How far the task of the source has come when it was polled once more. -/
theorem source_next {standing : Standing} (unended : standing ≠ ended) :
    (standing.next p).source p = .behind (standing.portions p) p.result := by
  have advanced (written : List Value) (portions : List (List Value)) :
      (advance written portions).source p = .behind portions p.result := by
    rw [advance, Progress.behind]
    cases portions.tail <;> rfl
  cases standing with
  | fresh => exact advanced [] p.portions
  | going written rest => exact advanced written rest
  | ended => exact (unended rfl).elim

/-- The source has ended when it was left with one portion. -/
theorem next_eq_ended_iff {standing : Standing} (unended : standing ≠ ended) :
    standing.next p = ended ↔ (standing.portions p).tail = [] := by
  have advanced (written : List Value) (portions : List (List Value)) :
      advance written portions = ended ↔ portions.tail = [] := by
    rw [advance]
    cases portions.tail <;> simp
  cases standing with
  | fresh => exact advanced [] p.portions
  | going written rest => exact advanced written rest
  | ended => exact (unended rfl).elim

end Standing

/-! ## Rounds -/

namespace Piping

/-- A source and workers that were piped together: the workers have become stations. -/
structure Laid (p : Piping) (engine : Nat → Engine) (world : Setting) (plan : Plan)
    (stations : List Station) : Prop where
  handsOver : ∀ fuel ref, (engine (fuel + 1)).deliver ref = deliverAll (engine fuel) ref
  parts : plan.parts = p.parts
  refs : plan.refs.Nodup
  out : plan.out = Line.last stations p.out
  length : stations.length = p.workers.length
  players : stations.map Station.player = p.players
  worker (i : Nat) (x : Station) (y : Worker) : stations[i]? = some x → p.workers[i]? = some y →
    x.out = y.out ∧ x.step = y.step
  lawful : ∀ x ∈ stations, x.Lawful engine world
  placed : Line.Placed stations
  apart : (Line.things .kept stations p.out).Nodup
  admits : ∀ value ∈ p.values, world.Admits value

/-- How many stages have begun. -/
def begun (p : Piping) : Standing → Nat
  | .fresh => 0
  | _ => p.workers.length

theorem begun_of_ne_fresh {p : Piping} {standing : Standing} (polled : standing ≠ .fresh) :
    p.begun standing = p.workers.length := by
  cases standing with
  | fresh => exact (polled rfl).elim
  | going written rest => rfl
  | ended => rfl

/-- A source and workers that were piped together have come so far. -/
structure At (p : Piping) (world : Setting) (plan : Plan) (stations : List Station) (exit : Exit)
    (standing : Standing) (t : Ref .task) (m : Machine) : Prop where
  fresh : standing = .fresh → plan.Begun (standing.progress p stations) 0 none t m
  stands : standing ≠ .fresh → plan.Stands (standing.progress p stations) 0 t m
  moment : Moment world exit stations p.out (p.begun standing) (standing.past p) m
  fits : standing.Fits p

/-- What is the case in a round before the part at some place is polled. -/
def Assertion (p : Piping) (world : Setting) (stations : List Station) (exit : Exit)
    (standing : Standing) : Nat → Machine → Prop
  | 0, m => Moment world exit stations p.out (p.begun standing) (standing.past p) m
  | i + 1, m =>
    Moment world exit stations p.out
      (match standing with
        | .fresh => i
        | _ => p.workers.length) ((standing.next p).past p) m ∧
    (standing.next p ≠ .ended → m.woken = true)

section Round

variable {p : Piping} {engine : Nat → Engine} {world : Setting} {plan : Plan}
  {stations : List Station} {exit : Exit} {standing : Standing}

theorem Assertion.of_same {i : Nat} {m m' : Machine}
    (h : p.Assertion world stations exit standing i m)
    (same : m.SameBeyondTasks m') : p.Assertion world stations exit standing i m' := by
  cases i with
  | zero => exact Moment.of_same h same
  | succ i => exact ⟨h.1.of_same same, fun more => same.woken.trans (h.2 more)⟩

variable (laid : p.Laid engine world plan stations)

include laid

/-- The source is polled first. -/
theorem Laid.polls_source (fits : standing.Fits p) (unended : standing ≠ .ended) :
    Plan.PartPolls engine (p.Assertion world stations exit standing)
      (standing.progress p stations) ((standing.next p).progress p stations) 0
      ⟨p.source, p.out, .source ⟨p.portions, .ofResult p.result⟩⟩ := by
  intro t m moment stands
  have source : standing.source p =
        .ready (.source ⟨standing.portions p, .ofResult p.result⟩) none ∨
      standing.source p = .writing ⟨standing.portions p, .ofResult p.result⟩ := by
    cases standing with
    | fresh => exact .inl rfl
    | going written rest => exact .inr rfl
    | ended => exact (unended rfl).elim
  have admits : ∀ value ∈ (standing.portions p).headD [], world.Admits value := by
    intro value member
    refine laid.admits value ?_
    -- What is written next is among what the source has yet to write.
    have left : value ∈ (standing.portions p).flatten := by
      rw [← Standing.headD_append_flatten_tail]
      exact List.mem_append_left _ member
    cases standing with
    | fresh => exact left
    | going written rest => exact fits ▸ List.mem_append_right _ left
    | ended => exact (unended rfl).elim
  obtain ⟨m', polled, moment', stands', works, awake⟩ := moment.polls_source laid.handsOver
    laid.lawful (Line.nodup_things exit laid.apart) admits stands source
  rw [← Standing.source_next unended] at polled stands'
  rw [← Standing.past_next fits unended] at moment'
  refine ⟨m', polled, ⟨?_, fun more => awake fun last => more ?_⟩, stands', works⟩
  · cases standing with
    | fresh => exact moment'
    | going written rest => exact moment'
    | ended => exact moment'
  · exact (Standing.next_eq_ended_iff unended).2 last

/-- Then the workers are polled one after the other. -/
theorem Laid.polls_worker (fits : standing.Fits p) (unended : standing ≠ .ended) {i : Nat}
    {y : Worker} (there : p.workers[i]? = some y) :
    Plan.PartPolls engine (p.Assertion world stations exit standing)
      (standing.progress p stations) ((standing.next p).progress p stations) (i + 1) y.part := by
  rintro t m ⟨moment, awake⟩ stands
  have inside : i < p.workers.length := (List.getElem?_eq_some_iff.1 there).1
  obtain ⟨x, station⟩ : ∃ x, stations[i]? = some x := ⟨_, List.getElem?_eq_getElem (by
    rw [laid.length]; exact inside)⟩
  obtain ⟨flow, flowing⟩ : ∃ flow,
      (Line.flows (stations.map Station.player) ((standing.next p).past p))[i]? = some flow :=
    ⟨_, List.getElem?_eq_getElem (by
      rw [Line.length_flows, List.length_map, laid.length]; exact inside)⟩
  have part_out : y.part.out = x.out := (laid.worker i x y station there).1.symm
  rw [part_out] at stands ⊢
  rw [Standing.progress_of_flowing (Standing.next_ne_fresh p standing) station flowing]
  cases standing with
  | ended => exact (unended rfl).elim
  | fresh =>
    have before : Standing.fresh.progress p stations (i + 1) =
        .ready x.step.work (some x.relay) := by
      rw [Standing.progress, station]
      rfl
    rw [before] at stands
    obtain ⟨m', polled, moment', stands', works, woken⟩ := moment.polls_new laid.handsOver
      laid.lawful (Line.nodup_things exit laid.apart) laid.placed station flowing stands
    exact ⟨m', polled, ⟨moment', fun more => woken (awake more)⟩, stands', works⟩
  | going written rest =>
    -- More has been written since the worker was polled last.
    obtain ⟨earlier, earlier_flowing⟩ : ∃ earlier,
        (Line.flows (stations.map Station.player) ((Standing.going written rest).past p))[i]? =
          some earlier :=
      ⟨_, List.getElem?_eq_getElem (by
        rw [Line.length_flows, List.length_map, laid.length]; exact inside)⟩
    have polled : Standing.going written rest ≠ .fresh := nofun
    rw [Standing.progress_of_flowing polled station earlier_flowing] at stands
    have keeps : ∀ result, earlier.result = some result → flow.result = some result := by
      obtain ⟨signals, more⟩ := History.portion_eq_acceptAll ((Standing.going written rest).past p)
        ((Standing.going written rest).portions p) p.result
      obtain ⟨later, also, keeps⟩ := Line.flows_extends _ _ signals earlier_flowing
      rw [← more, ← Standing.past_next fits unended, flowing] at also
      exact Option.some.inj also ▸ keeps
    obtain ⟨m', polled, same, stands', works⟩ :=
      moment.polls_begun station inside flowing keeps stands
    exact ⟨m', polled, ⟨moment.of_same same, fun more => same.woken.trans (awake more)⟩, stands',
      works⟩

/-- Each part is polled at its place. -/
theorem Laid.each (fits : standing.Fits p) (unended : standing ≠ .ended) :
    plan.Each (Plan.PartPolls engine (p.Assertion world stations exit standing)
      (standing.progress p stations) ((standing.next p).progress p stations)) 0 := by
  refine Plan.each_of_parts fun j x there => ?_
  rw [Nat.zero_add]
  rw [laid.parts] at there
  cases j with
  | zero =>
    obtain rfl := Option.some.inj there
    exact laid.polls_source fits unended
  | succ j =>
    have mapped : (p.workers.map Worker.part)[j]? = some x := there
    rw [List.getElem?_map, Option.map_eq_some_iff] at mapped
    obtain ⟨y, worker, rfl⟩ := mapped
    exact laid.polls_worker fits unended worker

/-- A poll of the task takes all parts one round further. -/
theorem At.polls {t : Ref .task} {m : Machine} (h : p.At world plan stations exit standing t m)
    (unended : standing ≠ .ended) :
    ∃ m', Polls engine (fun e depth => poll e depth t) m
        (plan.result? ((standing.next p).progress p stations) 0) m' ∧
      p.At world plan stations exit (standing.next p) t m' ∧
      (standing.next p ≠ .ended → m'.woken = true) := by
  obtain ⟨m', polled, moment, stands, -⟩ : ∃ m', Polls engine (fun e depth => poll e depth t) m
        (plan.result? ((standing.next p).progress p stations) 0) m' ∧
      p.Assertion world stations exit standing (0 + plan.size) m' ∧
      plan.Stands ((standing.next p).progress p stations) 0 t m' ∧ m.Works plan.refs m' := by
    -- The first poll starts the parts, and every other finds them under way.
    by_cases fresh : standing = .fresh
    · exact (h.fresh fresh).polls (J := p.Assertion world stations exit standing)
        (fun _ _ _ => Assertion.of_same) (laid.each h.fits unended) laid.refs h.moment
    · exact (h.stands fresh).polls (J := p.Assertion world stations exit standing)
        (fun _ _ _ => Assertion.of_same) (laid.each h.fits unended) laid.refs h.moment
  have size_eq : 0 + plan.size = p.workers.length + 1 := by
    rw [Nat.zero_add, ← plan.length_parts, laid.parts, parts, List.length_cons, List.length_map]
  rw [size_eq] at moment
  obtain ⟨moment, awake⟩ := moment
  refine ⟨m', polled, ⟨fun fresh => ?_, fun _ => stands, ?_, h.fits.next⟩, awake⟩
  · exact (Standing.next_ne_fresh p standing fresh).elim
  · rw [begun_of_ne_fresh (Standing.next_ne_fresh p standing)]
    cases standing <;> exact moment

omit laid in
/-- Nothing has happened to the tasks, and the line is as it should be. -/
theorem At.of_works {exit' : Exit} {t : Ref .task} {m m' : Machine}
    (h : p.At world plan stations exit standing t m) (works : m.Works [] m')
    (moment : Moment world exit' stations p.out (p.begun standing) (standing.past p) m') :
    p.At world plan stations exit' standing t m' where
  fresh new := (h.fresh new).works works fun _ _ nothing => by cases nothing
  stands polled := (h.stands polled).works works fun _ _ nothing => by cases nothing
  moment := moment
  fits := h.fits

/-- The result of the task when all parts have ended: the first failure, in the order of the
parts. -/
def total (p : Piping) : Result :=
  Result.together (p.result :: (Line.ends p.players p.values p.result).map Prod.fst)

/-- When the source has ended, so have all workers, and there is a result. -/
theorem Laid.result?_ended :
    plan.result? (Standing.ended.progress p stations) 0 = some p.total := by
  refine plan.result?_of_finished ?_ fun j result there => ?_
  · rw [← plan.length_parts, laid.parts, Piping.parts, List.length_cons, List.length_cons,
      List.length_map, List.length_map, Line.length_ends, Piping.players, List.length_map]
  · rw [Nat.zero_add]
    cases j with
    | zero => exact congrArg Progress.finished (Option.some.inj there)
    | succ j =>
      rw [List.getElem?_cons_succ, List.getElem?_map, Option.map_eq_some_iff] at there
      obtain ⟨ended, there, rfl⟩ := there
      obtain ⟨flow, flowing, result_eq, -⟩ := Line.getElem?_flows_closed there
      obtain ⟨x, station⟩ : ∃ x, stations[j]? = some x := ⟨_, List.getElem?_eq_getElem (by
        have inside := (List.getElem?_eq_some_iff.1 there).1
        rwa [Line.length_ends, Piping.players, List.length_map, ← laid.length] at inside)⟩
      rw [← laid.players] at flowing
      have polled : Standing.ended ≠ .fresh := nofun
      rw [Standing.progress_of_flowing polled station flowing, Station.progress, result_eq]

omit laid in
/-- There is no result before the source has ended. -/
theorem result?_unended (plan : Plan) (unended : standing ≠ .ended) :
    plan.result? (standing.progress p stations) 0 = none := by
  refine plan.result?_of_first ?_
  cases standing with
  | fresh => rfl
  | going written rest => rfl
  | ended => exact (unended rfl).elim

/-- How many rounds there are left at most. -/
def left (p : Piping) : Standing → Nat
  | .fresh => p.portions.length + 1
  | .going _ rest => rest.length
  | .ended => 0

omit laid in
theorem left_next (standing : Standing) (more : standing.next p ≠ .ended) :
    p.left (standing.next p) < p.left standing := by
  have advanced {written : List Value} {portions : List (List Value)}
      (more : Standing.advance written portions ≠ .ended) :
      p.left (.advance written portions) < portions.length := by
    rw [Standing.advance] at more ⊢
    cases portions with
    | nil => exact (more rfl).elim
    | cons portion rest =>
      cases rest with
      | nil => exact (more rfl).elim
      | cons next rest => exact Nat.lt_succ_self _
  cases standing with
  | fresh => exact Nat.lt_succ_of_lt (advanced more)
  | going written rest => exact advanced more
  | ended => exact (more rfl).elim

/-- Driving the task comes to an end, when all parts have ended. -/
theorem At.drives {t : Ref .task} {m : Machine} (h : p.At world plan stations exit standing t m)
    (outside : List Thing) :
    ∃ m', Ends (fun fuel => drive (engine fuel) fuel outside t) m (.finished p.total) m' ∧
      p.At world plan stations exit .ended t m' := by
  -- On the rounds that are left; each of them starts when nobody has asked for it yet.
  suffices driven : ∃ m', (∃ bound, ∀ fuel depth, bound ≤ fuel → bound ≤ depth →
      driveUntil (poll (engine fuel) fuel t) [t] outside depth m = (some (some p.total), m')) ∧
      p.At world plan stations exit .ended t m' by
    obtain ⟨m', ⟨bound, driven⟩, ended⟩ := driven
    refine ⟨m', ⟨bound, fun fuel enough => ?_⟩, ended⟩
    change (driveUntil (poll (engine fuel) fuel t) [t] outside fuel >>= _) m = _
    rw [Effect.bind_apply, driven fuel fuel enough enough]
    rfl
  induction rounds : p.left standing using Nat.strongRecOn generalizing standing m with
  | ind rounds ih =>
    subst rounds
    have asleep : p.At world plan stations exit standing t { m with woken := false } :=
      h.of_works ⟨fun _ _ => rfl, fun _ _ _ => rfl, fun _ => id⟩ (h.moment.of_woken false)
    have finishes {m' : Machine} (polled : Polls engine (fun e depth => poll e depth t)
        { m with woken := false } (some p.total) m') :
        ∃ bound, ∀ fuel depth, bound ≤ fuel → bound ≤ depth →
          driveUntil (poll (engine fuel) fuel t) [t] outside depth m =
          (some (some p.total), m') := by
      obtain ⟨bound, polled⟩ := polled
      refine ⟨bound + 1, fun fuel depth enough deep => ?_⟩
      obtain ⟨depth, rfl⟩ : ∃ rest, depth = rest + 1 := ⟨depth - 1, by omega⟩
      exact driveUntil_of_some _ _ _ (polled fuel fuel (by omega) (by omega))
    by_cases atEnd : standing = .ended
    · subst atEnd
      exact ⟨_, finishes ((asleep.stands nofun).polls_of_result? laid.result?_ended), asleep⟩
    · obtain ⟨m₁, polled, at₁, awake⟩ := asleep.polls laid atEnd
      by_cases last : standing.next p = .ended
      · rw [last] at polled at₁
        rw [laid.result?_ended] at polled
        exact ⟨m₁, finishes polled, at₁⟩
      · rw [result?_unended plan last] at polled
        obtain ⟨m', ⟨bound, driven⟩, ended⟩ := ih _ (left_next standing last) at₁ rfl
        obtain ⟨bound', polled⟩ := polled
        refine ⟨m', ⟨bound + bound' + 1, fun fuel depth enough deep => ?_⟩, ended⟩
        obtain ⟨depth, rfl⟩ : ∃ rest, depth = rest + 1 := ⟨depth - 1, by omega⟩
        rw [driveUntil_of_woken _ _ _ (polled fuel fuel (by omega) (by omega)) (awake last)]
        exact driven fuel depth (by omega) (by omega)

end Round

end Piping

/-! ## Whatever else is done -/

/-- What can be done to a task from outside: poll it, or let a collector listen to its output. -/
inductive Move where
  | poll
  | collect
  deriving DecidableEq

namespace Move

/-- Do something to a task. A collector may be refused. -/
def perform (engine : Engine) (fuel : Nat) (t : Ref .task) : Move → Effect Machine Unit
  | poll => do
    let _ ← Wordstream.poll engine fuel t
  | collect => do
    let ref := (← get).collectors.next
    modify fun m => { m with collectors := m.collectors.alloc default }
    let _ ← outcome (subscribe engine ((← get).task t).out (.collector ref))

/-- Do several things to a task. -/
def performAll (engine : Engine) (fuel : Nat) (t : Ref .task) : List Move → Effect Machine Unit
  | [] => pure ()
  | move :: rest => do
    move.perform engine fuel t
    performAll engine fuel t rest

end Move

/-- Who is at an exit when a collector has come: the collector, unless there was another. -/
def Exit.visited (ref : Ref .collector) : Exit → Exit
  | kept => collected ref
  | collected other => collected other

namespace Piping

section Moves

variable {p : Piping} {engine : Nat → Engine} {world : Setting} {plan : Plan}
  {stations : List Station} {exit : Exit} {standing : Standing} {t : Ref .task} {m : Machine}

/-- The task writes to the exit of the line. -/
theorem At.out_eq (laid : p.Laid engine world plan stations)
    (h : p.At world plan stations exit standing t m) :
    (m.task t).out = Line.last stations p.out := by
  rw [← laid.out]
  by_cases fresh : standing = .fresh
  · exact (h.fresh fresh).out_eq
  · exact (h.stands fresh).out_eq

/-- One more collector makes no difference to a line. -/
theorem moment_newCollector {n : Nat} {past : History} {c : Ref .channel}
    (moment : Moment world exit stations c n past m) :
    Moment world exit stations c n past { m with collectors := m.collectors.alloc default } where
  carries := by
    refine moment.carries.keeps
      ⟨fun _ _ => rfl, fun _ _ => rfl, fun _ _ => id, fun ref member => ?_, fun _ _ => rfl⟩
    change (m.collectors.alloc default).get ref = _
    rw [Arena.get_alloc, if_neg]
    rw [Line.things_eq_append, List.mem_append] at member
    -- A line has a collector only at its exit, and that one is older.
    rcases member with along | there
    · exact (Line.kind_of_mem_things along rfl).elim
    · cases exit with
      | kept => cases there
      | collected other =>
        have same : ref = other := by
          have same := List.mem_singleton.1 there
          cases ref
          cases other
          simpa [Ref.thing] using same
        exact same ▸ Arena.Has.ne_next moment.has
  holds := world.of_backdrop (by rfl) moment.holds
  admits := moment.admits
  place := moment.place
  has := by
    cases exit with
    | kept => trivial
    | collected other => exact Arena.Has.alloc moment.has _

/-- A collector listens at the exit unless there is another. -/
theorem Laid.subscribes (laid : p.Laid engine world plan stations) {n : Nat} {past : History}
    {ref : Ref .collector} (moment : Moment world exit stations p.out n past m)
    (has : m.collectors.Has ref) (new : m.collectors.get ref = default) :
    ∃ result m', Ends (fun fuel => subscribe (engine fuel) (Line.last stations p.out)
        (.collector ref)) m result m' ∧
      m.Works [] m' ∧ Moment world (exit.visited ref) stations p.out n past m' := by
  cases exit with
  | kept =>
    obtain ⟨m', ended, carries, passage⟩ := Line.ends_collect laid.handsOver laid.lawful
      (Line.nodup_things (.collected ref) laid.apart) moment.carries moment.holds moment.admits new
    refine ⟨.ok (), m', ended, passage.touches.works _, carries, passage.holds, moment.admits,
      fun x there => ?_, passage.touches.has_collector ref has⟩
    rw [passage.touches.next_stage, moment.place x there]
  | collected other =>
    obtain ⟨heard, ⟨here, -⟩, -⟩ := moment.carries.arrived
    have subscribed : (m.channel (Line.last stations p.out)).isSubscribed := by
      rw [here]
      rfl
    exact ⟨.error .alreadySubscribed, m,
      .of_eq fun fuel => subscribe_of_isSubscribed (engine fuel) _ subscribed, .refl _ _, moment⟩

/-- A collector comes to the output, and may be refused. -/
theorem At.collects (laid : p.Laid engine world plan stations)
    (h : p.At world plan stations exit standing t m) :
    ∃ m', Ends (fun fuel => Move.collect.perform (engine fuel) fuel t) m () m' ∧
      p.At world plan stations (exit.visited m.collectors.next) standing t m' := by
  obtain ⟨result, m', ended, works, moment⟩ := laid.subscribes (moment_newCollector h.moment)
    (Arena.has_alloc_next ..) (by simp)
  have made : m.Works [] { m with collectors := m.collectors.alloc default } :=
    ⟨fun _ _ => rfl, fun _ _ _ => rfl, fun _ => id⟩
  have both : Ends (fun fuel => outcome (subscribe (engine fuel) (Line.last stations p.out)
      (.collector m.collectors.next)) >>= fun _ => pure ())
      { m with collectors := m.collectors.alloc default } () m' := ended.bind (.of_eq fun _ => rfl)
  refine ⟨m', .congr (fun fuel => ?_) both, h.of_works (made.trans works) moment⟩
  rw [← h.out_eq laid]
  rfl

/-- A poll comes to an end, and takes the parts further unless they have ended. -/
theorem At.polled (laid : p.Laid engine world plan stations)
    (h : p.At world plan stations exit standing t m) :
    ∃ result m', Ends (fun fuel => poll (engine fuel) fuel t) m result m' ∧
      p.At world plan stations exit (standing.next p) t m' := by
  by_cases atEnd : standing = .ended
  · subst atEnd
    exact ⟨_, m, ((h.stands nofun).polls_of_result? laid.result?_ended).ends, h⟩
  · obtain ⟨m', polled, at', -⟩ := h.polls laid atEnd
    exact ⟨_, m', polled.ends, at'⟩

/-- Whatever is done to the task, the parts stay together; when they have ended, they have. -/
theorem At.performs (laid : p.Laid engine world plan stations) (moves : List Move)
    (h : p.At world plan stations exit standing t m) :
    ∃ exit' standing' m', Ends (fun fuel => Move.performAll (engine fuel) fuel t moves) m () m' ∧
      p.At world plan stations exit' standing' t m' ∧ (standing = .ended → standing' = .ended) ∧
      (exit' = .kept ↔ exit = .kept ∧ .collect ∉ moves) := by
  induction moves generalizing exit standing m with
  | nil => exact ⟨exit, standing, m, .of_eq fun _ => rfl, h, id, by simp⟩
  | cons move rest ih =>
    obtain ⟨exit₁, standing₁, m₁, performed, at₁, over₁, kept₁⟩ : ∃ exit' standing' m',
        Ends (fun fuel => move.perform (engine fuel) fuel t) m () m' ∧
        p.At world plan stations exit' standing' t m' ∧ (standing = .ended → standing' = .ended) ∧
        (exit' = .kept ↔ exit = .kept ∧ move ≠ .collect) := by
      cases move with
      | collect =>
        obtain ⟨m', ended, at'⟩ := h.collects laid
        exact ⟨_, standing, m', ended, at', id, by cases exit <;> simp [Exit.visited]⟩
      | poll =>
        obtain ⟨result, m', ended, at'⟩ := h.polled laid
        have performed : Ends (fun fuel => poll (engine fuel) fuel t >>= fun _ => pure ()) m
            () m' :=
          ended.bind (.of_eq fun _ => rfl)
        exact ⟨exit, _, m', performed, at', fun atEnd => by rw [atEnd]; rfl, by simp⟩
    obtain ⟨exit', standing', m', rested, at', over', kept'⟩ := ih at₁
    have both : Ends (fun fuel => move.perform (engine fuel) fuel t >>= fun _ =>
        Move.performAll (engine fuel) fuel t rest) m () m' := performed.bind rested
    refine ⟨exit', standing', m', both, at', fun atEnd => over' (over₁ atEnd), ?_⟩
    rw [kept', kept₁, List.mem_cons, not_or, and_assoc, ne_comm]

end Moves

end Piping

end Wordstream
