import Mathlib.Data.List.Basic
import Wordstream.Proofs.Accounts

/-!
# Tasks and their outputs agree

A task that takes steps, running a body or making a call, and its output end in the same way. A
pipe comes to the first failure of its parts, in their order, while its output ends as its last
part does; so the two agree as long as no two parts fail differently, and in any case on whether
everything has gone well.

There are a few ways to be prevented from that, and whoever is prevented has a task that failed
for it: an input that somebody else listens to, one that is lost, or a side of a pipe that was
resumed before. A source of the host that keeps quiet or has an input to relay may have told its
output nothing, and channels that the host ends itself are a matter of the host.

## Main results

* `Affairs.accountable` — whatever is asked of a machine, every task is accounted for
* `Affairs.outputs_agree` — tasks and their outputs agree, whatever is asked of a machine
-/

namespace Wordstream

/-! ## Demands -/

/-- Whether a host that makes a demand leaves some channels alone: it ends none of them, neither
by itself nor by a probe, and has nothing relayed to them. Stages listen for the tasks that make
them. -/
def Demand.Leaves {α : Type} (own : Ref .channel → Prop) (m : Machine) : Demand α → Prop
  | emit ref signal => signal.isTerminal → ¬ own ref
  | subscribe _ (.forward out) => ¬ own out
  | subscribe _ (.stage _) => False
  | subscribe _ (.probe probe) => ¬ own (m.probes.get probe).channel
  | fulfil probe _ => ¬ own (m.probes.get probe).channel
  | deliver ref => m.channels.Has ref
  | _ => True

theorem tracks_custody (own : Ref .channel → Prop) : (custody own).Tracks where
  track _ _ := Heeds.change fun _ => rfl
  untrack _ := Heeds.change fun _ => rfl
  markStopped _ := Heeds.change fun _ => rfl

/-- What is asked of a machine, unless it is to drive tasks, keeps guard over the channels that
the host leaves alone. -/
theorem Machine.Guarded.demand {own : Ref .channel → Prop} {engine : Engine}
    (h : (custody own).Relates engine engine) {m m' : Machine} (g : m.Guarded own none)
    (free : ∀ x, (m.channel x).isBusy = false) {α : Type} {demand : Demand α}
    (leaves : demand.Leaves own m) (rests : demand.drives = false) {fuel : Nat} {answer : α}
    (ended : demand.run engine fuel m = (some answer, m')) :
    m'.Guarded own none ∧ m.Honours own m' := by
  have heeded {action : Effect Machine α} (heeds : Heeds own action)
      (ended : action m = (some answer, m')) : m'.Guarded own none ∧ m.Honours own m' :=
        heeds.ended g ended
  cases demand with
  | boot => exact heeded h.boot ended
  | evaluate text => exact heeded (h.evaluate text) ended
  | execute code => exact heeded (h.execute code) ended
  | read reading cursor =>
    refine heeded ((guarding own).withCursor ?_ cursor) ended
    cases reading with
    | whole => exact h.whole
    | operand => exact h.operand
    | deferred => exact h.deferred
  | call native args => exact heeded (h.call native args False.elim) ended
  | deliver ref =>
    -- Handing over is guarded from the released channel, which is this one: no channel is busy.
    have same := released_of_free leaves (free ref)
    have handed := h.deliver ref none m answer m' (same.symm ▸ g) ended
    rwa [same] at handed
  | hostAction name cursor =>
    exact heeded ((guarding own).withCursor (h.hostAction name) cursor) ended
  | hostOperator name left right cursor =>
    exact heeded
      ((guarding own).withCursor (h.hostOperator name left right False.elim False.elim) cursor)
      ended
  | look binding symbol => exact heeded ((custody own).allows_bindingGet binding symbol) ended
  | store binding symbol value =>
    exact heeded ((custody own).allows_bindingSet binding symbol value False.elim) ended
  | emit ref signal =>
    cases signal with
    | next value => exact heeded (Heeds.emit_next h.deliver ref value) ended
    | complete | failed => exact heeded (Heeds.emit_foreign h.deliver (leaves rfl) _) ended
  | subscribe ref listener =>
    -- What listens for the host is no stage, and neither relays to nor probes an owned channel.
    obtain ⟨g', honours, _⟩ := g.subscribe h.deliver (.refl own m) (fun channel free => by
      refine ⟨g.attach free (fun out same owned => ?_) (fun stage same => ?_) fun probe same => ?_,
        .attach free fun stage same => ?_⟩ <;> cases same
      · exact absurd owned leaves
      · exact leaves.elim
      · exact leaves
      · exact leaves.elim) ended
    exact ⟨g', honours⟩
  | fulfil probe requests => exact g.fulfilAll h leaves requests ended
  | resume ref input => exact heeded (Heeds.resume ref input) ended
  | pipe left right => exact heeded (Heeds.pipe h.deliver left right) ended
  | drive | settle => cases rests
  | load id name text => exact heeded (h.loadText (tracks_custody own) id name text) ended
  | loadFile files id path => exact heeded (h.loadFile (tracks_custody own) files id path) ended
  | stop id => exact heeded (Discipline.allows_stopModule (tracks_custody own) id) ended

/-- The machines of which something was asked by a host that leaves some channels alone, one thing
after the other, each coming to an end. In between the host may make channels, probes and
suspensions, and do whatever concerns neither channels and stages nor suspensions and tasks. -/
inductive Affairs (host : Host) (own : Ref .channel → Prop) : Machine → Prop
  | new (config : Config) : Affairs host own (.ofConfig config)
  | prepare {m m' : Machine} (h : Affairs host own m) (channel : ∀ x, m'.channel x = m.channel x)
      (channels : ∀ {x}, m.channels.Has x → m'.channels.Has x) (stages : m'.stages = m.stages)
      (suspensions : m'.suspensions = m.suspensions) (tasks : m'.tasks = m.tasks)
      (probe : ∀ {p}, ¬ own (m.probes.get p).channel → ¬ own (m'.probes.get p).channel) :
      Affairs host own m'
  | suspend {m : Machine} (h : Affairs host own m) {work : Work}
      (plain : ∀ left right relay, work ≠ .pipe left right relay) (acceptsInput : Bool)
      (mime : Option String) : Affairs host own (suspend work acceptsInput mime m).2
  | demand {m m' : Machine} {α : Type} {answer : α} (h : Affairs host own m) (demand : Demand α)
      (leaves : demand.Leaves own m) (fuel : Nat)
      (ended : demand.run (.ofFuel host fuel) fuel m = (some answer, m')) : Affairs host own m'

/-- A demand that has come to an end. -/
theorem Affairs.ask {host : Host} {own : Ref .channel → Prop} {m : Machine} (h : Affairs host own m)
    {α : Type} (demand : Demand α) (leaves : demand.Leaves own m) (fuel : Nat)
    (done : (demand.run (.ofFuel host fuel) fuel m).1.isSome) :
    Affairs host own (demand.run (.ofFuel host fuel) fuel m).2 := by
  obtain ⟨answer, given⟩ := Option.isSome_iff_exists.1 done
  exact h.demand demand leaves fuel (Prod.ext given rfl)

theorem Machine.accountable_ofConfig (own : Ref .channel → Prop) (config : Config) :
    (Machine.ofConfig config).Accountable own := by
  have nobody {out : Ref .channel} {ender : Ender}
      (ends : (Machine.ofConfig config).Ends none out ender) : False := by
    cases ender with
    | suspension ref => cases ends.1
    | task ref => cases ends.2.2
    | stage ref => exact Nat.not_lt_zero _ ends.1
    | channel ref => cases ends
  have untouched : (Machine.ofConfig config).Untouched :=
    ⟨fun has => absurd has (Nat.not_lt_zero _), fun _ has => Nat.not_lt_zero _ has⟩
  refine ⟨⟨fun _ ends => (nobody ends).elim, fun _ ends => (nobody ends).elim,
    fun _ ends => (nobody ends).elim, fun has => absurd has (Nat.not_lt_zero _), fun _ relays => ?_,
    nofun, nofun, nofun, nofun, nofun, ⟨?_, ?_⟩⟩, untouched.orderly, fun _ => rfl,
    fun has => absurd has (Nat.not_lt_zero _)⟩
  · cases relays
  · intro ref left right relay created
    cases created
  · intro task left right relay pipes
    cases pipes

/-- Whatever is asked of a machine, every task is accounted for. -/
theorem Affairs.accountable {host : Host} {own : Ref .channel → Prop}
    (hosted : growth.discipline.Admits host) (kept : (custody own).Admits host) {m : Machine}
    (h : Affairs host own m) : m.Accountable own := by
  induction h with
  | new config => exact Machine.accountable_ofConfig own config
  | @prepare m m' _ channel channels stages suspensions tasks probe ih =>
    have plumbed : m'.Plumbed :=
      ih.guarded.plumbed.of_same suspensions tasks fun hears => by rwa [channel]
    have g : m'.Guarded own none :=
      ih.guarded.thin channel channels stages probe plumbed fun ends =>
      ends.of_same (fun _ _ => by rw [Machine.suspension, suspensions]; rfl)
        (fun _ _ => by rw [Machine.task, tasks]; rfl) stages channel
    have honours : m.Honours own m' := .of_same channel (fun has => by
      rw [stages]
      exact ⟨has, rfl⟩) probe (.of_eq suspensions)
    exact ih.grow (.aside suspensions tasks) g honours
  | @suspend m _ work plain acceptsInput mime ih =>
    obtain ⟨g, honours⟩ :=
      (Heeds.suspend plain acceptsInput mime).ended ih.guarded (Prod.ext rfl rfl)
    exact ih.grow (grows_suspend work acceptsInput mime m) g honours
  | demand _ demand leaves fuel ended ih =>
    have grows := Engine.grows_ofFuel hosted fuel
    have keeps := Engine.heeds_ofFuel kept fuel
    cases driving : demand.drives with
    | true =>
      obtain ⟨started, advances⟩ := demand.advances_of_ended grows fuel driving ih.orderly ended
      exact ih.advance keeps grows advances
    | false =>
      obtain ⟨g, honours⟩ := ih.guarded.demand keeps ih.free leaves driving ended
      exact ih.grow (grows_of_ended (demand.fits_of_not_drives grows fuel resumes_growth
        (fun _ => tracks_growth) driving) ended) g honours

/-! ## Agreement -/

/-- The failure of all results together is one of theirs. -/
theorem Result.mem_of_together {results : List Result} {failure : Failure}
    (failed : together results = .error failure) : .error failure ∈ results := by
  induction results with
  | nil => cases failed
  | cons result rest ih =>
    cases result with
    | ok _ => exact List.mem_cons_of_mem _ (ih failed)
    | error given =>
      cases failed
      exact List.mem_cons_self

theorem ofResult_eq_complete {result : Result} :
    some (Signal.ofResult result) = some .complete ↔ result = .ok () := by
  cases result with
  | ok _ => exact ⟨fun _ => rfl, fun _ => rfl⟩
  | error failure => exact ⟨nofun, nofun⟩

namespace Machine

/-- The result of a pipe is that of the two sides that it feeds. Sides that somebody else has
resumed in the same way count as fed. -/
def Joined (m : Machine) (task : Ref .task) (left right : Ref .suspension) (relay : Ref .channel)
    (result : Result) : Prop :=
  ∃ one other first second, m.Feeds task left right relay one other ∧
    (m.task one).progress = .finished first ∧ (m.task other).progress = .finished second ∧
    result = bothResults first second

/-- A task was prevented from ending its output, or one of its parts was: the host may end the
output, or what is relayed; the task is for a source of the host that keeps quiet or has an input
to relay, and has not told its output its result; its input has a listener already, and its output
is told nothing; its input was lost, and it has not told its output so; or it is a pipe of which a
side had been resumed before, so that its result is not that of sides that it feeds. -/
inductive Disturbed (own : Ref .channel → Prop) (m : Machine) : Ref .task → Prop
  | foreign {task : Ref .task} (foreign : ¬ own (m.task task).out) : Disturbed own m task
  | alien {task : Ref .task} {source : Source} {result : Result}
      (writes : (m.task task).errand.work = .source source)
      (mute : (m.task task).errand.input.isSome ∨ ∃ failure, source.ending = .quiet failure)
      (finished : (m.task task).progress = .finished result)
      (untold : (m.channel (m.task task).out).ending ≠ some (.ofResult result)) :
      Disturbed own m task
  | refused {task : Ref .task} {input : Ref .channel} (step : (m.task task).errand.work.isStep)
      (given : (m.task task).errand.input = some input)
      (taken : (m.channel input).listener?.isSome)
      (finished : (m.task task).progress = .finished (.error .alreadySubscribed))
      (silent : (m.channel (m.task task).out).ending = none) : Disturbed own m task
  | lost {task : Ref .task} {input : Ref .channel} (step : (m.task task).errand.work.isStep)
      (given : (m.task task).errand.input = some input) (abandoned : (m.channel input).abandoned)
      (finished : (m.task task).progress = .finished inputDropped)
      (untold : (m.channel (m.task task).out).ending ≠ some (.ofResult inputDropped)) :
      Disturbed own m task
  | usurped {task usurper : Ref .task} {left right side : Ref .suspension} {relay : Ref .channel}
      (pipes : (m.task task).errand.work = .pipe left right relay)
      (of_pipe : side = left ∨ side = right) (has : m.tasks.Has usurper)
      (resumed : (m.task usurper).suspension = side)
      (finished : (m.task task).progress = .finished (.error .alreadyResumed))
      (unjoined : ¬ m.Joined task left right relay (.error .alreadyResumed)) : Disturbed own m task
  | relay {task : Ref .task} {left right : Ref .suspension} {relay : Ref .channel}
      (pipes : (m.task task).errand.work = .pipe left right relay) (foreign : ¬ own relay) :
      Disturbed own m task
  | left {task one other : Ref .task} {left right : Ref .suspension} {relay : Ref .channel}
      (pipes : (m.task task).errand.work = .pipe left right relay)
      (feeds : m.Feeds task left right relay one other) (disturbed : Disturbed own m one) :
      Disturbed own m task
  | right {task one other : Ref .task} {left right : Ref .suspension} {relay : Ref .channel}
      (pipes : (m.task task).errand.work = .pipe left right relay)
      (feeds : m.Feeds task left right relay one other) (disturbed : Disturbed own m other) :
      Disturbed own m task

/-- The parts of a task have finished and each has told its output its result; these are the
outputs and the results, in the order of the parts. -/
inductive Concludes (m : Machine) : Ref .task → List (Ref .channel × Result) → Prop
  | part {task : Ref .task} {result : Result} (tells : (m.task task).errand.work.tells)
      (finished : (m.task task).progress = .finished result)
      (told : (m.channel (m.task task).out).ending = some (.ofResult result)) :
      Concludes m task [((m.task task).out, result)]
  | pipe {task one other : Ref .task} {left right : Ref .suspension} {relay : Ref .channel}
      {reports more : List (Ref .channel × Result)}
      (pipes : (m.task task).errand.work = .pipe left right relay)
      (feeds : m.Feeds task left right relay one other) (first : Concludes m one reports)
      (second : Concludes m other more) : Concludes m task (reports ++ more)

/-- A task and its output agree: the task has the first failure of its parts, in their order, the
output ends as the last part does, and the two go well together. What has gone well has had the
whole of its input. -/
structure Tallies (m : Machine) (task : Ref .task) (result : Result)
    (reports : List (Ref .channel × Result)) : Prop where
  concludes : m.Concludes task reports
  first : result = Result.together (reports.map Prod.snd)
  last : ∃ given, reports.getLast? = some ((m.task task).out, given) ∧
    (m.channel (m.task task).out).ending = some (.ofResult given)
  well : result = .ok () ↔ (m.channel (m.task task).out).ending = some .complete
  whole (ok : result = .ok ()) (input : Ref .channel)
    (given : (m.task task).errand.input = some input) : (m.channel input).ending = some .complete

namespace Tallies

variable {m : Machine} {task : Ref .task} {result : Result} {reports : List (Ref .channel × Result)}

/-- If the parts that fail fail in the same way, the output tells exactly what the task comes to. -/
theorem alike (h : m.Tallies task result reports)
    (alike : ∀ one ∈ reports, ∀ other ∈ reports, one.2 ≠ .ok () → other.2 ≠ .ok () →
      one.2 = other.2) :
    (m.channel (m.task task).out).ending = some (.ofResult result) := by
  obtain ⟨given, last, ending⟩ := h.last
  cases failed : result with
  | ok _ => exact h.well.1 failed
  | error failure =>
    have bad : given ≠ .ok () := fun ok => by
      rw [h.well.2 (ending.trans (ofResult_eq_complete.2 ok))] at failed
      cases failed
    obtain ⟨report, mem, same⟩ :=
      List.mem_map.1 (Result.mem_of_together (h.first.symm.trans failed))
    have eq : given = report.2 :=
      alike _ (List.mem_of_getLast? last) report mem bad (by rw [same]; nofun)
    rw [ending, eq, same]

/-- What is not a pipe has one part. -/
theorem single (h : m.Tallies task result reports) (tells : (m.task task).errand.work.tells) :
    (m.channel (m.task task).out).ending = some (.ofResult result) := by
  refine h.alike fun one mem other mem' _ _ => ?_
  cases h.concludes with
  | part => rw [List.mem_singleton.1 mem, List.mem_singleton.1 mem']
  | pipe pipes =>
    rw [pipes] at tells
    cases tells

end Tallies

/-- Two tasks that agree with their outputs do so together, if nobody else ends what is relayed. -/
theorem Tallies.pipe {own : Ref .channel → Prop} {m : Machine} (g : m.Guarded own none)
    {task one other : Ref .task} {left right : Ref .suspension} {relay : Ref .channel}
    (owned : own relay) (pipes : (m.task task).errand.work = .pipe left right relay)
    (feeds : m.Feeds task left right relay one other) {first second : Result}
    {reports more : List (Ref .channel × Result)} (h : m.Tallies one first reports)
    (h' : m.Tallies other second more) :
    m.Tallies task (bothResults first second) (reports ++ more) := by
  have parts (ok : bothResults first second = .ok ()) : first = .ok () ∧ second = .ok () := by
    cases first with
    | ok _ => exact ⟨rfl, ok⟩
    | error => cases ok
  refine ⟨.pipe pipes feeds h.concludes h'.concludes, ?_, ?_, ⟨fun ok => ?_, fun complete => ?_⟩,
    fun ok input given => h.whole (parts ok).1 input (feeds.input.trans given)⟩
  · rw [List.map_append, Result.together_append, ← h.first, ← h'.first]
  · obtain ⟨given, last, ending⟩ := h'.last
    rw [feeds.out] at last ending
    exact ⟨given, by rw [List.getLast?_append, last, Option.some_or], ending⟩
  · rw [← feeds.out]
    exact h'.well.1 (parts ok).2
  · -- The right side has gone well, so it has had the whole of what the left side has written.
    rw [← feeds.out] at complete
    have second_ok := h'.well.2 complete
    have first_ok :=
      h.well.2 (g.relayed owned feeds.relays (h'.whole second_ok relay feeds.relayed))
    rw [first_ok, second_ok]
    rfl

/-- A part that has told its output its result agrees with it. -/
theorem Tallies.part {m : Machine} {task : Ref .task} {result : Result}
    (tells : (m.task task).errand.work.tells)
    (finished : (m.task task).progress = .finished result)
    (told : (m.channel (m.task task).out).ending = some (.ofResult result))
    (whole : result = .ok () → ∀ input, (m.task task).errand.input = some input →
      (m.channel input).ending = some .complete) :
    m.Tallies task result [((m.task task).out, result)] :=
  ⟨.part tells finished told, (bothResults_ok result).symm, ⟨result, rfl, told⟩,
    by rw [told, ofResult_eq_complete], whole⟩

/-- A task that has finished agrees with its output, unless it was disturbed. -/
theorem Accountable.tallies {own : Ref .channel → Prop} {m : Machine} (h : m.Accountable own)
    {task : Ref .task} {result : Result} (finished : (m.task task).progress = .finished result) :
    m.Disturbed own task ∨ ∃ reports, m.Tallies task result reports := by
  -- The sides of a pipe are newer than the pipe.
  induction newer : m.tasks.cells.size - task.index using Nat.strongRecOn
    generalizing task result with
  | _ count ih =>
    have has : m.tasks.Has task := has_of_progress (by simp [finished])
    by_cases owned : own (m.task task).out
    case neg => exact .inl (.foreign owned)
    have of_joined {left right : Ref .suspension} {relay : Ref .channel}
        (pipes : (m.task task).errand.work = .pipe left right relay)
        (joined : m.Joined task left right relay result) :
        m.Disturbed own task ∨ ∃ reports, m.Tallies task result reports := by
      obtain ⟨one, other, first, second, feeds, first_done, second_done, rfl⟩ := joined
      have has_one : one.index < m.tasks.cells.size := feeds.has
      have has_other : other.index < m.tasks.cells.size := feeds.has'
      have newer_one := feeds.newer
      have newer_other := feeds.newer'
      -- Whoever ends the relay decides what the right side makes of the left one.
      by_cases relays : own relay
      case neg => exact .inl (.relay pipes relays)
      rcases ih _ (by omega) first_done rfl with disturbed | ⟨reports, tallies⟩
      · exact .inl (.left pipes feeds disturbed)
      · rcases ih _ (by omega) second_done rfl with disturbed | ⟨more, tallies'⟩
        · exact .inl (.right pipes feeds disturbed)
        · exact .inr ⟨_, .pipe h.guarded relays pipes feeds tallies tallies'⟩
    cases h.account has with
    | underway underway =>
      cases underway with
      | fresh isNew => cases finished.symm.trans isNew
      | writing _ _ pauses => cases finished.symm.trans pauses
      | hanging hangs => cases finished.symm.trans hangs
      | waiting _ _ waits => cases finished.symm.trans waits
      | joining _ _ joins => cases finished.symm.trans joins
    | told tells given told whole =>
      cases finished.symm.trans given
      exact .inr ⟨_, .part tells finished (told owned) whole⟩
    | mute writes mute given relays =>
      cases finished.symm.trans given
      by_cases told : (m.channel (m.task task).out).ending = some (.ofResult result)
      case neg => exact .inl (.alien writes mute finished told)
      refine .inr ⟨_, .part (by rw [writes]; rfl) finished told fun ok input named => ?_⟩
      -- What has gone well relays its input, which has ended as the output has.
      obtain ⟨relayed, same, hears⟩ := relays ok
      cases same.symm.trans named
      exact h.guarded.relayed owned hears (told.trans (ofResult_eq_complete.2 ok))
    | refused step input given taken _ _ _ silent =>
      exact .inl (.refused step input taken given (silent owned))
    | lost step input given abandoned =>
      cases finished.symm.trans given
      by_cases told : (m.channel (m.task task).out).ending = some (.ofResult inputDropped)
      · exact .inr ⟨_, .part (Work.tells_of_isStep step) finished told nofun⟩
      · exact .inl (.lost step input abandoned finished told)
    | joined pipes feeds first_done second_done given =>
      cases finished.symm.trans given
      exact of_joined pipes ⟨_, _, _, _, feeds, first_done, second_done, rfl⟩
    | @usurped left right side relay usurper pipes of_pipe given has_usurper resumed =>
      cases finished.symm.trans given
      by_cases joined : m.Joined task left right relay (.error .alreadyResumed)
      · exact of_joined pipes joined
      · exact .inl (.usurped pipes of_pipe has_usurper resumed finished joined)

end Machine

/-- Tasks and their outputs agree, whatever is asked of a machine by a host that leaves the
outputs alone and however a task was resumed. When a task has finished and nothing has disturbed
it, its output has ended. What is not a pipe tells its output exactly what it comes to, and so
does a pipe unless two of its parts fail differently: then the task has the first failure of the
parts, and the output the last. In any case the output is complete exactly if the task has gone
well. -/
theorem Affairs.outputs_agree {host : Host} {own : Ref .channel → Prop}
    (hosted : growth.discipline.Admits host) (kept : (custody own).Admits host) {m : Machine}
    (affairs : Affairs host own m) {task : Ref .task} {result : Result}
    (finished : (m.task task).result? = some result) :
    m.Disturbed own task ∨ ∃ reports, m.Tallies task result reports ∧
      ((m.task task).errand.work.tells →
        (m.channel (m.task task).out).ending = some (.ofResult result)) ∧
      ((∀ one ∈ reports, ∀ other ∈ reports, one.2 ≠ .ok () → other.2 ≠ .ok () → one.2 = other.2) →
        (m.channel (m.task task).out).ending = some (.ofResult result)) := by
  have accountable := affairs.accountable hosted kept
  rcases accountable.tallies (Machine.result?_eq_some.1 finished) with
    disturbed | ⟨reports, tallies⟩
  · exact .inl disturbed
  · exact .inr ⟨reports, tallies, tallies.single, tallies.alike⟩

/-! ### Parts that fail differently -/

/-- The result that a signal tells. -/
def Signal.result? : Signal → Option Result
  | .next _ => none
  | .complete => some (.ok ())
  | .failed failure => some (.error failure)

theorem Signal.eq_ofResult {signal : Signal} {result : Result}
    (told : signal.result? = some result) : signal = .ofResult result := by
  cases signal <;> cases told <;> rfl

/-- A pipe of a pipe and a streaming procedure, in which the first part and the last fail
differently. -/
def disputedText : String :=
  "proc: native [params body] :core/proc throw: native [message] :core/throw
  f: proc [/out] [out \"a\" throw \"left\"] g: proc [/in /out] [out in]
  h: proc [/in /out] [throw \"right\"] pipe pipe f g h"

/-- The pipe is made, and waits to be settled. -/
def Machine.disputed : Option (Except Failure Value) × Machine :=
  (Demand.evaluate disputedText).run (.ofFuel toolkit 20) 20 .stocked

/-- The pipe has been settled. -/
def Machine.disputedEnd : Option Driven × Machine :=
  (Demand.settle []).run (.ofFuel toolkit 30) 30 Machine.disputed.2

/-- How the pipe and its parts have ended. -/
theorem disputed_runs :
    Machine.disputed.1.isSome ∧ Machine.disputedEnd.1.isSome ∧
      Machine.disputedEnd.2.tasks.cells.size = 5 ∧
      (∀ i < 5, (Machine.disputedEnd.2.task ⟨i⟩).errand.work.isStep ∨
        (Machine.disputedEnd.2.task ⟨i⟩).errand.work.tells = false) ∧
      (∀ i < 5, (Machine.disputedEnd.2.task ⟨i⟩).result? =
        some (.error (.thrown (if i = 2 then "right" else "left")))) ∧
      (Machine.disputedEnd.2.channel (Machine.disputedEnd.2.task ⟨0⟩).out).ending.bind
        Signal.result? = some (.error (.thrown "right")) := by
  decide +kernel

theorem disputed_ending (failed : (Machine.disputedEnd.2.channel
      (Machine.disputedEnd.2.task ⟨0⟩).out).ending.bind Signal.result? =
        some (.error (.thrown "right"))) :
    (Machine.disputedEnd.2.channel (Machine.disputedEnd.2.task ⟨0⟩).out).ending =
      some (.failed (.thrown "right")) := by
  obtain ⟨signal, ending, told⟩ := Option.bind_eq_some_iff.1 failed
  rw [ending, Signal.eq_ofResult told]
  rfl

/-- The task of a pipe fails as its first part does, and its output as its last part. -/
theorem disputed_output_differs :
    (Machine.disputedEnd.2.task ⟨0⟩).result? = some (.error (.thrown "left")) ∧
      (Machine.disputedEnd.2.channel (Machine.disputedEnd.2.task ⟨0⟩).out).ending =
        some (.failed (.thrown "right")) := by
  obtain ⟨-, -, -, -, results, failed⟩ := disputed_runs
  exact ⟨results 0 (by decide), disputed_ending failed⟩

/-- A host that leaves all channels alone can disturb a task only with a source that keeps quiet
or has an input to relay; otherwise one of three failures has done so. -/
theorem Machine.Disturbed.culprit {m : Machine} {task : Ref .task}
    (h : m.Disturbed (fun _ => True) task) (has : m.tasks.Has task) :
    ∃ culprit, m.tasks.Has culprit ∧
      ((∃ source, (m.task culprit).errand.work = .source source ∧
          ((m.task culprit).errand.input.isSome ∨ ∃ failure, source.ending = .quiet failure)) ∨
        ∃ result ∈ [.error .alreadySubscribed, inputDropped, .error .alreadyResumed],
          (m.task culprit).result? = some result) := by
  induction h with
  | foreign foreign => exact absurd trivial foreign
  | alien writes mute => exact ⟨_, has, .inl ⟨_, writes, mute⟩⟩
  | refused _ _ _ finished | lost _ _ _ finished | usurped _ _ _ _ finished =>
    exact ⟨_, has, .inr ⟨_, by simp, result?_eq_some.2 finished⟩⟩
  | relay _ foreign => exact absurd trivial foreign
  | left _ feeds _ ih => exact ih feeds.has
  | right _ feeds _ ih => exact ih feeds.has'

theorem Affairs.stocked (host : Host) (own : Ref .channel → Prop) : Affairs host own .stocked := by
  have plumbing : Machine.stocked.plumbing = (Machine.ofConfig .standard).plumbing :=
    Machine.plumbing_of_bearings (Machine.bearings_installLibrary _)
  have channels : Machine.stocked.channels = (Machine.ofConfig .standard).channels :=
    congrArg Machine.Plumbing.channels plumbing
  have probes : Machine.stocked.probes = (Machine.ofConfig .standard).probes :=
    congrArg Machine.Plumbing.probes plumbing
  exact .prepare (.new .standard) (fun x => congrArg (Arena.get · x) channels)
    (fun has => channels ▸ has)
    (congrArg Machine.Plumbing.stages plumbing) (congrArg Machine.Plumbing.suspensions plumbing)
    (congrArg Machine.Plumbing.tasks plumbing) fun foreign => by rwa [probes]

/-- Nothing disturbs the pipe whose parts fail differently, and so its task has the failure of the
first part and its output that of the last. -/
theorem Affairs.outputs_agree_of_dispute :
    (Machine.disputedEnd.2.task ⟨0⟩).result? = some (.error (.thrown "left")) ∧
      ¬ Machine.disputedEnd.2.Disturbed (fun _ => True) ⟨0⟩ ∧
      ∃ reports, Machine.disputedEnd.2.Tallies ⟨0⟩ (.error (.thrown "left")) reports ∧
        reports.getLast?.map Prod.snd = some (.error (.thrown "right")) := by
  obtain ⟨made, settled, size, works, results, failed⟩ := disputed_runs
  have affairs : Affairs toolkit (fun _ => True) Machine.disputedEnd.2 :=
    ((Affairs.stocked _ _).ask (.evaluate disputedText) trivial 20 made).ask
      (.settle []) trivial 30 settled
  have finished := results 0 (by decide)
  have quiet : ¬ Machine.disputedEnd.2.Disturbed (fun _ => True) ⟨0⟩ := fun disturbed => by
    obtain ⟨⟨i⟩, has, ⟨source, writes, -⟩ | ⟨result, mem, prevented⟩⟩ :=
      disturbed.culprit (Nat.lt_of_lt_of_eq (by decide : 0 < 5) size.symm)
    · have work := works i (Nat.lt_of_lt_of_eq has size)
      rw [writes] at work
      rcases work with step | quiet
      · cases step
      · cases quiet
    · rw [results i (Nat.lt_of_lt_of_eq has size)] at prevented
      cases prevented
      simp [inputDropped] at mem
  rcases affairs.outputs_agree (Discipline.admits_toolkit growth.practice.isLax)
    (Discipline.admits_toolkit (guardPractice _).isLax) finished
    with disturbed | ⟨reports, tallies, -, -⟩
  · exact absurd disturbed quiet
  · refine ⟨finished, quiet, reports, tallies, ?_⟩
    obtain ⟨given, last, ending⟩ := tallies.last
    rw [last]
    cases given with
    | ok _ => cases ending.symm.trans (disputed_ending failed)
    | error failure =>
      cases ending.symm.trans (disputed_ending failed)
      rfl

end Wordstream
