import Wordstream.Proofs.Piping

/-!
# The effect of pipes

A source and workers that have not been resumed are piped together in some grouping, resumed and
driven to the end, whatever else is done to the task before and after.

## Main results

* `Piping.Ready.ends_run` — what has come of it
-/

namespace Wordstream

open Line (Moment)

/-! ## Stations -/

/-- The stations of workers that are fed by relays, when their stages are made one after the
other. -/
def stationsOf : Nat → List Worker → List (Ref .channel) → List Station
  | base, x :: rest, relay :: relays =>
    ⟨relay, ⟨base⟩, x.step, x.out, x.player⟩ :: stationsOf (base + 1) rest relays
  | _, _, _ => []

section Stations

variable {base : Nat} {workers : List Worker} {relays : List (Ref .channel)}

theorem length_stationsOf (same : workers.length = relays.length) :
    (stationsOf base workers relays).length = workers.length := by
  induction workers generalizing base relays with
  | nil => rfl
  | cons x rest ih =>
    cases relays with
    | nil => cases same
    | cons relay relays => exact congrArg (· + 1) (ih (Nat.succ.inj same))

theorem map_player_stationsOf (same : workers.length = relays.length) :
    (stationsOf base workers relays).map Station.player = workers.map Worker.player := by
  induction workers generalizing base relays with
  | nil => rfl
  | cons x rest ih =>
    cases relays with
    | nil => cases same
    | cons relay relays => exact congrArg (_ :: ·) (ih (Nat.succ.inj same))

/-- The station at some place belongs to the worker and the relay there. -/
theorem getElem?_stationsOf (i : Nat) :
    (stationsOf base workers relays)[i]? =
      match workers[i]?, relays[i]? with
      | some x, some relay => some ⟨relay, ⟨base + i⟩, x.step, x.out, x.player⟩
      | _, _ => none := by
  induction workers generalizing base relays i with
  | nil => simp [stationsOf]
  | cons y rest ih =>
    cases relays with
    | nil => simp [stationsOf]
    | cons relay relays =>
      cases i with
      | zero => simp [stationsOf]
      | succ i =>
        simp only [stationsOf, List.getElem?_cons_succ, ih i]
        rw [Nat.add_right_comm, Nat.add_assoc]

/-- What is at some place if there is a station. -/
theorem exists_of_stationsOf {i : Nat} {x : Station}
    (there : (stationsOf base workers relays)[i]? = some x) :
    ∃ worker relay, workers[i]? = some worker ∧ relays[i]? = some relay ∧
      x = ⟨relay, ⟨base + i⟩, worker.step, worker.out, worker.player⟩ := by
  rw [getElem?_stationsOf] at there
  split at there
  · next worker relay here fed => exact ⟨worker, relay, here, fed, (Option.some.inj there).symm⟩
  · cases there

theorem last_stationsOf (same : workers.length = relays.length) (c : Ref .channel) :
    Line.last (stationsOf base workers relays) c = (workers.map Worker.out).getLastD c := by
  induction workers generalizing base relays c with
  | nil => rfl
  | cons x rest ih =>
    cases relays with
    | nil => cases same
    | cons relay relays =>
      rw [List.map_cons, List.getLastD_cons]
      exact ih (Nat.succ.inj same) x.out

end Stations

/-- Things that are pointed to by references to one kind are the same if the references are. -/
theorem Ref.thing_inj {kind : Entity} {ref other : Ref kind} (same : ref.thing = other.thing) :
    ref = other := by
  cases ref
  cases other
  simpa [thing] using same

theorem Step.kind_of_mem_things {step : Step} {thing : Thing} (member : thing ∈ step.things) :
    thing.kind = .activation := by
  cases step with
  | body activation => rw [List.mem_singleton.1 member]; rfl
  | call native args => cases member

section Apart

variable {base : Nat} {workers : List Worker} {relays : List (Ref .channel)}

/-- What a line is made of whose stations are those of some workers. -/
theorem mem_things_stationsOf {c : Ref .channel} {thing : Thing}
    (member : thing ∈ Line.things .kept (stationsOf base workers relays) c) :
    (∃ d ∈ c :: (relays ++ workers.map Worker.out), thing = d.thing) ∨
      (∃ i, base ≤ i ∧ thing = (⟨i⟩ : Ref .stage).thing) ∨
      thing ∈ workers.flatMap fun x => x.step.things := by
  induction workers generalizing base relays c with
  | nil => exact .inl ⟨c, List.mem_cons_self .., List.mem_singleton.1 member⟩
  | cons x rest ih =>
    cases relays with
    | nil => exact .inl ⟨c, List.mem_cons_self .., List.mem_singleton.1 member⟩
    | cons relay relays =>
      simp only [stationsOf, Line.things, List.mem_cons, List.mem_append] at member
      rcases member with rfl | rfl | rfl | own | behind
      · exact .inl ⟨c, List.mem_cons_self .., rfl⟩
      · exact .inl ⟨relay, by simp, rfl⟩
      · exact .inr (.inl ⟨base, Nat.le_refl _, rfl⟩)
      · exact .inr (.inr (by simp [own]))
      · -- Behind a station the line starts at its out, which is one of the outs of the workers.
        rcases ih behind with ⟨d, there, rfl⟩ | ⟨i, above, rfl⟩ | own
        · refine .inl ⟨d, ?_, rfl⟩
          simp only [List.mem_cons, List.mem_append, List.map_cons] at there ⊢
          rcases there with rfl | there | there
          · exact .inr (.inr (.inl rfl))
          · exact .inr (.inl (.inr there))
          · exact .inr (.inr (.inr there))
        · exact .inr (.inl ⟨i, by omega, rfl⟩)
        · exact .inr (.inr (by rw [List.flatMap_cons]; exact List.mem_append_right _ own))

/-- The kind of what belongs to the steps of workers. -/
theorem kind_of_mem_flatMap {thing : Thing}
    (member : thing ∈ workers.flatMap fun x => x.step.things) : thing.kind = .activation := by
  obtain ⟨x, -, own⟩ := List.mem_flatMap.1 member
  exact Step.kind_of_mem_things own

/-- A channel that is none of those of a line is not a part of it. -/
theorem channel_not_mem_things {c d : Ref .channel}
    (apart : d ∉ c :: (relays ++ workers.map Worker.out)) :
    d.thing ∉ Line.things .kept (stationsOf base workers relays) c := by
  intro member
  rcases mem_things_stationsOf member with ⟨other, there, same⟩ | ⟨i, -, same⟩ | own
  · exact apart (Ref.thing_inj same ▸ there)
  · exact Entity.noConfusion (congrArg Thing.kind same)
  · exact Entity.noConfusion (kind_of_mem_flatMap own)

/-- A line is made of different things if its channels and activations are different. -/
theorem nodup_things_stationsOf {c : Ref .channel}
    (channels : (c :: (relays ++ workers.map Worker.out)).Nodup)
    (activations : (workers.flatMap fun x => x.step.things).Nodup) :
    (Line.things .kept (stationsOf base workers relays) c).Nodup := by
  induction workers generalizing base relays c with
  | nil => simp [stationsOf, Line.things, Exit.things]
  | cons x rest ih =>
    cases relays with
    | nil => simp [stationsOf, Line.things, Exit.things]
    | cons relay relays =>
      rw [List.flatMap_cons, List.nodup_append] at activations
      obtain ⟨own_nodup, rest_nodup, own_apart⟩ := activations
      obtain ⟨c_apart, channels⟩ := List.nodup_cons.1 channels
      obtain ⟨relay_apart, channels⟩ := List.nodup_cons.1 channels
      have moved : (relays ++ (x :: rest).map Worker.out).Perm
          (x.out :: (relays ++ rest.map Worker.out)) := List.perm_middle
      -- What is behind is apart from a channel before, from the stage and from its step.
      have behind {d : Ref .channel} (apart : d ∉ relays ++ (x :: rest).map Worker.out) :
          d.thing ∉ Line.things .kept (stationsOf (base + 1) rest relays) x.out :=
        channel_not_mem_things fun member => apart (moved.mem_iff.2 member)
      refine List.nodup_cons.2 ⟨fun member => ?_, List.nodup_cons.2 ⟨fun member => ?_,
        List.nodup_cons.2 ⟨fun member => ?_, List.nodup_append.2 ⟨own_nodup,
          ih (moved.nodup_iff.1 channels) rest_nodup, fun thing own other there same => ?_⟩⟩⟩⟩
      · simp only [List.mem_cons, List.mem_append] at member
        rcases member with same | same | own | member
        · exact c_apart (Ref.thing_inj same ▸ List.mem_cons_self ..)
        · exact Entity.noConfusion (congrArg Thing.kind same)
        · exact Entity.noConfusion (Step.kind_of_mem_things own)
        · exact behind (fun among => c_apart (List.mem_cons_of_mem _ among)) member
      · simp only [List.mem_cons, List.mem_append] at member
        rcases member with same | own | member
        · exact Entity.noConfusion (congrArg Thing.kind same)
        · exact Entity.noConfusion (Step.kind_of_mem_things own)
        · exact behind relay_apart member
      · rcases List.mem_append.1 member with own | member
        · exact Entity.noConfusion (Step.kind_of_mem_things own)
        · rcases mem_things_stationsOf member with ⟨d, -, same⟩ | ⟨i, above, same⟩ | own
          · exact Entity.noConfusion (congrArg Thing.kind same)
          · have index_eq := congrArg Ref.index (Ref.thing_inj same)
            exact absurd index_eq (by change ¬ base = i; omega)
          · exact Entity.noConfusion (kind_of_mem_flatMap own)
      · subst same
        rcases mem_things_stationsOf there with ⟨d, -, rfl⟩ | ⟨i, -, rfl⟩ | also
        · exact Entity.noConfusion (Step.kind_of_mem_things own)
        · exact Entity.noConfusion (Step.kind_of_mem_things own)
        · exact own_apart thing own thing also rfl

end Apart

/-- Workers that are linked behind a part are a line. -/
theorem carries_of_linked {world : Setting} {exit : Exit} {m : Machine} {base : Nat}
    {workers : List Worker} {relays : List (Ref .channel)} {x : Part}
    (linked : Relayed m (x :: workers.map Worker.part) relays)
    (own : ∀ y ∈ workers, y.step.own? m = y.player.start)
    (arrives : exit.Holds ((workers.map Worker.out).getLastD x.out) .empty m) :
    Line.Carries world exit (stationsOf base workers relays) 0 x.out .empty m := by
  induction workers generalizing base relays x with
  | nil =>
    cases linked
    exact arrives
  | cons y rest ih =>
    cases linked with
    | cons _ _ _ relay relays forwards relayed behind =>
      rw [List.forall_mem_cons] at own
      rw [List.map_cons, List.getLastD_cons] at arrives
      exact ⟨forwards, relayed, own.1, ih behind own.2 arrives⟩

namespace Piping

/-- The output behind the last worker. -/
def last (p : Piping) : Ref .channel := (p.workers.map Worker.out).getLastD p.out

/-- A source and workers that can be piped together: the source has admitted values, each worker
takes input by a step that follows its conduct and has an activation of its own, and nothing was
written to any output. Somebody may be listening to the last already. -/
structure Ready (p : Piping) (engine : Nat → Engine) (world : Setting) (exit : Exit) (m : Machine) :
    Prop where
  joinable : Joinable m p.parts
  arrives : exit.Holds p.last .empty m
  has : exit.Has m
  own : ∀ x ∈ p.workers, x.step.own? m = x.player.start
  activations : (p.workers.flatMap fun x => x.step.things).Nodup
  follows : ∀ x ∈ p.workers, x.step.Follows engine world x.out x.player.conduct
  suits : ∀ x ∈ p.workers, x.player.conduct.Suits x.player.start
  holds : world.Holds m
  admits : ∀ value ∈ p.values, world.Admits value

section Lay

variable {p : Piping} {engine : Nat → Engine} {world : Setting} {exit : Exit} {m m₁ : Machine}
  {plan : Plan} {relays : List (Ref .channel)}

theorem outs_eq (p : Piping) : p.parts.map Part.out = p.out :: p.workers.map Worker.out := by
  rw [parts, List.map_cons, List.map_map]
  rfl

/-- The outputs of the parts are those that will be forwarded and the last. -/
theorem outs_eq_append (p : Piping) :
    p.parts.map Part.out = p.parts.dropLast.map Part.out ++ [p.last] := by
  have nonempty : p.parts.map Part.out ≠ [] := by simp [outs_eq]
  have last_eq : (p.parts.map Part.out).getLast nonempty = p.last := by
    simp only [outs_eq]
    rw [List.getLast_eq_getLastD]
    rfl
  rw [List.map_dropLast, ← last_eq, List.dropLast_concat_getLast]

/-- The last output is none of those that are forwarded. -/
theorem Ready.last_apart (ready : p.Ready engine world exit m) :
    p.last ∉ p.parts.dropLast.map Part.out ∧ m.channels.Has p.last := by
  have nodup := ready.joinable.outs
  rw [outs_eq_append, List.nodup_append] at nodup
  refine ⟨fun member => nodup.2.2 _ member _ (List.mem_singleton_self _) rfl, ?_⟩
  refine ready.joinable.has_of_mem_out ?_
  rw [outs_eq_append]
  exact List.mem_append_right _ (List.mem_singleton_self _)

variable (handsOver : ∀ fuel ref, (engine (fuel + 1)).deliver ref = deliverAll (engine fuel) ref)
  (ready : p.Ready engine world exit m) (joined : Joined m p.parts plan relays m₁)

include ready joined

omit ready in
theorem length_relays : p.workers.length = relays.length := by
  have same := joined.linked.length_eq
  rw [parts, List.length_cons, List.length_map] at same
  omega

include handsOver

/-- What was piped together is laid out as a line. -/
theorem Ready.lays :
    p.Laid engine world plan (stationsOf m.stages.next.index p.workers relays) where
  handsOver := handsOver
  parts := joined.parts_eq
  refs := joined.refs
  out := by
    have y_last := List.getLast?_eq_some_getLast plan.parts_ne_nil
    have out_eq := congrArg List.getLast? p.outs_eq_append
    rw [List.getLast?_concat, List.getLast?_map, ← joined.parts_eq, y_last] at out_eq
    rw [last_stationsOf (length_relays joined), ← plan.out_of_getLast? y_last]
    exact Option.some.inj out_eq
  length := length_stationsOf (length_relays joined)
  players := map_player_stationsOf (length_relays joined)
  worker i x y station there := by
    obtain ⟨worker, relay, here, -, rfl⟩ := exists_of_stationsOf station
    obtain rfl : worker = y := Option.some.inj (here.symm.trans there)
    exact ⟨rfl, rfl⟩
  lawful x member := by
    obtain ⟨i, there⟩ := List.mem_iff_getElem?.1 member
    obtain ⟨worker, relay, here, -, rfl⟩ := exists_of_stationsOf there
    have worker_mem := List.mem_of_getElem? here
    exact ⟨ready.follows worker worker_mem, ready.suits worker worker_mem⟩
  placed i x y there next := by
    obtain ⟨_, _, _, _, rfl⟩ := exists_of_stationsOf there
    obtain ⟨_, _, _, _, rfl⟩ := exists_of_stationsOf next
    rfl
  apart := by
    refine nodup_things_stationsOf ?_ ready.activations
    -- The relays are new, and so none of the outputs.
    have outs := p.outs_eq ▸ ready.joinable.outs
    have new (relay) (member : relay ∈ relays) : relay ∉ p.out :: p.workers.map Worker.out :=
      fun among => (joined.relay_new relay member).1
        (ready.joinable.has_of_mem_out (p.outs_eq ▸ among))
    refine List.perm_middle.nodup_iff.1 (List.nodup_append.2 ⟨joined.relays_nodup, outs,
      fun relay member other among same => new relay member (same ▸ among)⟩)
  admits := ready.admits

omit handsOver in
/-- Nothing has been written when parts have just been piped together. -/
theorem Ready.moment :
    Moment world exit (stationsOf m.stages.next.index p.workers relays) p.out 0 .empty m₁ := by
  have rest := joined.gains.rest
  have activations : m₁.activations = m.activations := by rw [← rest]
  have collectors : m₁.collectors = m.collectors := by rw [← rest]
  have stages : m₁.stages = m.stages := by rw [← rest]
  obtain ⟨last_apart, last_has⟩ := ready.last_apart
  have last_eq : m₁.channel p.last = m.channel p.last :=
    joined.gains.channel p.last last_has last_apart
  refine ⟨carries_of_linked joined.linked (fun x member => ?_) ?_,
    world.of_backdrop (by rw [← rest]; rfl) ready.holds, (fun _ nothing => by cases nothing),
    fun x there => ?_, ?_⟩
  · rw [← ready.own x member]
    cases x.step with
    | body activation => exact congrArg (fun arena => some (arena.get activation)) activations
    | call native args => rfl
  · have arrives := ready.arrives
    cases exit with
    | kept => exact last_eq.trans arrives
    | collected ref => exact ⟨last_eq.trans arrives.1, by rw [collectors]; exact arrives.2⟩
  · obtain ⟨_, _, _, _, rfl⟩ := exists_of_stationsOf there
    rw [stages]
    rfl
  · have has := ready.has
    cases exit with
    | kept => trivial
    | collected ref => rwa [Exit.Has, collectors]

omit handsOver in
/-- What was piped together is resumed, and waits to be polled. -/
theorem Ready.resumes :
    ∃ m₂, resume plan.ref none m₁ = (some (.ok m₁.tasks.next), m₂) ∧
      p.At world plan (stationsOf m.stages.next.index p.workers relays) exit .fresh m₁.tasks.next
        m₂ := by
  have begins : Begins (Standing.fresh.progress p
      (stationsOf m.stages.next.index p.workers relays)) 0 p.parts (none :: relays.map some) := by
    intro j x input there given
    rw [Nat.zero_add]
    -- The source listens to nothing, and each worker to the relay before it.
    cases j with
    | zero =>
      obtain rfl := Option.some.inj there
      obtain rfl := Option.some.inj given
      rfl
    | succ j =>
      have there : (p.workers.map Worker.part)[j]? = some x := there
      rw [List.getElem?_map, Option.map_eq_some_iff] at there
      rw [List.getElem?_cons_succ, List.getElem?_map, Option.map_eq_some_iff] at given
      obtain ⟨y, worker, rfl⟩ := there
      obtain ⟨relay, fed, rfl⟩ := given
      rw [Standing.progress, getElem?_stationsOf, worker, fed]
      rfl
  obtain ⟨m₂, resumed, begun, -, same⟩ :=
    (joined.ready _ 0 none begins fun fed => by cases fed).resume joined.refs
  exact ⟨m₂, resumed, fun _ => begun, fun polled => (polled rfl).elim,
    (ready.moment joined).of_same same, trivial⟩

end Lay

end Piping

/-! ## From piping to the end -/

/-- Pipe suspensions together, resume the pipe without input and drive its task; `before` and
`after` is what else is done to the task. -/
def Grouping.run (grouping : Grouping) (engine : Engine) (fuel : Nat) (outside : List Thing)
    (before after : List Move) : Run Machine Driven := do
  let ref ← grouping.join engine
  let t ← resume ref none
  Move.performAll engine fuel t before
  let driven ← drive engine fuel outside t
  Move.performAll engine fuel t after
  pure driven

namespace Piping

/-- What has come of a source and workers: the signals at the last output, the phases of all, and
the activations and stages of the workers. -/
structure Ended (p : Piping) (exit : Exit) (m : Machine) : Prop where
  arrived : exit.Holds p.last (.closed (Line.pass p.players p.values p.result).1
    (Line.pass p.players p.values p.result).2) m
  source : (m.suspension p.source).phase = .ofResult p.result
  worker (i : Nat) (x : Worker) (ended : Result × Option Activation) :
    p.workers[i]? = some x → (Line.ends p.players p.values p.result)[i]? = some ended →
      (m.suspension x.ref).phase = .ofResult ended.1 ∧ x.step.own? m = ended.2 ∧
        ∃ stage, m.stages.get stage = ⟨x.step, x.out, some ended.1⟩

/-- When the source has ended, all has come to its end. -/
theorem At.ended {p : Piping} {engine : Nat → Engine} {world : Setting} {plan : Plan}
    {stations : List Station} {exit : Exit} {t : Ref .task} {m : Machine}
    (laid : p.Laid engine world plan stations) (h : p.At world plan stations exit .ended t m)
    (last : Line.last stations p.out = p.last) : p.Ended exit m where
  arrived := by
    obtain ⟨heard, holds, all⟩ := h.moment.carries.arrived
    rw [all (Nat.le_of_eq laid.length), laid.players, last] at holds
    rw [← Line.output_closed]
    exact holds
  source := by
    have first : plan.parts[0]? =
        some ⟨p.source, p.out, .source ⟨p.portions, .ofResult p.result⟩⟩ := by
      rw [laid.parts]
      rfl
    exact (h.stands nofun).phase_eq first
  worker i x ended there atEnd := by
    obtain ⟨flow, flowing, result_eq, memory_eq⟩ := Line.getElem?_flows_closed atEnd
    rw [← laid.players] at flowing
    have inside : i < p.workers.length := (List.getElem?_eq_some_iff.1 there).1
    obtain ⟨station, here⟩ : ∃ station, stations[i]? = some station :=
      ⟨_, List.getElem?_eq_getElem (by rw [laid.length]; exact inside)⟩
    have part : plan.parts[i + 1]? = some x.part := by
      rw [laid.parts, parts, List.getElem?_cons_succ, List.getElem?_map, there]
      rfl
    have polled : Standing.ended ≠ .fresh := nofun
    have phase := (h.stands polled).phase_eq part
    rw [Nat.zero_add, Standing.progress_of_flowing polled here flowing, Station.progress,
      result_eq] at phase
    -- The memory is where the step left it, for every station has begun.
    obtain ⟨other, -, also, -, stage, own⟩ := h.moment.carries.begun here inside
    obtain rfl : flow = other := Option.some.inj (flowing.symm.trans also)
    obtain ⟨out_eq, step_eq⟩ := laid.worker i station x here there
    exact ⟨phase, by rw [← step_eq, own, memory_eq],
      station.stage, by rw [stage, step_eq, out_eq, result_eq]⟩

/-- A source and workers are piped together, and all comes to its end. -/
theorem Ready.ends_run {p : Piping} {engine : Nat → Engine} {world : Setting} {exit : Exit}
    {m : Machine}
    (handsOver : ∀ fuel ref, (engine (fuel + 1)).deliver ref = deliverAll (engine fuel) ref)
    (ready : p.Ready engine world exit m) {grouping : Grouping}
    (same : grouping.refs = p.parts.map Part.ref) (outside : List Thing)
    (before after : List Move) :
    ∃ exit' m', Ends (fun fuel => grouping.run (engine fuel) fuel outside before after) m
        (.ok (.finished p.total)) m' ∧
      p.Ended exit' m' ∧ (exit' = .kept ↔ exit = .kept ∧ .collect ∉ before ++ after) := by
  obtain ⟨plan, relays, m₁, joins, joined⟩ := Grouping.ends_join handsOver same ready.joinable
  have laid := ready.lays handsOver joined
  obtain ⟨m₂, resumed, at₂⟩ := ready.resumes joined
  obtain ⟨exit₃, standing₃, m₃, performed, at₃, -, kept₃⟩ := at₂.performs laid before
  obtain ⟨m₄, driven, at₄⟩ := at₃.drives laid outside
  obtain ⟨exit', standing', m', rested, at', atEnd, kept'⟩ := at₄.performs laid after
  have ended := (atEnd rfl ▸ at').ended laid (last_stationsOf (length_relays joined) _)
  refine ⟨exit', m', ?_, ended, ?_⟩
  · have settled : Ends (fun fuel => (resume plan.ref none >>= fun t => do
        Move.performAll (engine fuel) fuel t before
        let driven ← drive (engine fuel) fuel outside t
        Move.performAll (engine fuel) fuel t after
        pure driven : Run Machine Driven)) m₁ (.ok (.finished p.total)) m' :=
      Ends.andThen (.of_eq fun _ => resumed)
        (performed.lift.andThen (driven.lift.andThen (rested.lift.andThen (.of_eq fun _ => rfl))))
    exact joins.andThen settled
  · rw [kept', kept₃, List.mem_append, not_or, and_assoc]

end Piping

end Wordstream
