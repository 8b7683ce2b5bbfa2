import Wordstream.Proofs.Lives
import Wordstream.Proofs.Safekeeping

/-!
# How tasks end their outputs

A task that works by itself ends its output and has its result at once. One that takes the values
of an input makes a stage, to which it leaves its output, and waits for the result of that. A
source writes portion by portion before it ends its output, or has its input relayed there. In
every case guard is kept over the channels that the host leaves alone.

## Main results

* `runOnce_tells` — a task that works by itself tells its output its result
* `startStage_begins` — a task with an input waits for its stage, or finds the input taken
* `Machine.Guarded.continueSource` — a source that writes on tells its output how it ends, if at all
* `Machine.Guarded.relaySource` — a source that has an input has it relayed, or finds it taken
-/

namespace Wordstream

namespace Machine

theorem Grows.task_eq {m m' : Machine} (h : m.Grows m') (orderly : m.Orderly) {task : Ref .task}
    (has : m.tasks.Has task) : m'.task task = m.task task := ((h.orderly orderly).2.2 task has).2

/-- Nobody listens for a stage that is new. -/
theorem Honours.addStage (own : Ref .channel → Prop) (m : Machine) (stage : Stage) :
    m.Honours own (m.addStage stage) := by
  refine .of_same (fun _ => rfl) (fun has => ⟨has.alloc stage, ?_⟩) id (.of_eq rfl)
  change (m.stages.alloc stage).get _ = _
  rw [Arena.get_alloc, if_neg has.ne_next]

/-! ## Taking a task further -/

/-- What a source that goes on to write has come to: it pauses or hangs, it has told its output
how it ends and has finished so, or it keeps quiet and has failed. -/
inductive Wrote (own : Ref .channel → Prop) (m : Machine) (ref : Ref .task) (out : Ref .channel)
    (ending : Ending) : Prop
  | pausing {rest : Source} (writing : (m.task ref).progress = .writing rest)
      (same : rest.ending = ending)
  | hanging (hangs : (m.task ref).progress = .hanging)
  | told {result : Result} (finished : (m.task ref).progress = .finished result)
      (told : own out → (m.channel out).ending = some (.ofResult result))
  | quiet {failure : Failure} (keeps : ending = .quiet failure)
      (finished : (m.task ref).progress = .finished (.error failure))

namespace Guarded

variable {own : Ref .channel → Prop} {m m' : Machine} {ref : Ref .task}

theorem setProgress (g : m.Guarded own (some ref)) {progress : Progress}
    (quiet : progress.tells = false) : (setProgress ref progress m).2.Guarded own none :=
  g.retire quiet rfl (fun _ => .inl rfl) (.of_eq rfl) rfl rfl rfl

theorem finishTask (g : m.Guarded own (some ref)) (result : Result) :
    (Wordstream.finishTask ref result m).2.Guarded own none := by
  rw [finishTask_apply]
  have quiet : (Progress.finished result).tells = false := rfl
  refine g.retire quiet rfl (fun other => ?_) (.of_set rfl rfl rfl ?_) rfl rfl rfl
  · change (m.suspensions.set _ _).get other = _ ∨ ((m.suspensions.set _ _).get other).phase ≠ _
    rw [Arena.get_set]
    split
    · exact .inr (by cases result <;> exact Phase.noConfusion)
    · exact .inl rfl
  · cases result <;> exact Phase.noConfusion

/-- A task that pauses has its output still to end. -/
theorem pause (g : m.Guarded own none) (tells : (m.task ref).progress.tells) (progress : Progress)
    (woken : Bool) : Guarded own none { m with
      tasks := m.tasks.set ref { m.task ref with progress := progress }
      woken := woken } := by
  refine g.thin (fun _ => rfl) id rfl id
    (g.plumbed.mono (.of_eq rfl) id (fun _ _ => .inl rfl) fun task => .inl ?_)
    fun {out ender} h => ?_
  · change ((m.tasks.set ref _).get task).errand = _ ∧ ((m.tasks.set ref _).get task).out = _
    rw [Arena.get_set]
    split
    · next at_ref => exact ⟨by rw [at_ref], by rw [at_ref]⟩
    · exact ⟨rfl, rfl⟩
  by_cases at_ref : ender = .task ref
  · subst at_ref
    obtain ⟨_, out_eq, _⟩ := h
    change ((m.tasks.set ref _).get ref).out = _ at out_eq
    rw [Arena.get_set, if_pos rfl] at out_eq
    exact ⟨by simp, out_eq, tells⟩
  · refine h.of_same (fun _ _ => rfl) (fun other same => ?_) rfl fun _ => rfl
    change (m.tasks.set ref _).get other = _
    rw [Arena.get_set, if_neg (by rintro rfl; exact at_ref same)]
    rfl

end Guarded

end Machine

/-- Giving a task its result concerns no channels. -/
theorem channel_finishTask (ref : Ref .task) (result : Result) (m : Machine) (x : Ref .channel) :
    (finishTask ref result m).2.channel x = m.channel x := by
  rw [finishTask_apply]
  rfl

theorem honours_finishTask (own : Ref .channel → Prop) (ref : Ref .task) (result : Result)
    (m : Machine) : m.Honours own (finishTask ref result m).2 := by
  rw [finishTask_apply]
  refine .of_same (fun _ => rfl) (fun has => ⟨has, rfl⟩) id (.of_set rfl rfl rfl ?_)
  cases result <;> exact Phase.noConfusion

/-- A task that is past ending its output gets its result. -/
theorem Machine.Guarded.conclude {own : Ref .channel → Prop} {m m' : Machine} {ref : Ref .task}
    (g : m.Guarded own (some ref)) {given : Result} {result : Option Result}
    (ended : Wordstream.finishTask ref given m = (some result, m')) :
    m'.Guarded own none ∧ m.Honours own m' := by
  have last : (Wordstream.finishTask ref given m).2 = m' := congrArg Prod.snd ended
  rw [← last]
  exact ⟨g.finishTask given, honours_finishTask own ref given m⟩

theorem honours_setProgress (own : Ref .channel → Prop) (ref : Ref .task) (progress : Progress)
    (m : Machine) : m.Honours own (setProgress ref progress m).2 :=
  .of_same (fun _ => rfl) (fun has => ⟨has, rfl⟩) id (.of_eq rfl)

theorem progress_setProgress (ref : Ref .task) (progress : Progress) (m : Machine) :
    ((setProgress ref progress m).2.task ref).progress = progress := by
  change ((m.tasks.set ref _).get ref).progress = _
  rw [Arena.get_set, if_pos rfl]

section Telling

variable {own : Ref .channel → Prop} {engine : Engine} (h : (custody own).Relates engine engine)
  {m m' : Machine} {ref : Ref .task}

/-- While a task is the party of its output, nobody else is. -/
theorem Machine.Guarded.alone (g : m.Guarded own none) (tells : (m.task ref).progress.tells)
    (owned : own (m.task ref).out) (ender : Ender) :
    ¬ m.Ends (some ref) (m.task ref).out ender := fun ends => by
  have mine : m.Ends none (m.task ref).out (.task ref) := ⟨by simp, rfl, tells⟩
  obtain rfl := g.unique owned ends.unpass mine
  exact ends.1 rfl

include h

/-- A task that is the party of its output writes the last signal there. -/
theorem Machine.Guarded.tellOfTask (g : m.Guarded own none) (tells : (m.task ref).progress.tells)
    {signal : Signal} {given : Unit}
    (ended : Wordstream.emit engine (m.task ref).out signal m = (some given, m')) :
    m'.Guarded own (some ref) ∧ m.Honours own m' ∧ (own (m.task ref).out → signal.isTerminal →
      (m'.channel (m.task ref).out).ending = some signal) := by
  obtain ⟨g', honours⟩ := Machine.Guarded.emit h.deliver
    ((g.pass ref).accept fun owned _ _ ender ends => absurd ends (g.alone tells owned ender)) ended
  have written :
      m.Honours own (m.setChannel (m.task ref).out ((m.channel (m.task ref).out).accept signal)) :=
    .accept fun _ _ stage has _ owned same =>
      g.alone tells (same ▸ owned) (.stage stage) ⟨has, same⟩
  refine ⟨g', written.trans honours, fun owned terminal => honours.ending ?_⟩
  have mine : m.Ends none (m.task ref).out (.task ref) := ⟨by simp, rfl, tells⟩
  have before := g.silent owned mine rfl
  rw [Machine.channel_setChannel, if_pos rfl, Channel.ending_accept_of_none before, if_pos terminal]

end Telling

theorem tellOutput_eq (engine : Engine) (out : Ref .channel) (result : Result) :
    tellOutput engine out result = emit engine out (.ofResult result) := by
  cases result <;> rfl

section Starting

variable {own : Ref .channel → Prop} {engine : Engine} (h : (custody own).Relates engine engine)
  (grows : growth.discipline.Relates engine engine) {m m' : Machine} (g : m.Guarded own none)
  (orderly : m.Orderly) {ref : Ref .task} (has : m.tasks.Has ref)
  (tells : (m.task ref).progress.tells)

include h g orderly has tells

/-- A task that works by itself tells its output its result. -/
theorem runOnce_tells {work : Run Machine Unit} (heeds : Heeds own work)
    (growing : growth.Fits work work) {result : Option Result}
    (ended : runOnce engine ref work m = (some result, m')) :
    m'.Guarded own none ∧ m.Honours own m' ∧ ∃ given, (m'.task ref).progress = .finished given ∧
      (own (m.task ref).out → (m'.channel (m.task ref).out).ending = some (.ofResult given)) := by
  obtain ⟨given, m₁, worked, ended⟩ := Effect.of_bind ended
  rw [Effect.get_bind_apply] at ended
  obtain ⟨_, m₂, told, ended⟩ := Effect.of_bind ended
  obtain ⟨g₁, honours⟩ := heeds.ended g worked
  -- Evaluation leaves the task alone, so that it is still the party of its output.
  have same : m₁.task ref = m.task ref := (grows_of_ended growing worked).task_eq orderly has
  rw [tellOutput_eq] at told
  obtain ⟨g₂, honours', ending⟩ := g₁.tellOfTask h (same ▸ tells) told
  obtain ⟨g', silently⟩ := g₂.conclude ended
  refine ⟨g', (honours.trans honours').trans silently, given, (of_finishTask ended).2,
    fun owned => silently.ending ?_⟩
  rw [same] at ending
  exact ending owned (by cases given <;> rfl)

omit h orderly has in
/-- The stage of a task takes the place of the task. -/
theorem Machine.Guarded.addStage (step : Step) :
    (m.addStage ⟨step, (m.task ref).out, none⟩).Guarded own (some ref) := by
  have get_eq (stage : Ref .stage) : (m.addStage ⟨step, (m.task ref).out, none⟩).stages.get stage =
      if stage = m.stages.next then ⟨step, (m.task ref).out, none⟩ else m.stages.get stage :=
    Arena.get_alloc ..
  have ends_of {out : Ref .channel} {ender : Ender}
      (ends : (m.addStage ⟨step, (m.task ref).out, none⟩).Ends (some ref) out ender) :
      m.Ends (some ref) out ender ∨ ender = .stage m.stages.next ∧ out = (m.task ref).out := by
    cases ender with
    | stage stage =>
      obtain ⟨has, out_eq⟩ := ends
      rw [get_eq] at out_eq
      split at out_eq
      · next new => exact .inr ⟨congrArg _ new, out_eq.symm⟩
      · next old => exact .inl ⟨Arena.has_of_alloc has old, out_eq⟩
    | _ => exact .inl ends
  -- The task itself is past that, so the stage is the only party that is left.
  have mine : m.Ends none (m.task ref).out (.task ref) := ⟨by simp, rfl, tells⟩
  refine (g.pass ref).reassign (fun _ => rfl) id (fun has => ⟨has.alloc _, ?_⟩)
    (fun has new => ?_) id
    (g.plumbed.of_same rfl rfl id) fun owned ends => (ends_of ends).imp_right fun new => ?_
  · rw [get_eq, if_neg has.ne_next]
  · rw [get_eq, if_pos (Classical.byContradiction fun old => new (Arena.has_of_alloc has old))]
  · obtain ⟨rfl, rfl⟩ := new
    refine ⟨g.has owned mine, g.silent owned mine rfl, fun other ends' => ?_⟩
    rcases ends_of ends' with old | ⟨rfl, _⟩
    · exact absurd old (g.alone tells owned other)
    · rfl

omit orderly has in
/-- A task with an input waits for its stage, which listens there, or it finds the input taken.
Then its stage listens nowhere, and its output is told nothing. -/
theorem startStage_begins {step : Step} {input : Ref .channel} {result : Option Result}
    (ended : startStage engine ref step input m = (some result, m')) :
    m'.Guarded own none ∧ m.Honours own m' ∧ ∃ stage, m'.stages.Has stage ∧
      (m'.stages.get stage).out = (m.task ref).out ∧
      ((m'.task ref).progress = .waiting stage input ∧
          (m'.channel input).listener? = some (.stage stage) ∨
        (m'.task ref).progress = .finished (.error .alreadySubscribed) ∧
          (m'.channel input).listener?.isSome ∧
          (∀ x, (m'.channel x).listener? ≠ some (.stage stage)) ∧
          (own (m.task ref).out → (m'.channel (m.task ref).out).ending = none)) := by
  rw [startStage_apply] at ended
  obtain ⟨given, m₁, listened, ended⟩ := Effect.of_bind ended
  have made := g.addStage tells step
  have has_stage : (m.addStage ⟨step, (m.task ref).out, none⟩).stages.Has m.stages.next :=
    Arena.has_alloc_next ..
  have stage_eq : (m.addStage ⟨step, (m.task ref).out, none⟩).stages.get m.stages.next =
      ⟨step, (m.task ref).out, none⟩ := by
    change (m.stages.alloc _).get m.stages.next = _
    rw [Arena.get_alloc, if_pos rfl]
  have nowhere (x : Ref .channel) : (m.channel x).listener? ≠ some (.stage m.stages.next) :=
    fun hears => absurd rfl (g.stage hears).ne_next
  rcases of_subscribe listened with ⟨rfl, channel, free, ran⟩ | ⟨rfl, taken, rfl⟩
  · -- The input is free: the stage listens, and is handed what was kept there.
    have attached := made.attach free (fun _ same => by cases same)
      (fun stage same => by
        cases same
        exact ⟨has_stage, by rw [stage_eq], nowhere⟩) fun _ same => by cases same
    obtain ⟨g₁, honours⟩ := attached.deliverFirst h.deliver free ran
    have hears : (((m.addStage ⟨step, (m.task ref).out, none⟩).setChannel input channel).channel
        input).listener? = some (.stage m.stages.next) := by
      rw [Machine.channel_setChannel, if_pos rfl, (Channel.of_attach? free).2]
      rfl
    have before : m.Honours own (m.setChannel input channel) :=
      .attach free fun _ same known => by
        cases same
        exact known.ne_next rfl
    cases ended
    have stage_later := honours.stage has_stage
    change _ ∧ _ = ((m.addStage ⟨step, (m.task ref).out, none⟩).stages.get m.stages.next).out
      at stage_later
    rw [stage_eq] at stage_later
    refine ⟨g₁.setProgress rfl, (before.trans (.addStage own ..)).trans (honours.trans
      (honours_setProgress own ..)), m.stages.next, stage_later.1, stage_later.2,
      .inl ⟨progress_setProgress ref _ m₁, honours.listener hears⟩⟩
  · -- The input is taken: the stage was made in vain and will never listen anywhere.
    obtain ⟨g', silently⟩ := made.conclude ended
    have stage_later := silently.stage has_stage
    rw [stage_eq] at stage_later
    have last : (finishTask ref (.error .alreadySubscribed)
        (m.addStage ⟨step, (m.task ref).out, none⟩)).2 = m' := congrArg Prod.snd ended
    refine ⟨g', (Machine.Honours.addStage own ..).trans silently, m.stages.next, stage_later.1,
      stage_later.2, .inr ⟨(of_finishTask ended).2, ?_,
      fun x hears => nowhere x (silently.attached has_stage hears), fun owned => ?_⟩⟩
    · rw [← last, channel_finishTask]
      exact taken
    · have mine : m.Ends none (m.task ref).out (.task ref) := ⟨by simp, rfl, tells⟩
      rw [← last, channel_finishTask]
      exact g.silent owned mine rfl

/-! ### Sources -/

omit g orderly has tells in
theorem Heeds.writeValues (values : List Value) : Heeds own (writeValues engine ref values) := by
  induction values with
  | nil =>
    intro past m result m' g ended
    cases ended
    exact ⟨g, .refl own _⟩
  | cons value rest ih =>
    intro past m result m' g ended
    change (get >>= fun m : Machine => emit engine (m.task ref).out (.next value) >>= fun _ =>
      Wordstream.writeValues engine ref rest) m = _ at ended
    rw [Effect.get_bind_apply] at ended
    exact ((Heeds.emit_next h.deliver _ value).bind fun _ => ih) past m result m' g ended

omit orderly has in
theorem Machine.Guarded.endSource {ending : Ending} {result : Option Result}
    (ended : Wordstream.endSource engine ref ending m = (some result, m')) :
    m'.Guarded own none ∧ m.Honours own m' ∧ m'.Wrote own ref (m.task ref).out ending := by
  -- Both ways to tell how a source ends are the same but for the signal.
  have tell (given : Result)
      (ended : (Wordstream.emit engine (m.task ref).out (.ofResult given) >>= fun _ =>
        Wordstream.finishTask ref given) m = (some result, m')) :
      m'.Guarded own none ∧ m.Honours own m' ∧ m'.Wrote own ref (m.task ref).out ending := by
    obtain ⟨_, m₁, told, ended⟩ := Effect.of_bind ended
    obtain ⟨g₁, honours, ending⟩ := g.tellOfTask h tells told
    obtain ⟨g', silently⟩ := g₁.conclude ended
    exact ⟨g', honours.trans silently, .told (of_finishTask ended).2 fun owned =>
      silently.ending (ending owned (by cases given <;> rfl))⟩
  cases ending with
  | complete => exact tell (.ok ()) ended
  | fail failure => exact tell (.error failure) ended
  | quiet failure =>
    obtain ⟨g', silently⟩ := (g.pass ref).conclude ended
    exact ⟨g', silently, .quiet rfl (of_finishTask ended).2⟩
  | hang =>
    cases ended
    exact ⟨(g.pass ref).setProgress rfl, honours_setProgress own ref _ m,
      .hanging (progress_setProgress ref _ m)⟩

include grows in
/-- A source that writes its next portion pauses behind it, or ends and tells its output how
unless it keeps quiet. -/
theorem Machine.Guarded.continueSource {source : Source} {result : Option Result}
    (ended : Wordstream.continueSource engine ref source m = (some result, m')) :
    m'.Guarded own none ∧ m.Honours own m' ∧
      m'.Wrote own ref (m.task ref).out source.ending := by
  obtain ⟨_, m₁, written, ended⟩ := Effect.of_bind ended
  obtain ⟨g₁, honours⟩ := (Heeds.writeValues h _).ended g written
  have same : m₁.task ref = m.task ref :=
    (grows_of_ended (Modest.writeValues grows ref _) written).task_eq orderly has
  rw [← same] at tells
  cases rest : source.portions.tail with
  | nil =>
    rw [rest] at ended
    obtain ⟨g', honours', wrote⟩ := g₁.endSource h tells ended
    exact ⟨g', honours.trans honours', same ▸ wrote⟩
  | cons portion portions =>
    rw [rest] at ended
    cases ended
    exact ⟨g₁.pause tells (.writing { source with portions := portion :: portions }) true,
      honours.trans (.of_same (fun _ => rfl) (fun has => ⟨has, rfl⟩) id (.of_eq rfl)),
      .pausing (progress_setProgress ref (.writing { source with portions := portion :: portions })
        m₁) rfl⟩

omit orderly has in
/-- A source that has an input hands its output over to that, unless the input is taken. -/
theorem Machine.Guarded.relaySource {source : Source} {input : Ref .channel}
    {result : Option Result}
    (ended : Wordstream.startWork engine ref (.source source) (some input) m = (some result, m')) :
    m'.Guarded own none ∧ m.Honours own m' ∧ ∃ given, (m'.task ref).progress = .finished given ∧
      (given = .ok () → (m'.channel input).listener? = some (.forward (m.task ref).out)) := by
  obtain ⟨_, _, looked, ended⟩ := Effect.of_bind ended
  cases looked
  obtain ⟨given, m₁, listened, ended⟩ := Effect.of_bind ended
  have mine : m.Ends none (m.task ref).out (.task ref) := ⟨by simp, rfl, tells⟩
  obtain ⟨g₁, honours, hears⟩ :=
    (g.pass ref).subscribe h.deliver (.refl own m) (fun channel free => by
    refine ⟨(g.pass ref).attach free (fun out same owned => ?_) (fun _ same => by cases same)
      (fun _ same => by cases same), .attach free fun _ same => by cases same⟩
    cases same
    exact ⟨g.has owned mine, g.silent owned mine rfl, g.alone tells owned⟩) listened
  obtain ⟨g', silently⟩ := g₁.conclude ended
  exact ⟨g', honours.trans silently, given, (of_finishTask ended).2,
    fun ok => silently.listener (hears ok)⟩

end Starting

end Wordstream
