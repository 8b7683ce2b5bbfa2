import Mathlib.Data.List.Basic
import Wordstream.Proofs.Lives

/-!
# The two sides of a pipe

A pipe is made of two suspensions that were not resumed, and resumes both of them when its task is
first driven. In between, anything may happen to either side. The sides are resumed one after the
other and nothing is taken back, so whether they are resumed together depends on what has become
of them: a pipe that finds its left side resumed leaves the right one alone, while one that finds
only its right side resumed, or is a pipe from a suspension to itself, has resumed the left one by
then and fails.

## Main results

* `poll_pipe_cases` — what driving a pipe does to its sides
* `Passage.resumes_together_iff` — when the sides of a pipe are resumed together
-/

namespace Wordstream

/-! ## Making a pipe -/

/-- A suspension is resumed on the way from one machine to another. -/
def Machine.Resumes (m : Machine) (ref : Ref .suspension) (m' : Machine) : Prop :=
  (m.suspension ref).phase = .created ∧ (m'.suspension ref).phase ≠ .created

/-- Two suspensions are both resumed on the way from one machine to another, each in its own
right, or none of them is. -/
def Machine.AllOrNone (m : Machine) (left right : Ref .suspension) (m' : Machine) : Prop :=
  (left ≠ right ∧ m.Resumes left m' ∧ m.Resumes right m') ∨
    (¬ m.Resumes left m' ∧ ¬ m.Resumes right m')

instance (m m' : Machine) (ref : Ref .suspension) : Decidable (m.Resumes ref m') :=
  inferInstanceAs (Decidable (_ ∧ _))

instance (m m' : Machine) (left right : Ref .suspension) : Decidable (m.AllOrNone left right m') :=
  inferInstanceAs (Decidable (_ ∨ _))

/-- The two sides of a pipe, which is a suspension apart: the right one takes input, and so does
the left one if the pipe is fed. -/
structure Machine.Sides (m : Machine) (left right joint : Ref .suspension) (fed : Bool) : Prop where
  hasLeft : m.suspensions.Has left
  hasRight : m.suspensions.Has right
  apartLeft : left ≠ joint
  apartRight : right ≠ joint
  fed : fed → (m.suspension left).acceptsInput
  takes : (m.suspension right).acceptsInput

theorem Machine.Sides.mono {m m' : Machine} {left right joint : Ref .suspension} {fed : Bool}
    (h : m.Sides left right joint fed) (keeps : m.KeepsWork m') :
    m'.Sides left right joint fed := by
  obtain ⟨has_left, _, accepts, _⟩ := keeps left h.hasLeft
  obtain ⟨has_right, _, takes, _⟩ := keeps right h.hasRight
  exact ⟨has_left, has_right, h.apartLeft, h.apartRight, fun given => accepts.trans (h.fed given),
    takes.trans h.takes⟩

/-- A pipe is a new suspension, which is to resume its sides. -/
theorem of_pipe {engine : Engine} (h : growth.discipline.Relates engine engine)
    {left right joint : Ref .suspension} {m m' : Machine}
    (ended : pipe engine left right m = (some (.ok joint), m')) :
    m'.Sides left right joint (m'.suspension joint).acceptsInput ∧ m'.suspensions.Has joint ∧
      ∃ relay, (m'.suspension joint).work = some (.pipe left right relay) := by
  rw [pipe_apply] at ended
  split at ended
  · cases ended
  · next takes =>
    split at ended
    · cases ended
    · next created =>
      simp only [ne_eq, Bool.or_eq_true, decide_eq_true_eq, not_or, Decidable.not_not] at created
      rcases subscribed : subscribe engine (m.suspension left).out (.forward m.channels.next)
        m.newChannel.2 with ⟨_ | _ | _, m₁⟩ <;> rw [subscribed] at ended <;> cases ended
      have channel : m.Grows m.newChannel.2 := .aside rfl rfl
      have grown := channel.trans (grows_of_ended (Modest.subscribe h.deliver _ _) subscribed)
      -- Whatever is handed over when the output is relayed, both sides keep what they are for.
      obtain ⟨has_left, _, accepts, _⟩ := grown.keepsWork left (Machine.has_of_created created.1)
      obtain ⟨has_right, _, takes', _⟩ := grown.keepsWork right (Machine.has_of_created created.2)
      have suspension_eq (ref : Ref .suspension) : (m₁.newSuspension ⟨.created,
          some (.pipe left right m.channels.next), (m.suspension right).out,
          (m.suspension left).acceptsInput, none⟩).2.suspension ref =
          if ref = m₁.suspensions.next then ⟨.created, some (.pipe left right m.channels.next),
            (m.suspension right).out, (m.suspension left).acceptsInput, none⟩
          else m₁.suspension ref := Arena.get_alloc ..
      refine ⟨⟨has_left.alloc _, has_right.alloc _, has_left.ne_next, has_right.ne_next, ?_, ?_⟩,
        Arena.has_alloc_next .., m.channels.next, ?_⟩
      · rw [suspension_eq, if_pos rfl, suspension_eq, if_neg has_left.ne_next, accepts]
        exact id
      · rw [suspension_eq, if_neg has_right.ne_next, takes']
        simpa using takes
      · rw [suspension_eq, if_pos rfl]

/-- Only a suspension that takes input is resumed with one. -/
theorem accepts_of_resume {ref : Ref .suspension} {input : Option (Ref .channel)} {task : Ref .task}
    {m m' : Machine} (ended : resume ref input m = (some (.ok task), m')) (given : input.isSome) :
    (m.suspension ref).acceptsInput := by
  rw [resume_apply] at ended
  split at ended
  · cases ended
  · split at ended
    · cases ended
    · next accepted => simpa [given] using accepted

/-- The task of a pipe that waits to be driven is to resume the two sides. -/
theorem Passage.ready_of_pipe {host : Host} (hosted : growth.discipline.Admits host)
    {m m₁ m₂ m₃ m₄ : Machine} (orderly : m.Orderly) {fuel : Nat}
    {left right joint : Ref .suspension}
    (piped : pipe (.ofFuel host fuel) left right m = (some (.ok joint), m₁))
    (meanwhile : Passage host m₁ m₂) {input : Option (Ref .channel)} {task : Ref .task}
    (resumed : resume joint input m₂ = (some (.ok task), m₃)) (later : Passage host m₃ m₄)
    (ready : (m₄.task task).progress.isReady) :
    m₄.Orderly ∧ m₄.Sides left right joint input.isSome ∧ (m₄.task task).suspension = joint ∧
      ∃ relay, (m₄.task task).progress = .ready (.pipe left right relay) input := by
  have engine := Engine.grows_ofFuel hosted fuel
  have orderly₁ :=
    ((grows_of_ended (Modest.pipe engine.deliver left right) piped).orderly orderly).1
  obtain ⟨sides, has_joint, relay, pending⟩ := of_pipe engine piped
  obtain ⟨orderly₂, bides⟩ := meanwhile.bides hosted orderly₁
  obtain ⟨_, _, accepts, still⟩ := bides.keeps joint has_joint
  have fed : input.isSome → (m₁.suspension joint).acceptsInput := fun given =>
    accepts.symm.trans (accepts_of_resume resumed given)
  obtain ⟨created, work, given, rfl, rfl⟩ := of_resume resumed
  -- The pipe was not resumed before, so that its work is what it was made for.
  obtain rfl : work = .pipe left right relay :=
    Option.some.inj (given.symm.trans ((still created).2.trans pending))
  have grows : m₂.Grows (m₂.startTask joint (.pipe left right relay) input).2 :=
    .resume input created given
  have orderly₃ := (grows.orderly orderly₂).1
  have task_eq : (m₂.startTask joint (.pipe left right relay) input).2.task m₂.tasks.next =
      ⟨joint, (m₂.suspension joint).out, .ready (.pipe left right relay) input,
        ⟨.pipe left right relay, input⟩⟩ := by
    change (m₂.tasks.alloc _).get m₂.tasks.next = _
    rw [Arena.get_alloc, if_pos rfl]
  obtain ⟨orderly₄, bides'⟩ := later.bides hosted orderly₃
  have same := (bides'.same (Arena.has_alloc_next ..) ready).trans task_eq
  have sides₄ := ((sides.mono bides.keeps).mono grows.keepsWork).mono bides'.keeps
  refine ⟨orderly₄, ⟨sides₄.hasLeft, sides₄.hasRight, sides₄.apartLeft,
    sides₄.apartRight, fun given => sides₄.fed (fed given), sides₄.takes⟩, ?_, relay, ?_⟩
  · rw [same]
  · rw [same]

/-! ## Driving a pipe -/

/-- A task that finishes concerns its own suspension only. -/
theorem suspension_finishTask {m : Machine} {task : Ref .task} {other : Ref .suspension}
    (apart : other ≠ (m.task task).suspension) (result : Result) :
    (finishTask task result m).2.suspension other = m.suspension other := by
  rw [finishTask_apply]
  change (m.suspensions.set _ _).get other = _
  rw [Arena.get_set, if_neg apart]
  rfl

theorem suspension_startTask (m : Machine) (ref : Ref .suspension) (work : Work)
    (input : Option (Ref .channel)) (other : Ref .suspension) :
    (m.startTask ref work input).2.suspension other =
      if other = ref then { m.suspension ref with phase := .resuming, work := none }
      else m.suspension other := Arena.get_set ..

/-- What polling does when a task has been started takes suspensions further. -/
theorem follows_goOn {engine : Engine} (h : growth.discipline.Relates engine engine) {fuel : Nat}
    {task : Ref .task} {given result : Option Result} {m m' : Machine} (orderly : m.Orderly)
    (ended : goOn (poll engine fuel task) task given m = (some result, m')) : m.Follows m' := by
  have polled (ended : poll engine fuel task m = (some result, m')) : m.Follows m' := by
    obtain ⟨⟨_, advances⟩, _, _⟩ := polled_poll h fuel orderly ended
    exact (advances.outcome h orderly).2.1
  cases given with
  | some given =>
    cases ended
    exact .refl m
  | none =>
    rw [goOn, Effect.get_bind_apply] at ended
    cases now : (m.task task).progress with
    | waiting | joining =>
      rw [now] at ended
      exact polled ended
    | _ =>
      rw [now] at ended
      cases ended
      exact .refl m

section Driving

variable {engine : Engine} {m m' : Machine} {left right joint : Ref .suspension}
  {relay : Ref .channel}
  {input : Option (Ref .channel)} {task : Ref .task} {fuel : Nat} {result : Option Result}

/-- Driving a pipe is to start it, and to finish it if that fails and go on from there if not. -/
theorem poll_of_pipe (ready : (m.task task).progress = .ready (.pipe left right relay) input)
    (ended : poll engine fuel task m = (some result, m')) :
    (∃ failure m₁, startPipe left right relay input m = (some (.error failure), m₁) ∧
        result = some (.error failure) ∧ m' = (finishTask task (.error failure) m₁).2) ∨
      ∃ progress m₁ fuel, startPipe left right relay input m = (some (.ok progress), m₁) ∧
        startWork engine task (.pipe left right relay) input m =
          (some none, (setProgress task progress m₁).2) ∧
        goOn (poll engine fuel task) task none (setProgress task progress m₁).2 =
          (some result, m') := by
  cases fuel with
  | zero => cases ended
  | succ fuel =>
    rw [poll_of_ready engine fuel ready] at ended
    obtain ⟨given, m₁, begun, ended⟩ := Effect.of_bind ended
    obtain ⟨given', m₂, started, concluded⟩ := Effect.of_bind begun
    cases given' with
    | error failure =>
      change finishTask task (.error failure) m₂ = _ at concluded
      have same := congrArg Prod.snd concluded
      obtain ⟨rfl, _⟩ := of_finishTask concluded
      cases ended
      exact .inl ⟨failure, m₂, started, rfl, same.symm⟩
    | ok progress =>
      cases concluded
      exact .inr ⟨progress, m₂, fuel, started, begun, ended⟩

/-- A pipe that is started has resumed two suspensions. -/
theorem startPipe_resumes {progress : Progress}
    (started : startPipe left right relay input m = (some (.ok progress), m')) :
    left ≠ right ∧ (m.suspension left).phase = .created ∧ (m.suspension right).phase = .created ∧
      (m'.suspension left).phase = .resuming ∧ (m'.suspension right).phase = .resuming := by
  obtain ⟨_, given, _⟩ | ⟨_, m₁, resumed, ⟨_, given, _⟩ | ⟨_, _, resumed'⟩⟩ :=
    startPipe_cases started
  · cases given
  · cases given
  · obtain ⟨created, work, _, -, rfl⟩ := of_resume resumed
    obtain ⟨created', work', _, -, rfl⟩ := of_resume resumed'
    have apart : left ≠ right := by
      rintro rfl
      rw [suspension_startTask, if_pos rfl] at created'
      cases created'
    rw [suspension_startTask, if_neg apart.symm] at created'
    refine ⟨apart, created, created', ?_, ?_⟩
    · rw [suspension_startTask, if_neg apart, suspension_startTask, if_pos rfl]
    · rw [suspension_startTask, if_pos rfl]

variable (orderly : m.Orderly) (sides : m.Sides left right joint input.isSome)

include orderly sides

/-- A pipe that is not started has come too late: for its left side, so that it has done nothing,
or for its right side, so that it has resumed the left one. -/
theorem startPipe_refused {failure : Failure}
    (refused : startPipe left right relay input m = (some (.error failure), m')) :
    failure = .alreadyResumed ∧ (((m.suspension left).phase ≠ .created ∧ m' = m) ∨
      ((m.suspension left).phase = .created ∧ m.Grows m' ∧ (m'.suspension left).phase = .resuming ∧
        (left ≠ right → (m.suspension right).phase ≠ .created ∧
          m'.suspension right = m.suspension right))) := by
  obtain ⟨_, given, refused⟩ | ⟨_, m₁, resumed, ⟨_, given, refused⟩ | ⟨_, given, _⟩⟩ :=
    startPipe_cases refused
  · cases given
    obtain ⟨rfl, rfl, late⟩ := of_resume_refused orderly sides.fed refused
    exact ⟨rfl, .inl ⟨late, rfl⟩⟩
  · cases given
    obtain ⟨created, work, pending, -, rfl⟩ := of_resume resumed
    have grows : m.Grows (m.startTask left work input).2 := .resume input created pending
    obtain ⟨rfl, rfl, late⟩ := of_resume_refused (grows.orderly orderly).1
      (fun _ => (sides.mono grows.keepsWork).takes) refused
    refine ⟨rfl, .inr ⟨created, grows, ?_, fun apart => ?_⟩⟩
    · rw [suspension_startTask, if_pos rfl]
    · rw [suspension_startTask, if_neg apart.symm] at late ⊢
      exact ⟨late, rfl⟩
  · cases given

/-- Driving a pipe leaves both sides alone if the left one was resumed, resumes just that one if
the right one was, and resumes both otherwise. -/
theorem poll_pipe_cases (h : growth.discipline.Relates engine engine)
    (origin : (m.task task).suspension = joint)
    (ready : (m.task task).progress = .ready (.pipe left right relay) input)
    (ended : poll engine fuel task m = (some result, m')) :
    ((m.suspension left).phase ≠ .created ∧ m'.suspension left = m.suspension left ∧
        m'.suspension right = m.suspension right) ∨
      ((m.suspension left).phase = .created ∧ (m'.suspension left).phase = .resuming ∧
        (left ≠ right → (m.suspension right).phase ≠ .created ∧
          m'.suspension right = m.suspension right) ∧ result = some (.error .alreadyResumed)) ∨
      (left ≠ right ∧ m.Resumes left m' ∧ m.Resumes right m') := by
  have has : m.tasks.Has task := Machine.has_of_progress (by simp [ready])
  rcases poll_of_pipe ready ended with
    ⟨failure, m₁, refused, rfl, rfl⟩ | ⟨progress, m₁, fuel, started, begun, further⟩
  · obtain ⟨rfl, ⟨late, rfl⟩ | ⟨created, grows, resuming, late⟩⟩ :=
      startPipe_refused orderly sides refused
    · exact .inl ⟨late, suspension_finishTask (origin ▸ sides.apartLeft) _,
        suspension_finishTask (origin ▸ sides.apartRight) _⟩
    · -- The task of the pipe finishes, which is a matter of the pipe itself.
      have origin' : (m₁.task task).suspension = joint := by
        rw [((grows.orderly orderly).2.2 task has).2, origin]
      rw [suspension_finishTask (origin' ▸ sides.apartLeft),
        suspension_finishTask (origin' ▸ sides.apartRight)]
      exact .inr (.inl ⟨created, resuming, late, rfl⟩)
  · obtain ⟨apart, created, created', resuming, resuming'⟩ := startPipe_resumes started
    have attends := attends_startPipe orderly has (by rw [ready]; rfl) begun
    have follows := follows_goOn h attends.orderly further
    -- Both sides are being resumed when the pipe has been started, and nothing leads back from
    -- there.
    have later {side : Ref .suspension} (has : m.suspensions.Has side)
        (resuming : (m₁.suspension side).phase = .resuming) :
        (m'.suspension side).phase ≠ .created :=
      (follows.leads (attends.follows.suspension has)).ne_created fun created => by
        cases resuming.symm.trans created
    exact .inr (.inr ⟨apart, ⟨created, later sides.hasLeft resuming⟩,
      created', later sides.hasRight resuming'⟩)

end Driving

/-! ## Resuming together -/

/-- When the task of a pipe is first driven, whatever has happened since the pipe was made, both
sides are resumed or none, exactly if they are two and the right one was not resumed without the
left one. If it was, the left side is being resumed all the same, and the task has failed. -/
theorem Passage.resumes_together_iff {host : Host} (hosted : growth.discipline.Admits host)
    {start m m₁ m₂ m₃ m₄ m₅ : Machine} (untouched : start.Untouched) (before : Passage host start m)
    {fuel : Nat} {left right joint : Ref .suspension}
    (piped : pipe (.ofFuel host fuel) left right m = (some (.ok joint), m₁))
    (meanwhile : Passage host m₁ m₂) {input : Option (Ref .channel)} {task : Ref .task}
    (resumed : resume joint input m₂ = (some (.ok task), m₃)) (later : Passage host m₃ m₄)
    (ready : (m₄.task task).progress.isReady) {bound fuel' : Nat} {result : Option Result}
    (driven : poll (.ofFuel host fuel') bound task m₄ = (some result, m₅)) :
    (m₄.AllOrNone left right m₅ ↔ ((m₄.suspension left).phase = .created →
      left ≠ right ∧ (m₄.suspension right).phase = .created)) ∧
    (¬ m₄.AllOrNone left right m₅ →
      m₄.Resumes left m₅ ∧ (m₅.suspension left).phase = .resuming ∧
        result = some (.error .alreadyResumed)) := by
  obtain ⟨orderly, sides, origin, relay, progress⟩ := ready_of_pipe hosted
    (before.bides hosted untouched.orderly).1 piped meanwhile resumed later ready
  rcases poll_pipe_cases orderly sides (Engine.grows_ofFuel hosted fuel') origin progress driven
    with ⟨late, same, same'⟩ | ⟨created, resuming, late, rfl⟩ | ⟨apart, one, other⟩
  · have none : m₄.AllOrNone left right m₅ :=
      .inr ⟨fun resumes => late resumes.1, fun resumes => resumes.2 (same' ▸ resumes.1)⟩
    exact ⟨iff_of_true none fun created => absurd created late, fun broken => absurd none broken⟩
  · have resumes : m₄.Resumes left m₅ := ⟨created, by rw [resuming]; nofun⟩
    have broken : ¬ m₄.AllOrNone left right m₅ := by
      rintro (⟨apart, _, other⟩ | ⟨unresumed, _⟩)
      · exact (late apart).1 other.1
      · exact unresumed resumes
    refine ⟨iff_of_false broken fun given => ?_, fun _ => ⟨resumes, resuming, rfl⟩⟩
    obtain ⟨apart, created'⟩ := given created
    exact (late apart).1 created'
  · have both : m₄.AllOrNone left right m₅ := .inl ⟨apart, one, other⟩
    exact ⟨iff_of_true both fun _ => ⟨apart, other.1⟩, fun broken => absurd both broken⟩

/-- Two sources, the second of which takes input. -/
def Machine.twoSources : Machine :=
  (suspend (.source (.steady [.none] .complete)) true none
    (suspend (.source (.steady [.none] .complete)) false none .stocked).2).2

/-- A pipe from one source to the other. -/
def Machine.joined : Option (Except Failure (Ref .suspension)) × Machine :=
  pipe (.ofFuel .none 5) ⟨0⟩ ⟨1⟩ Machine.twoSources

/-- The right source is resumed if somebody comes first, -/
def Machine.overtaken (first : Bool) : Machine :=
  if first then (resume ⟨1⟩ none Machine.joined.2).2 else Machine.joined.2

/-- and then the pipe is. -/
def Machine.joinedTask (first : Bool) : Option (Except Failure (Ref .task)) × Machine :=
  resume ⟨2⟩ none (Machine.overtaken first)

/-- The task of the pipe is driven. -/
def Machine.joinedEnd (first : Bool) (task : Ref .task) : Option (Option Result) × Machine :=
  poll (.ofFuel .none 5) 5 task (Machine.joinedTask first).2

/-- A pipe whose right side was resumed in the meantime resumes its left side and fails. -/
theorem overtaken_pipe_resumes_left :
    (Machine.joinedTask true).1 = some (.ok ⟨1⟩) ∧
      ((Machine.joinedTask true).2.task ⟨1⟩).progress.isReady ∧
      (Machine.joinedEnd true ⟨1⟩).1 = some (some (.error .alreadyResumed)) ∧
      ((Machine.joinedTask true).2.suspension ⟨0⟩).phase = .created ∧
      ((Machine.joinedEnd true ⟨1⟩).2.suspension ⟨0⟩).phase = .resuming ∧
      ¬ (Machine.joinedTask true).2.AllOrNone ⟨0⟩ ⟨1⟩ (Machine.joinedEnd true ⟨1⟩).2 := by
  decide +kernel

/-- If nobody has come first, both sides are resumed. -/
theorem Passage.resumes_together_of_joined :
    (Machine.joinedEnd false ⟨0⟩).1.isSome ∧ (Machine.joinedTask false).2.AllOrNone ⟨0⟩ ⟨1⟩
      (Machine.joinedEnd false ⟨0⟩).2 := by
  have ends : (Machine.joinedEnd false ⟨0⟩).1.isSome := by decide +kernel
  obtain ⟨result, given⟩ := Option.isSome_iff_exists.1 ends
  have before : Passage .none .stocked Machine.twoSources :=
    (Passage.refl.grow (grows_suspend _ _ _ _)).grow (grows_suspend _ _ _ _)
  have piped : Machine.joined = (some (.ok ⟨2⟩), Machine.joined.2) :=
    Prod.ext (by decide +kernel) rfl
  have resumed : Machine.joinedTask false = (some (.ok ⟨0⟩), (Machine.joinedTask false).2) :=
    Prod.ext (by decide +kernel) rfl
  have driven : Machine.joinedEnd false ⟨0⟩ = (some result, (Machine.joinedEnd false ⟨0⟩).2) :=
    Prod.ext given rfl
  have together :=
    Passage.resumes_together_iff (Discipline.admits_none _) Machine.untouched_stocked before
    piped .refl resumed .refl (by decide +kernel) driven
  exact ⟨ends, together.1.2 (by decide +kernel)⟩

end Wordstream
