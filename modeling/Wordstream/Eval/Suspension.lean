import Wordstream.Eval.Channel

/-!
# Resuming and piping suspensions

A suspension is resumed once. That starts nothing yet: it gives a task, which holds the work until
it is polled. Piping joins two suspensions that were not resumed into one.
-/

namespace Wordstream

/-- Hand the work of a suspension to a new task. -/
def Machine.startTask (m : Machine) (ref : Ref .suspension) (work : Work)
    (input : Option (Ref .channel)) : Ref .task × Machine :=
  let suspension := m.suspension ref
  (m.tasks.next, { m with
    suspensions := m.suspensions.set ref { suspension with phase := .resuming, work := none }
    tasks := m.tasks.alloc ⟨ref, suspension.out, .ready work input, ⟨work, input⟩⟩ })

/-- The task of a suspension, with an input or without. -/
def resume (ref : Ref .suspension) (input : Option (Ref .channel)) : Run Machine (Ref .task) := do
  let suspension := (← get).suspension ref
  if suspension.phase ≠ .created then throw .alreadyResumed
  else if input.isSome && !suspension.acceptsInput then throw .missingInputCapability
  else
    match suspension.work with
    | none => throw .alreadyResumed
    | some work => allocate (·.startTask ref work input)

/-- A suspension is resumed if it is new and takes the input; otherwise nothing changes. -/
theorem resume_apply (ref : Ref .suspension) (input : Option (Ref .channel)) (m : Machine) :
    resume ref input m =
      if (m.suspension ref).phase ≠ .created then (some (.error .alreadyResumed), m)
      else if input.isSome && !(m.suspension ref).acceptsInput then
        (some (.error .missingInputCapability), m)
      else
        match (m.suspension ref).work with
        | none => (some (.error .alreadyResumed), m)
        | some work =>
          (some (.ok (m.startTask ref work input).1), (m.startTask ref work input).2) := by
  change (ite _ _ (ite _ _ _) : Run Machine (Ref .task)) m = _
  split
  · rfl
  · split
    · rfl
    · change (match (m.suspension ref).work with
        | none => throw Failure.alreadyResumed
        | some work => allocate (·.startTask ref work input) : Run Machine (Ref .task)) m = _
      cases (m.suspension ref).work <;> rfl

/-- What it means that a suspension is resumed. -/
theorem of_resume {ref : Ref .suspension} {input : Option (Ref .channel)} {task : Ref .task}
    {m m' : Machine} (h : resume ref input m = (some (.ok task), m')) :
    (m.suspension ref).phase = .created ∧ ∃ work, (m.suspension ref).work = some work ∧
      task = m.tasks.next ∧ m' = (m.startTask ref work input).2 := by
  rw [resume_apply] at h
  split at h
  · cases h
  · next created =>
    split at h
    · cases h
    · cases pending : (m.suspension ref).work with
      | none =>
        rw [pending] at h
        cases h
      | some work =>
        rw [pending] at h
        cases h
        exact ⟨Decidable.not_not.1 created, work, rfl, rfl, rfl⟩

/-- A value in use: a suspension is resumed without input, and its task waits to be settled. -/
def autoResume (value : Value) : Run Machine Value := do
  match value with
  | .suspension ref =>
    let task ← resume ref none
    modify fun m => { m with pending := m.pending ++ [task] }
    pure (.task task)
  | value => pure value

/-- Two suspensions as one: the output of the left is relayed to the right. Both must be new, and
the right one must take input. -/
def pipe (engine : Engine) (left right : Ref .suspension) : Run Machine (Ref .suspension) := do
  let m ← get
  let first := m.suspension left
  let second := m.suspension right
  -- Nothing has been done yet when either of these fails.
  if !second.acceptsInput then throw .missingInputCapability
  else if first.phase ≠ .created || second.phase ≠ .created then throw .alreadyResumed
  else
    let relay ← allocate Machine.newChannel
    subscribe engine first.out (.forward relay)
    allocate fun m => m.newSuspension
      ⟨.created, some (.pipe left right relay), second.out, first.acceptsInput, none⟩

/-- New suspensions, the right one of which takes input, are piped together if nobody listens to the
left one; otherwise nothing changes but that there is a channel more. -/
theorem pipe_apply (engine : Engine) (left right : Ref .suspension) (m : Machine) :
    pipe engine left right m =
      if !(m.suspension right).acceptsInput then (some (.error .missingInputCapability), m)
      else if (m.suspension left).phase ≠ .created || (m.suspension right).phase ≠ .created then
        (some (.error .alreadyResumed), m)
      else
        match subscribe engine (m.suspension left).out
            (.forward m.channels.next) m.newChannel.2 with
        | (some (.ok _), m') =>
          (some (.ok m'.suspensions.next),
            (m'.newSuspension ⟨.created, some (.pipe left right m.channels.next),
              (m.suspension right).out, (m.suspension left).acceptsInput, none⟩).2)
        | (some (.error failure), m') => (some (.error failure), m')
        | (none, m') => (none, m') := by
  change (ite _ _ (ite _ _ _) : Run Machine (Ref .suspension)) m = _
  split
  · rfl
  · split
    · rfl
    · change (subscribe engine (m.suspension left).out (.forward m.channels.next) >>= fun _ =>
        allocate fun m' => m'.newSuspension ⟨.created, some (.pipe left right m.channels.next),
          (m.suspension right).out, (m.suspension left).acceptsInput, none⟩ : Run Machine _)
          m.newChannel.2 = _
      rw [Run.bind_apply]
      rcases subscribe engine (m.suspension left).out (.forward m.channels.next) m.newChannel.2 with
        ⟨_ | (_ | _), m'⟩ <;> rfl

/-- Who refuses to pipe suspensions makes a channel at most. -/
theorem of_pipe_refused {engine : Engine} {left right : Ref .suspension} {failure : Failure}
    {m m' : Machine} (h : pipe engine left right m = (some (.error failure), m')) :
    m' = m ∨ m' = m.newChannel.2 := by
  rw [pipe_apply] at h
  split at h
  · cases h
    exact Or.inl rfl
  · split at h
    · cases h
      exact Or.inl rfl
    · rw [subscribe_apply] at h
      cases free : (m.newChannel.2.channel (m.suspension left).out).attach?
          (.forward m.channels.next) with
      | none =>
        rw [free] at h
        cases h
        exact Or.inr rfl
      | some channel =>
        rw [free] at h
        dsimp only at h
        generalize engine.deliver (m.suspension left).out
          (m.newChannel.2.setChannel (m.suspension left).out channel) = handed at h
        obtain ⟨_ | _, _⟩ := handed <;> cases h

/-- A new suspension with an output of its own. -/
def suspend (work : Work) (acceptsInput : Bool) (mime : Option String) : Run Machine Value := do
  let out ← allocate Machine.newChannel
  let ref ← allocate fun m => m.newSuspension ⟨.created, some work, out, acceptsInput, mime⟩
  pure (.suspension ref)

end Wordstream
