import Wordstream.Channel.Basic

/-!
# Suspensions and tasks

A suspension is work that has not started. Resuming it, which is possible once, gives a task; the
work itself starts when the task is first polled. What a task is to do next is kept as data, so that
polling it is an ordinary function.
-/

namespace Wordstream

/-- How a task ended. -/
abbrev Result := Except Failure Unit

/-- How a source ends. -/
inductive Ending where
  /-- Complete the output. -/
  | complete
  /-- Fail the output and the task. -/
  | fail (failure : Failure)
  /-- Fail the task and tell the output nothing. -/
  | quiet (failure : Failure)
  /-- Never end. -/
  | hang
  deriving DecidableEq, Repr

/-- Values to be written to an output in portions, with a pause between each and the next, and how
it ends. -/
structure Source where
  portions : List (List Value)
  ending : Ending

namespace Source

/-- All values of a source, in order. -/
def values (source : Source) : List Value := source.portions.flatten

/-- A source that writes its values without a pause. -/
def steady (values : List Value) (ending : Ending) : Source := ⟨[values], ending⟩

/-- A source that pauses before each value. -/
def ticking (values : List Value) (ending : Ending) : Source := ⟨[] :: values.map ([·]), ending⟩

end Source

/-- What a suspension does when it is resumed and polled. -/
inductive Work where
  /-- Run the body of an activation. -/
  | body (activation : Ref .activation)
  /-- Call a function with arguments. -/
  | call (native : Native) (args : List Value)
  /-- Resume two suspensions, the output of the first being relayed to the second. -/
  | pipe (left right : Ref .suspension) (relay : Ref .channel)
  /-- Write the values of a source. -/
  | source (source : Source)

/-- The life of a suspension. -/
inductive Phase where
  | created
  | resuming
  | completed
  | failed
  deriving DecidableEq, Repr

namespace Phase

/-- The name of a phase. -/
def name : Phase → String
  | created => "Created"
  | resuming => "Resuming"
  | completed => "Completed"
  | failed => "Failed"

/-- The phase in which a result leaves a suspension. -/
def ofResult : Result → Phase
  | .ok _ => completed
  | .error _ => failed

end Phase

/-- Work that is started at most once; its results appear on its output. -/
structure Suspension where
  phase : Phase
  work : Option Work
  out : Ref .channel
  acceptsInput : Bool
  mime : Option String

instance : Inhabited Suspension := ⟨⟨.failed, none, default, false, none⟩⟩

/-- The text of a suspension with all that can be seen of it but its output. -/
def Suspension.debug (suspension : Suspension) : String :=
  let mime := match suspension.mime with
    | some mime => "Some(" ++ Text.quoted mime ++ ")"
    | none => "None"
  "Suspend \x7b state: " ++ suspension.phase.name ++ ", accepts_input: " ++
    (if suspension.acceptsInput then "true" else "false") ++ ", mime: " ++ mime ++ " \x7d"

/-- The text of every task, of which nothing is shown. -/
def TaskState.debug : String := "Task \x7b .. \x7d"

/-- What a stage does for each value of its input. -/
inductive Step where
  | body (activation : Ref .activation)
  | call (native : Native) (args : List Value)

/-- A stage takes the values of an input one by one; it has a result once its input ended or a step
failed. -/
structure Stage where
  step : Step
  out : Ref .channel
  result : Option Result

instance : Inhabited Stage := ⟨⟨.body default, default, none⟩⟩

/-- How far a task has come. -/
inductive Progress where
  /-- Not polled yet. -/
  | ready (work : Work) (input : Option (Ref .channel))
  /-- Waiting for a stage that listens to a channel. -/
  | waiting (stage : Ref .stage) (input : Ref .channel)
  /-- Waiting for two tasks. -/
  | joining (left right : Ref .task)
  /-- Writing the values of a source, after a pause. -/
  | writing (source : Source)
  /-- Never to finish. -/
  | hanging
  /-- Finished. -/
  | finished (result : Result)

/-- What a task is for: its work, and its input if it has one. -/
structure Errand where
  work : Work
  input : Option (Ref .channel)

instance : Inhabited Errand := ⟨⟨.body default, none⟩⟩

/-- A task: the suspension that it came from, its output, how far it has come, and what it is
for. -/
structure TaskState where
  suspension : Ref .suspension
  out : Ref .channel
  progress : Progress
  errand : Errand

instance : Inhabited TaskState := ⟨⟨default, default, .hanging, default⟩⟩

/-- How a task ended, if it has. -/
def TaskState.result? (task : TaskState) : Option Result :=
  match task.progress with
  | .finished result => some result
  | _ => none

end Wordstream
