import Wordstream.Source.Diagnostic

/-!
# Failures

The ways in which evaluation can go wrong, and how each is worded.
-/

namespace Wordstream

/-- Why an evaluation or a task failed. -/
inductive Failure where
  /-- The source text is wrong. -/
  | unreadable (found : Diagnostics)
  /-- A name stands for nothing. -/
  | unboundReference (name : String)
  /-- A value was wanted and the code had ended. -/
  | exhaustedCode
  /-- Something was used as an operator that is none. -/
  | notInvocable (what : String)
  /-- A parameter list has a refinement that it may not have. -/
  | unsupportedParameterKind (name : String)
  /-- A word or a list was used against its rules. -/
  | malformedUse (what : String)
  /-- Input was given to a suspension that takes none. -/
  | missingInputCapability
  /-- The program threw a message. -/
  | thrown (message : String)
  /-- Work of the host failed. -/
  | hostTaskFailure (message : String)
  /-- A value is not of the type that was wanted. -/
  | typeMismatch (what : String)
  /-- A suspension was to be resumed a second time. -/
  | alreadyResumed
  /-- A stream was to get a second listener. -/
  | alreadySubscribed
  /-- Procedure calls are nested too deep. -/
  | callDepthExceeded (limit : Nat)
  /-- A module could not be loaded or stopped. -/
  | module (what : String)
  deriving DecidableEq, Repr

namespace Failure

/-- The name of what kind a failure is. -/
def kind : Failure → String
  | unreadable _ => "syntax"
  | unboundReference _ => "unbound-reference"
  | exhaustedCode => "exhausted-code"
  | notInvocable _ => "not-invocable"
  | unsupportedParameterKind _ => "unsupported-parameter-kind"
  | malformedUse _ => "malformed-use"
  | missingInputCapability => "missing-input-capability"
  | thrown _ => "user-thrown"
  | hostTaskFailure _ => "host-task-failure"
  | typeMismatch _ => "type-mismatch"
  | alreadyResumed => "already-resumed"
  | alreadySubscribed => "already-subscribed"
  | callDepthExceeded _ => "call-depth-exceeded"
  | module _ => "module"

/-- The wording of a failure. -/
def message : Failure → String
  | unreadable found => found.text
  | unboundReference name => s!"unbound reference: {name}"
  | exhaustedCode => "code exhausted: expected another value"
  | notInvocable what => s!"not invocable: {what}"
  | unsupportedParameterKind name => s!"unsupported parameter kind: /{name}"
  | malformedUse what => s!"malformed use: {what}"
  | missingInputCapability => "pipe target does not accept input"
  | thrown message => message
  | hostTaskFailure message => s!"host task failed: {message}"
  | typeMismatch what => s!"type mismatch: {what}"
  | alreadyResumed => "suspend already resumed"
  | alreadySubscribed => "publisher already has a subscriber"
  | callDepthExceeded limit => s!"call depth limit of {limit} exceeded"
  | module what => s!"module error: {what}"

/-- A failure as the failure of a host task, which it may be already. -/
def asHostFailure : Failure → Failure
  | hostTaskFailure message => hostTaskFailure message
  | failure => hostTaskFailure failure.message

end Failure

end Wordstream
