import Wordstream.Library.Toolkit

/-!
# Cursors

Reading moves a cursor forward and not beyond the end of its code, however it ends and whatever is
run meanwhile. All that evaluation does with the cursor of a reader is to look at it and to read
values, and what it runs on the way has a cursor of its own, so this is a matter of taking one
item at a time.

## Main statements

* `MovesByReading.leadsFrom` — what moves a cursor only by reading moves it forward
* `Engine.MovesForward.leadsFrom_readValue` — reading takes at least the next item
* `Executes.calls_le` — reading to the end takes at most one call for each item
* `Executes.executeCode_eq` — running code is reading it to the end
* `Engine.cursor_moves_forward` — all of this of evaluation with some fuel
-/

namespace Wordstream

/-! ## Places -/

namespace Cursor

/-- The place that is a number of items further on. -/
def skip (cursor : Cursor) (count : Nat) : Cursor :=
  ⟨cursor.position + count, cursor.rest.drop count⟩

/-- One place leads to another that is some of the items that follow further on. -/
def LeadsTo (cursor cursor' : Cursor) : Prop :=
  ∃ count ≤ cursor.rest.length, cursor' = cursor.skip count

/-- A cursor is a place in a code: at its start, at its end or between. -/
structure IsIn (cursor : Cursor) (code : Code) : Prop where
  position_le : cursor.position ≤ code.items.length
  rest_eq : cursor.rest = code.items.drop cursor.position

variable {cursor cursor' cursor'' : Cursor} {code : Code}

theorem isIn_start (code : Code) : (start code).IsIn code := ⟨Nat.zero_le _, rfl⟩

theorem LeadsTo.refl (cursor : Cursor) : cursor.LeadsTo cursor := ⟨0, Nat.zero_le _, rfl⟩

theorem LeadsTo.trans (first : cursor.LeadsTo cursor') (second : cursor'.LeadsTo cursor'') :
    cursor.LeadsTo cursor'' := by
  obtain ⟨count, within, rfl⟩ := first
  obtain ⟨count', within', rfl⟩ := second
  dsimp only [skip] at within'
  rw [List.length_drop] at within'
  refine ⟨count + count', by omega, ?_⟩
  rw [skip, skip, skip, Nat.add_assoc, List.drop_drop]

/-- The next item is passed if there is one. -/
theorem leadsTo_forward (more : cursor.rest ≠ []) : cursor.LeadsTo cursor.forward := by
  refine ⟨1, List.length_pos_iff.2 more, ?_⟩
  rw [forward, skip, List.drop_one]

theorem LeadsTo.position_le (leads : cursor.LeadsTo cursor') :
    cursor.position ≤ cursor'.position := by
  obtain ⟨count, -, rfl⟩ := leads
  exact Nat.le_add_right _ _

theorem LeadsTo.length_le (leads : cursor.LeadsTo cursor') :
    cursor'.rest.length ≤ cursor.rest.length := by
  obtain ⟨count, -, rfl⟩ := leads
  rw [skip, List.length_drop]
  exact Nat.sub_le _ _

/-- What is further on is in the same code. -/
theorem LeadsTo.isIn (leads : cursor.LeadsTo cursor') (here : cursor.IsIn code) :
    cursor'.IsIn code := by
  obtain ⟨count, within, rfl⟩ := leads
  have bounded := here.position_le
  rw [here.rest_eq, List.length_drop] at within
  refine ⟨?_, ?_⟩
  · change cursor.position + count ≤ code.items.length
    omega
  · rw [skip, here.rest_eq, List.drop_drop]

/-- The items that follow are those that have not come before. -/
theorem IsIn.length_rest (here : cursor.IsIn code) :
    cursor.position + cursor.rest.length = code.items.length := by
  have bounded := here.position_le
  rw [here.rest_eq, List.length_drop]
  omega

end Cursor

/-! ## Moving by reading -/

/-- Something is done with the cursor of a reader only by looking at it and by reading values.
This is all that the parts of evaluation do, and all that procedures of a host can do. -/
inductive MovesByReading (engine : Engine) : {α : Type} → Run Reader α → Prop where
  | done {α : Type} (value : α) : MovesByReading engine (pure value)
  | fail {α : Type} (failure : Failure) : MovesByReading engine (throw failure : Run Reader α)
  | look : MovesByReading engine (get : Run Reader Reader)
  | onMachine {α : Type} (action : Run Machine α) : MovesByReading engine (onMachine action)
  | read (reading : Reading) : MovesByReading engine (engine.read reading)
  | hostAction (name : String) : MovesByReading engine (engine.hostAction name)
  | hostOperator (name : String) (left right : Value) :
    MovesByReading engine (engine.hostOperator name left right)
  | andThen {α β : Type} {first : Run Reader α} {next : α → Run Reader β} :
    MovesByReading engine first → (∀ value, MovesByReading engine (next value)) →
      MovesByReading engine (first >>= next)
  | attempt {α : Type} {action : Run Reader α} :
    MovesByReading engine action → MovesByReading engine (attempt action)

/-- The procedures and operators of a host move a cursor only by reading from it. -/
structure Host.MovesByReading (host : Host) : Prop where
  action (engine : Engine) (name : String) :
    Wordstream.MovesByReading engine (host.action engine name)
  operator (engine : Engine) (name : String) (left right : Value) :
    Wordstream.MovesByReading engine (host.operator engine name left right)

namespace MovesByReading

variable (engine : Engine)

/-! ### Procedures -/

theorem readArgs (count : Nat) : MovesByReading engine (readArgs engine count) := by
  induction count with
  | zero => exact .done _
  | succ count ih => exact .andThen (.read _) fun _ => .andThen ih fun _ => .done _

theorem defineNative : MovesByReading engine (defineNative engine) :=
  .andThen (.read _) fun _ => .andThen (.onMachine _) fun _ => .andThen (.read _) fun _ =>
    .andThen (.onMachine _) fun _ => .andThen (.onMachine _) fun _ => .onMachine _

theorem defineOperator : MovesByReading engine (defineOperator engine) := by
  refine .andThen (.read _) fun _ => .andThen (.onMachine _) fun _ => .andThen (.read _) fun _ =>
    .andThen (.onMachine _) fun _ => .andThen (.onMachine _) fun arity => ?_
  dsimp only
  split
  · exact .andThen (.fail _) fun _ => .onMachine _
  · exact .onMachine _

theorem defineAsync : MovesByReading engine (defineAsync engine) :=
  .andThen (.read _) fun _ => .andThen (.onMachine _) fun _ => .andThen (.read _) fun _ =>
    .andThen (.onMachine _) fun _ => .andThen (.read _) fun _ => .andThen (.onMachine _) fun _ =>
      .andThen (.onMachine _) fun _ => .onMachine _

theorem performPipe : MovesByReading engine (performPipe engine) := by
  refine .andThen (.read _) fun left => .andThen (.read _) fun right => ?_
  split
  · exact .andThen (.onMachine _) fun _ => .done _
  · exact .fail _

theorem perform (action : Action) : MovesByReading engine (perform engine action) := by
  cases action with
  | defineNative => exact defineNative engine
  | defineOperator => exact defineOperator engine
  | defineAsync => exact defineAsync engine
  | pipe => exact performPipe engine
  | native arity native => exact .andThen (readArgs engine arity) fun _ => .onMachine _
  | async arity mime native => exact .andThen (readArgs engine arity) fun _ => .onMachine _
  | frame ref =>
    exact .andThen .look fun _ => .andThen (readArgs engine _) fun _ => .onMachine _
  | streaming definition => exact .andThen (readArgs engine _) fun _ => .onMachine _
  | emit scene => exact .andThen (.read _) fun _ => .onMachine _
  | host name => exact .hostAction name

theorem operate (left right : Value) (action : OperatorAction) :
    MovesByReading engine (operate engine left right action) := by
  cases action with
  | native native => exact .onMachine _
  | host name => exact .hostOperator name left right

theorem performProcedure (procedure : Procedure) :
    MovesByReading engine (performProcedure engine procedure) := by
  cases procedure with
  | leading _ action => exact perform engine action
  | operator _ action =>
    exact .andThen (.read _) fun left => .andThen (.read _) fun right =>
      operate engine left right action

theorem invoke (value : Value) : MovesByReading engine (invoke engine value) := by
  cases value with
  | procedure procedure => exact performProcedure engine procedure
  | object ref =>
    refine .andThen .look fun reader => ?_
    split
    · exact performProcedure engine _
    · exact .done _
  | _ => exact .done _

/-! ### Items -/

theorem evaluateWord (kind : WordKind) (site : Site) :
    MovesByReading engine (evaluateWord engine kind site) := by
  cases kind with
  | quote => exact .done _
  | get => exact .onMachine site.get
  | set => exact .andThen (.read _) fun _ => .andThen (.onMachine _) fun _ => .done _
  | plain => exact .andThen (.onMachine _) fun value => invoke engine value

theorem evaluatePath (kind : WordKind) (head : Site) (fields : List String) :
    MovesByReading engine (evaluatePath engine kind head fields) := by
  cases kind with
  | quote => exact .done _
  | get => exact .onMachine (project head fields)
  | set => exact .andThen (.read _) fun _ => .andThen (.onMachine _) fun _ => .done _
  | plain => exact .andThen (.onMachine _) fun value => invoke engine value

theorem evaluateItem (item : Item) : MovesByReading engine (evaluateItem engine item) := by
  cases item with
  | word kind symbol slot => exact evaluateWord engine kind _
  | path kind head fields slot => exact evaluatePath engine kind _ fields
  | group bracket id items =>
    cases bracket with
    | square => exact .done _
    | round => exact .onMachine _
  | literal value => exact .done _
  | refinement name => exact .fail _

theorem keepResult (value : Value) : MovesByReading engine (keepResult value) :=
  .andThen (.onMachine _) fun _ => .done _

theorem applyOperator (site : Site) (left : Value) :
    MovesByReading engine (applyOperator engine site left) := by
  refine .andThen (.onMachine _) fun value => ?_
  split
  · exact .andThen (.read _) fun right => operate engine left right _
  · exact .andThen (.read _) fun right => .onMachine _
  · exact .fail _

end MovesByReading

/-! ### Hosts -/

theorem MovesByReading.readRest (engine : Engine) (bound : Nat) :
    MovesByReading engine (readRest engine bound) := by
  induction bound with
  | zero => exact .done _
  | succ bound ih =>
    refine .andThen .look fun reader => ?_
    split
    · exact .done _
    · exact .andThen (.read _) fun _ => .andThen ih fun _ => .done _

theorem movesByReading_toolkit : toolkit.MovesByReading where
  action engine name := by
    change MovesByReading engine (toolkitAction engine name)
    unfold toolkitAction
    split
    · exact .andThen .look fun _ => .done _
    · exact .andThen (.read _) fun _ => .andThen (.read _) fun _ => .andThen .look fun _ => .done _
    · exact .andThen (.read _) fun _ => .done _
    · exact .andThen .look fun _ => .andThen (.readRest engine _) fun _ =>
        .andThen .look fun _ => .done _
    · exact .fail _
  operator engine name left right := by
    change MovesByReading engine (toolkitOperator engine name left right)
    unfold toolkitOperator
    split
    · exact .andThen .look fun _ => .done _
    · exact .onMachine _
    · exact .fail _

/-! ## Moving forward -/

/-- What is done with a reader leaves its cursor at a place to which a given one leads. -/
def LeadsFrom (cursor : Cursor) {α : Type} (action : Run Reader α) (reader : Reader) : Prop :=
  cursor.LeadsTo (action reader).2.cursor

namespace LeadsFrom

variable {α β : Type} {cursor : Cursor} {reader : Reader}

/-- What comes next starts where the cursor was left, unless there was a failure or a stop. -/
theorem andThen {first : Run Reader α} {next : α → Run Reader β}
    (leads : LeadsFrom cursor first reader)
    (onward : ∀ value (reader : Reader), LeadsFrom reader.cursor (next value) reader) :
    LeadsFrom cursor (first >>= next) reader := by
  unfold LeadsFrom at leads ⊢
  rw [Run.bind_apply]
  rcases ran : first reader with ⟨_ | _ | value, middle⟩ <;> rw [ran] at leads
  · exact leads
  · exact leads
  · exact leads.trans (onward value middle)

/-- What depends on the reader starts where the cursor is. -/
theorem look {next : Reader → Run Reader α} (onward : LeadsFrom cursor (next reader) reader) :
    LeadsFrom cursor (get >>= next) reader := onward

end LeadsFrom

/-- The calls of an engine that are given a cursor move it forward. -/
structure Engine.MovesForward (engine : Engine) : Prop where
  read (reading : Reading) (reader : Reader) :
    LeadsFrom reader.cursor (engine.read reading) reader
  hostAction (name : String) (reader : Reader) :
    LeadsFrom reader.cursor (engine.hostAction name) reader
  hostOperator (name : String) (left right : Value) (reader : Reader) :
    LeadsFrom reader.cursor (engine.hostOperator name left right) reader

/-- What moves a cursor only by reading moves it forward, if reading does. -/
theorem MovesByReading.leadsFrom {engine : Engine} (forward : engine.MovesForward) {α : Type}
    {action : Run Reader α} (moves : MovesByReading engine action) (reader : Reader) :
    LeadsFrom reader.cursor action reader := by
  induction moves generalizing reader with
  | done | fail | look | onMachine => exact .refl _
  | read reading => exact forward.read reading reader
  | hostAction name => exact forward.hostAction name reader
  | hostOperator name left right => exact forward.hostOperator name left right reader
  | andThen _ _ leads onward => exact (leads reader).andThen onward
  | attempt _ leads => exact leads reader

namespace Engine.MovesForward

variable {engine : Engine} (forward : engine.MovesForward)

include forward

/-- Taking an item passes it before anything else is done. -/
theorem leadsFrom_fetch {reader : Reader} (more : reader.cursor.rest ≠ []) :
    LeadsFrom reader.cursor.forward (fetch engine) reader := by
  unfold LeadsFrom
  rw [fetch_apply]
  cases rest : reader.cursor.rest with
  | nil => exact absurd rest more
  | cons item tail =>
    exact (MovesByReading.evaluateItem engine item).leadsFrom forward
      ⟨reader.machine, reader.cursor.forward⟩

theorem leadsFrom_readOperand {reader : Reader} (more : reader.cursor.rest ≠ []) :
    LeadsFrom reader.cursor.forward (readOperand engine) reader :=
  (forward.leadsFrom_fetch more).andThen fun _ => MovesByReading.leadsFrom forward
    (.andThen (.onMachine _) fun value => .keepResult engine value)

theorem leadsFrom_readDeferred {reader : Reader} (more : reader.cursor.rest ≠ []) :
    LeadsFrom reader.cursor.forward (readDeferred engine) reader :=
  (forward.leadsFrom_fetch more).andThen fun value =>
    (MovesByReading.keepResult engine value).leadsFrom forward

/-- Applying operators passes each of them and what it reads. -/
theorem leadsFrom_readOperators (bound : List Item) (value : Value) (reader : Reader) :
    LeadsFrom reader.cursor (readOperators engine bound value) reader := by
  induction bound generalizing value reader with
  | nil => exact .refl _
  | cons _ bound ih =>
    refine .look ?_
    split
    · next kind symbol slot tail rest =>
      split
      · -- The operator itself is passed before its operand is read.
        have more : reader.cursor.rest ≠ [] := by
          rw [rest]
          exact List.cons_ne_nil _ _
        have stepped : LeadsFrom reader.cursor Wordstream.step reader := Cursor.leadsTo_forward more
        refine stepped.andThen fun _ reader => ?_
        have applied :=
          (MovesByReading.applyOperator engine ⟨symbol, slot⟩ value).leadsFrom forward reader
        refine applied.andThen fun value reader => ?_
        have resumed := (MovesByReading.onMachine (autoResume value)).leadsFrom forward reader
        refine resumed.andThen fun value reader => ?_
        exact ((MovesByReading.keepResult engine value).leadsFrom forward reader).andThen ih
      · exact .refl _
    · exact .refl _

/-- Reading takes at least the next item. -/
theorem leadsFrom_readValue (reading : Reading) {reader : Reader}
    (more : reader.cursor.rest ≠ []) :
    LeadsFrom reader.cursor.forward (readValue engine reading) reader := by
  cases reading with
  | whole =>
    exact (forward.leadsFrom_readOperand more).andThen fun value reader' =>
      .look (forward.leadsFrom_readOperators _ value reader')
  | operand => exact forward.leadsFrom_readOperand more
  | deferred => exact forward.leadsFrom_readDeferred more

end Engine.MovesForward

namespace Engine

/-- Evaluation with some fuel moves cursors forward. -/
theorem movesForward_ofFuel {host : Host} (hosted : host.MovesByReading) (fuel : Nat) :
    (ofFuel host fuel).MovesForward := by
  induction fuel with
  | zero => exact ⟨fun _ _ => .refl _, fun _ _ => .refl _, fun _ _ _ _ => .refl _⟩
  | succ fuel ih =>
    refine ⟨fun reading reader => ?_, fun name => (hosted.action _ name).leadsFrom ih,
      fun name left right => (hosted.operator _ name left right).leadsFrom ih⟩
    by_cases ended : reader.cursor.rest = []
    · change reader.cursor.LeadsTo (readValue (ofFuel host fuel) reading reader).2.cursor
      rw [readValue_atEnd _ reading ended]
      exact .refl _
    · exact (Cursor.leadsTo_forward ended).trans (ih.leadsFrom_readValue reading ended)

end Engine

/-! ## Nested executions -/

/-- What comes next leaves the cursor where it was left, if it never moves one. -/
theorem cursor_bind {α β : Type} {first : Run Reader α} {next : α → Run Reader β}
    (keeps : ∀ value (reader : Reader), (next value reader).2.cursor = reader.cursor)
    (reader : Reader) : ((first >>= next) reader).2.cursor = (first reader).2.cursor := by
  rw [Run.bind_apply]
  rcases first reader with ⟨_ | _ | value, middle⟩
  · rfl
  · rfl
  · exact keeps value middle

/-- Code that is run while other code is read has a cursor of its own: the outer cursor stays
where it was when the parenthesis, the suspension, the procedure, the function or the receivers of
a value came to their turn. -/
structure Engine.KeepsOuter (engine : Engine) : Prop where
  /-- A parenthesis is one item. -/
  round {reader : Reader} {id : CodeId} {items tail : List Item} :
    reader.cursor.rest = .group .round id items :: tail →
      (readValue engine .deferred reader).2.cursor = reader.cursor.forward
  /-- Resuming a suspension reads no more than leaving it as it is. -/
  resumed (reader : Reader) : (readValue engine .operand reader).2.cursor =
    (readValue engine .deferred reader).2.cursor
  /-- The body of a procedure is run behind the arguments. -/
  frame (ref : Ref .frame) (reader : Reader) : (perform engine (.frame ref) reader).2.cursor =
    (readArgs engine (reader.machine.frames.get ref).arity reader).2.cursor
  /-- A function is called behind its arguments. -/
  native (arity : Nat) (native : Native) (reader : Reader) :
    (perform engine (.native arity native) reader).2.cursor =
      (readArgs engine arity reader).2.cursor
  /-- A function is called as an operator behind its operands. -/
  operator (left right : Value) (native : Native) (reader : Reader) :
    (operate engine left right (.native native) reader).2.cursor = reader.cursor
  /-- A value is handed over behind where it was read. -/
  emit (scene : Ref .scene) (reader : Reader) : (perform engine (.emit scene) reader).2.cursor =
    (engine.read .whole reader).2.cursor

theorem Engine.keepsOuter (engine : Engine) : engine.KeepsOuter := by
  have kept (value : Value) (reader : Reader) :
      (keepResult value reader).2.cursor = reader.cursor := rfl
  have deferred (reader : Reader) :
      (readValue engine .deferred reader).2.cursor = (fetch engine reader).2.cursor :=
    cursor_bind kept reader
  constructor
  case round =>
    intro reader id items tail rest
    rw [deferred, fetch_apply, rest]
    rfl
  case resumed =>
    intro reader
    rw [deferred]
    exact cursor_bind (fun _ => cursor_bind kept) reader
  case frame =>
    intro ref reader
    exact @cursor_bind _ _ (readArgs engine _) (fun args => onMachine (runFrame engine ref args))
      (fun _ _ => rfl) reader
  case native =>
    intro arity native reader
    exact cursor_bind (fun _ _ => rfl) reader
  case operator =>
    intro left right native reader
    rfl
  case emit =>
    intro scene reader
    exact cursor_bind (fun _ _ => rfl) reader

/-! ## Running code -/

/-- Reading values to the end of the code, one call after another for as long as items follow: the
value that was read last, the reader, the number of calls and how this ends. -/
inductive Executes (engine : Engine) :
    Value → Reader → Nat → Option (Except Failure Value) × Reader → Prop where
  | done {last : Value} {reader : Reader} : reader.cursor.atEnd = true →
    Executes engine last reader 0 (some (.ok last), reader)
  | next {last value : Value} {reader middle : Reader} {calls : Nat}
    {outcome : Option (Except Failure Value) × Reader} : reader.cursor.atEnd = false →
    engine.read .whole reader = (some (.ok value), middle) →
    Executes engine value middle calls outcome → Executes engine last reader (calls + 1) outcome
  | failed {last : Value} {reader reader' : Reader} {failure : Failure} :
    reader.cursor.atEnd = false → engine.read .whole reader = (some (.error failure), reader') →
    Executes engine last reader 1 (some (.error failure), reader')
  | stopped {last : Value} {reader reader' : Reader} : reader.cursor.atEnd = false →
    engine.read .whole reader = (none, reader') → Executes engine last reader 1 (none, reader')

/-- A value that is read takes at least one item. -/
def Engine.TakesItems (engine : Engine) : Prop :=
  ∀ (reader reader' : Reader) (value : Value),
    engine.read .whole reader = (some (.ok value), reader') →
      reader'.cursor.rest.length < reader.cursor.rest.length

theorem Cursor.rest_ne_nil {cursor : Cursor} (more : cursor.atEnd = false) : cursor.rest ≠ [] := by
  intro ended
  rw [atEnd, ended] at more
  cases more

/-- Reading to the end takes at most one call for each item that follows. -/
theorem Executes.calls_le {engine : Engine} (takes : engine.TakesItems) {last : Value}
    {reader : Reader} {calls : Nat} {outcome : Option (Except Failure Value) × Reader}
    (run : Executes engine last reader calls outcome) : calls ≤ reader.cursor.rest.length := by
  induction run with
  | done => exact Nat.zero_le _
  | next _ read _ ih => exact Nat.succ_le_of_lt (Nat.lt_of_le_of_lt ih (takes _ _ _ read))
  | failed more | stopped more => exact List.length_pos_iff.2 (Cursor.rest_ne_nil more)

/-- As many calls as are made are enough. -/
theorem Executes.readToEnd_eq {engine : Engine} {last : Value} {reader : Reader} {calls : Nat}
    {outcome : Option (Except Failure Value) × Reader}
    (run : Executes engine last reader calls outcome) {bound : Nat} (enough : calls ≤ bound) :
    readToEnd engine bound last reader = outcome := by
  induction run generalizing bound with
  | done atEnd =>
    cases bound with
    | zero => rfl
    | succ bound => rw [readToEnd_succ, if_pos atEnd]
  | next more read _ ih =>
    obtain ⟨bound, rfl⟩ := Nat.exists_eq_add_of_le' (Nat.le_of_add_left_le enough)
    rw [readToEnd_succ, if_neg (Bool.not_eq_true _ ▸ more), Run.bind_apply, read]
    exact ih (Nat.le_of_succ_le_succ enough)
  | failed more read | stopped more read =>
    obtain ⟨bound, rfl⟩ := Nat.exists_eq_add_of_le' enough
    rw [readToEnd_succ, if_neg (Bool.not_eq_true _ ▸ more), Run.bind_apply, read]

/-- Reading to the end comes to the end, fails or stops, since items are used up. -/
theorem Engine.TakesItems.exists_executes {engine : Engine} (takes : engine.TakesItems)
    (last : Value) (reader : Reader) :
    ∃ calls outcome, Executes engine last reader calls outcome := by
  generalize bounded : reader.cursor.rest.length = bound
  induction bound using Nat.strongRecOn generalizing last reader with
  | ind bound ih =>
    cases more : reader.cursor.atEnd with
    | true => exact ⟨_, _, .done more⟩
    | false =>
      rcases read : engine.read .whole reader with ⟨_ | failure | value, middle⟩
      · exact ⟨_, _, .stopped more read⟩
      · exact ⟨_, _, .failed more read⟩
      · obtain ⟨calls, outcome, run⟩ := ih _ (bounded ▸ takes _ _ _ read) value middle rfl
        exact ⟨_, _, .next more read run⟩

/-- Running a code is reading it to its end from its start. -/
theorem Executes.executeCode_eq {engine : Engine} (takes : engine.TakesItems) {code : Code}
    {m : Machine} {calls : Nat} {outcome : Option (Except Failure Value) × Reader}
    (run : Executes engine .none ⟨m, .start code⟩ calls outcome) :
    executeCode engine code m = (outcome.1, outcome.2.machine) := by
  have ended : readToEnd engine code.items.length .none ⟨m, .start code⟩ = outcome :=
    run.readToEnd_eq (run.calls_le takes)
  rw [executeCode, withCursor_apply, ended]

/-- Evaluation with some fuel takes an item for each value that it reads. -/
theorem Engine.takesItems_ofFuel {host : Host} (hosted : host.MovesByReading) (fuel : Nat) :
    (ofFuel host fuel).TakesItems := by
  intro reader reader' value read
  cases fuel with
  | zero => cases read
  | succ fuel =>
    have more : reader.cursor.rest ≠ [] := by
      intro ended
      cases (readValue_atEnd (ofFuel host fuel) .whole ended).symm.trans read
    have leads := (movesForward_ofFuel hosted fuel).leadsFrom_readValue .whole more
    have ended : readValue (ofFuel host fuel) .whole reader = (some (.ok value), reader') := read
    rw [LeadsFrom, ended] at leads
    have shorter : reader'.cursor.rest.length ≤ reader.cursor.rest.tail.length := leads.length_le
    rw [List.length_tail] at shorter
    have positive := List.length_pos_iff.2 more
    omega

/-! ## Evaluation -/

/-- Cursors only move forward and stay within their code. Each call that reads a value, however it
ends and whatever it runs, leaves the cursor in the code, and behind where it was if an item
followed; at the end of the code it fails without doing anything. What is run meanwhile, be it
what is in parentheses, the body of a procedure or what a function runs, leaves the cursor where
it was when that began. So a code is run with at most one call for each item that follows, and
running it is no more than these calls. -/
theorem Engine.cursor_moves_forward {host : Host} (hosted : host.MovesByReading) (fuel : Nat)
    (code : Code) :
    (∀ reader : Reader, reader.cursor.IsIn code → ∀ reading,
      ((ofFuel host (fuel + 1)).read reading reader).2.cursor.IsIn code ∧
      (reader.cursor.position < code.items.length → reader.cursor.position <
        ((ofFuel host (fuel + 1)).read reading reader).2.cursor.position) ∧
      (reader.cursor.position = code.items.length →
        (ofFuel host (fuel + 1)).read reading reader = (some (.error .exhaustedCode), reader))) ∧
    (ofFuel host fuel).KeepsOuter ∧
    (∀ reader : Reader, reader.cursor.IsIn code → ∀ last,
      (∃ calls outcome, Executes (ofFuel host fuel) last reader calls outcome) ∧
      ∀ calls outcome, Executes (ofFuel host fuel) last reader calls outcome →
        reader.cursor.position + calls ≤ code.items.length) ∧
    ∀ m calls outcome, Executes (ofFuel host fuel) .none ⟨m, .start code⟩ calls outcome →
      (ofFuel host (fuel + 1)).execute code m = (outcome.1, outcome.2.machine) := by
  have takes := takesItems_ofFuel hosted fuel
  refine ⟨fun reader here reading => ⟨?_, fun before => ?_, fun ended => ?_⟩,
    (ofFuel host fuel).keepsOuter,
    fun reader here last => ⟨takes.exists_executes last reader, fun calls outcome run => ?_⟩,
    fun m calls outcome run => ?_⟩
  · exact ((movesForward_ofFuel hosted (fuel + 1)).read reading reader).isIn here
  · have counted := here.length_rest
    have more : reader.cursor.rest ≠ [] := List.length_pos_iff.1 (by omega)
    exact ((movesForward_ofFuel hosted fuel).leadsFrom_readValue reading more).position_le
  · have counted := here.length_rest
    exact readValue_atEnd _ reading (List.length_eq_zero_iff.1 (by omega))
  · have counted := here.length_rest
    have bounded := run.calls_le takes
    omega
  · exact run.executeCode_eq takes

/-- A machine whose root has the procedure `type-of` of the toolkit, which reads a value and
leaves a suspension as it is, and a slot that is bound to the root. -/
def Machine.inspecting : Machine :=
  { Machine.ofConfig .standard with
    dictionaries := ⟨#[.ofList [("type-of", .procedure (.leading 0 (.host "defer")))]]⟩
    slots := #[some (.dictionary ⟨0⟩)] }

/-- The code `type-of (type-of "a") type-of`, whose last word has nothing to read. -/
def inspection : Code :=
  ⟨⟨0⟩, [.word .plain "type-of" ⟨0⟩,
    .group .round ⟨1⟩ [.word .plain "type-of" ⟨0⟩, .literal (.text "a")],
    .word .plain "type-of" ⟨0⟩]⟩

/-- Reading the first value of the code. -/
def inspectionRead : Option (Except Failure Value) × Reader :=
  (Engine.ofFuel toolkit 8).read .whole ⟨.inspecting, .start inspection⟩

/-- The first call passes the parenthesis and the second fails at the end; the items that are in the
parenthesis do not count. -/
theorem Engine.cursor_moves_forward_inspection :
    inspectionRead.1 = some (.ok (.text "string")) ∧ inspectionRead.2.cursor.position = 2 ∧
      ((ofFuel toolkit 8).read .whole inspectionRead.2).1 = some (.error .exhaustedCode) ∧
      ((ofFuel toolkit 8).read .whole inspectionRead.2).2.cursor.position = 3 ∧
      ∃ calls outcome,
        Executes (ofFuel toolkit 7) .none ⟨.inspecting, .start inspection⟩ calls outcome ∧
        calls ≤ 3 ∧
        (ofFuel toolkit 8).execute inspection .inspecting = (outcome.1, outcome.2.machine) := by
  obtain ⟨reads, -, runs, executes⟩ := cursor_moves_forward movesByReading_toolkit 7 inspection
  obtain ⟨here, -⟩ := reads ⟨.inspecting, .start inspection⟩ (Cursor.isIn_start _) .whole
  have there : inspectionRead.2.cursor.position = 2 := by rfl
  obtain ⟨within, beyond, -⟩ := reads inspectionRead.2 here .whole
  have bounded := within.position_le
  rw [there] at beyond
  refine ⟨by rfl, there, by rfl, Nat.le_antisymm bounded (beyond (by decide)), ?_⟩
  obtain ⟨⟨calls, outcome, run⟩, few⟩ :=
    runs ⟨.inspecting, .start inspection⟩ (Cursor.isIn_start _) .none
  have count := few calls outcome run
  exact ⟨calls, outcome, run, Nat.zero_add calls ▸ count, executes _ calls outcome run⟩

end Wordstream
