import Wordstream.Proofs.Halting

/-!
# Where evaluation comes to an end

Only calls of procedures with frames are held against the limit on calls. The branches of a choice
and the parts of a module are blocks that run without a call, and nothing bounds how deep these
are nested within each other. So an evaluation can go on forever, and what makes it do so is told
here: with a limit on these blocks too, every evaluation comes to an end, and an evaluation comes
to an end by itself just if such a limit makes no difference to it.

The proof is an induction on how many blocks may still be run, how many calls may still be entered,
and how much of the code is left.

## Main results

* `Able.all` — with a limit on blocks every evaluation comes to an end
* `Rested.evaluation_ends_iff` — an evaluation that such a limit does not change comes to an end
-/

namespace Wordstream

/-! ## A limit on blocks -/

/-- Whether a function runs the blocks that it is given. -/
def Native.runsBlocks (native : Native) : Bool :=
  match native.operation with
  | .core .either | .core .module => true
  | _ => false

/-- Fail where a computation has no end, as if it had not begun. -/
def orFail {α : Type} (failure : Failure) (action : Run Machine α) : Run Machine α :=
  fun m => match action m with
    | (some result, m') => (some result, m')
    | (none, _) => (some (.error failure), m)

namespace Engine

/-- The calls that some fuel allows if at most `limit` blocks that run without a call may be
nested within each other. More of them fail as calls that are nested too deep do, and so does the
showing of a value that has no end. -/
def limited : (limit fuel : Nat) → Engine
  | _, 0 => exhausted
  | limit, fuel + 1 =>
    { step .none (limited limit fuel) with
      call := fun native args =>
        if native.runsBlocks then
          match limit with
          | 0 => throw (.callDepthExceeded 0)
          | limit + 1 => callNative .none (limited limit fuel) native args
        else orFail (.callDepthExceeded 0) (callNative .none exhausted native args) }

section Call

variable {native : Native} (limit fuel : Nat) (args : List Value)

theorem limited_call_of_not_runsBlocks (plain : ¬ native.runsBlocks) :
    (limited limit (fuel + 1)).call native args =
      orFail (.callDepthExceeded 0) (callNative .none exhausted native args) := if_neg plain

theorem limited_zero_call (runs : native.runsBlocks) :
    (limited 0 (fuel + 1)).call native args = throw (.callDepthExceeded 0) := if_pos runs

theorem limited_succ_call (runs : native.runsBlocks) :
    (limited (limit + 1) (fuel + 1)).call native args =
      callNative .none (limited limit fuel) native args := if_pos runs

end Call

end Engine

open Item (weigh)

/-! ## Evaluation with a limit -/

/-- With a limit on blocks and room for calls, so much is read without running on forever. -/
structure Able (limit room most : Nat) : Prop where
  call (native : Native) (args : List Value) {m : Machine} (level : m.Level room) :
    Halts (fun fuel => (Engine.limited limit fuel).call native args) m 0
  frame (ref : Ref .frame) (args : List Value) {m : Machine} (level : m.Level room) :
    Halts (fun fuel => runFrame (.limited limit fuel) ref args) m 0
  read (reading : Reading) {reader : Reader} (level : reader.machine.Level room)
    (few : weigh reader.cursor.rest ≤ most) :
    Halts (fun fuel => (Engine.limited limit fuel).read reading) reader most
  execute (code : Code) {m : Machine} (level : m.Level room) (few : weigh code.items ≤ most) :
    Halts (fun fuel => (Engine.limited limit fuel).execute code) m 0

namespace Able

variable {limit room most : Nat}

section Walk

variable (h : Able limit room most) {reader : Reader} (level : reader.machine.Level room)
  (few : weigh reader.cursor.rest ≤ most)

include h level few

theorem readArgs (count : Nat) :
    Halts (fun fuel => readArgs (.limited limit fuel) count) reader most := by
  induction count generalizing reader with
  | zero => exact .done few _
  | succ count ih =>
    refine .andThen level (h.read .whole level few) fun value reader level few => ?_
    refine .andThen level (ih level few) fun values reader level few => ?_
    exact .done few _

/-- Reading a value that has to be of some kind, and going on with it. -/
theorem readExpected {α β : Type} {expect : Value → Run Machine α} {next : Nat → α → Run Reader β}
    (total : ∀ value, Total (expect value)) (confined : ∀ value, Confined (expect value))
    (after : ∀ result {reader : Reader}, reader.machine.Level room →
      weigh reader.cursor.rest ≤ most → Halts (fun fuel => next fuel result) reader most) :
    Halts (fun fuel => do
      let value ← (Engine.limited limit fuel).read .whole
      let result ← onMachine (expect value)
      next fuel result) reader most := by
  refine .andThen level (h.read .whole level few) fun value reader level few => ?_
  exact .andThen level ((total value).halts_onMachine (confined value) few)
    fun result reader level few => after result level few

theorem defineNative : Halts (fun fuel => defineNative (.limited limit fuel)) reader most := by
  refine h.readExpected level few (Total.expectBlock _)
    (confinement.discipline.allows_expectBlock _) fun params _ level few => ?_
  refine h.readExpected level few (Total.expectNative _)
    (confinement.discipline.allows_expectNative _) fun native _ level few => ?_
  refine .andThen level ((Total.arityOf _ params).halts_onMachine
    (confinement.discipline.allows_arityOf _ params) few) fun arity reader level few => ?_
  exact (Total.allocate _).halts_onMachine (confinement.quiet fun _ => rfl) few

theorem defineOperator : Halts (fun fuel => defineOperator (.limited limit fuel)) reader most := by
  refine h.readExpected level few (Total.expectBlock _)
    (confinement.discipline.allows_expectBlock _) fun params _ level few => ?_
  refine h.readExpected level few (Total.expectNative _)
    (confinement.discipline.allows_expectNative _) fun native _ level few => ?_
  refine .andThen level ((Total.arityOf _ params).halts_onMachine
    (confinement.discipline.allows_arityOf _ params) few) fun arity reader level few => ?_
  split
  · exact .of_unchanged (fun _ => rfl) few
  · exact (Total.allocate _).halts_onMachine (confinement.quiet fun _ => rfl) few

theorem defineAsync : Halts (fun fuel => defineAsync (.limited limit fuel)) reader most := by
  refine h.readExpected level few (Total.expectBlock _)
    (confinement.discipline.allows_expectBlock _) fun params _ level few => ?_
  refine h.readExpected level few (Total.expectText _)
    (confinement.discipline.allows_expectText _) fun mime _ level few => ?_
  refine h.readExpected level few (Total.expectNative _)
    (confinement.discipline.allows_expectNative _) fun native _ level few => ?_
  refine .andThen level ((Total.arityOf _ params).halts_onMachine
    (confinement.discipline.allows_arityOf _ params) few) fun arity reader level few => ?_
  exact (Total.allocate _).halts_onMachine (confinement.quiet fun _ => rfl) few

theorem performPipe : Halts (fun fuel => performPipe (.limited limit fuel)) reader most := by
  refine .andThen level (h.read .deferred level few) fun left reader level few => ?_
  refine .andThen level (h.read .deferred level few) fun right reader level few => ?_
  split
  · refine .andThen level ((halts_pipe (Engine.limited limit) (fun _ _ => rfl) level _ _).onMachine
      few) fun joined reader level few => ?_
    exact .done few _
  · exact .throw few _

theorem callFrame (ref : Ref .frame) :
    Halts (fun fuel => callFrame (.limited limit fuel) ref) reader most := by
  refine .read (.andThen level (h.readArgs level few _) fun args reader level few => ?_)
  exact (h.frame ref args level).onMachine few

theorem callStreaming (definition : StreamDefinition) :
    Halts (fun fuel => callStreaming (.limited limit fuel) definition) reader most := by
  refine .andThen level (h.readArgs level few _) fun args reader level few => ?_
  exact Total.halts_onMachine (fun _ => rfl)
    (confinement.discipline.suspendBody definition args nofun) few

theorem performEmit (scene : Ref .scene) :
    Halts (fun fuel => performEmit (.limited limit fuel) scene) reader most := by
  refine .andThen level (h.read .whole level few) fun value reader level few => ?_
  -- Nobody is on scene, so nothing is written.
  have empty : reader.machine.scenes.get scene = none := level.quiet scene
  have refused : Ends (fun _ => onScene scene "out") reader.machine
      (.error (.malformedUse "out used outside its procedure body")) reader.machine := by
    refine .of_eq fun _ => ?_
    rw [onScene_apply, empty]
    rfl
  exact Halts.onMachine ⟨_, _, refused.andThen_error, .refl _, Nat.le_refl _⟩ few

theorem perform (action : Action) :
    Halts (fun fuel => perform (.limited limit fuel) action) reader most := by
  cases action with
  | defineNative => exact h.defineNative level few
  | defineOperator => exact h.defineOperator level few
  | defineAsync => exact h.defineAsync level few
  | pipe => exact h.performPipe level few
  | native arity native =>
    refine .andThen level (h.readArgs level few _) fun args reader level few => ?_
    exact (h.call native args level).onMachine few
  | async arity mime native =>
    refine .andThen level (h.readArgs level few _) fun args reader level few => ?_
    exact Total.halts_onMachine (fun _ => rfl)
      (confinement.discipline.suspend (.call native args) rfl nofun _ _) few
  | frame ref => exact h.callFrame level few ref
  | streaming definition => exact h.callStreaming level few definition
  | emit scene => exact h.performEmit level few scene
  | host name => exact .of_succ (.throw few _)

theorem operate (left right : Value) (action : OperatorAction) :
    Halts (fun fuel => operate (.limited limit fuel) left right action) reader most := by
  cases action with
  | native native => exact (h.call native _ level).onMachine few
  | host name => exact .of_succ (.throw few _)

theorem performProcedure (procedure : Procedure) :
    Halts (fun fuel => performProcedure (.limited limit fuel) procedure) reader most := by
  cases procedure with
  | leading id action => exact h.perform level few action
  | operator id action =>
    refine .andThen level (h.read .operand level few) fun left reader level few => ?_
    refine .andThen level (h.read .operand level few) fun right reader level few => ?_
    exact h.operate level few left right action

theorem invoke (value : Value) :
    Halts (fun fuel => invoke (.limited limit fuel) value) reader most := by
  cases value with
  | procedure procedure => exact h.performProcedure level few procedure
  | object ref =>
    refine .read ?_
    split
    · exact h.performProcedure level few _
    · exact .done few _
  | _ => exact .done few _

theorem evaluateWord (kind : WordKind) (site : Site) :
    Halts (fun fuel => evaluateWord (.limited limit fuel) kind site) reader most := by
  have got := (Total.siteGet site).halts_onMachine (confinement.discipline.allows_siteGet site) few
  cases kind with
  | quote => exact .done few _
  | get => exact got
  | set =>
    refine .andThen level (h.read .whole level few) fun value reader level few => ?_
    refine .andThen level ((Total.siteSet _ _).halts_onMachine
      (confinement.discipline.allows_siteSet _ _ nofun) few) fun _ reader level few => ?_
    exact .done few _
  | plain => exact .andThen level got fun value reader level few => h.invoke level few value

theorem evaluatePath (kind : WordKind) (head : Site) (fields : List String) :
    Halts (fun fuel => evaluatePath (.limited limit fuel) kind head fields) reader most := by
  have got := (Total.project head fields).halts_onMachine
    (confinement.discipline.allows_project head fields) few
  cases kind with
  | quote => exact .done few _
  | get => exact got
  | set =>
    refine .andThen level (h.read .whole level few) fun value reader level few => ?_
    refine .andThen level ((Total.assignField _ _ _).halts_onMachine
      (confinement.discipline.allows_assignField _ _ _ nofun) few) fun _ reader level few => ?_
    exact .done few _
  | plain => exact .andThen level got fun value reader level few => h.invoke level few value

theorem evaluateItem (item : Item) (light : item.weight ≤ most + 1) :
    Halts (fun fuel => evaluateItem (.limited limit fuel) item) reader most := by
  cases item with
  | word kind symbol slot => exact h.evaluateWord level few kind _
  | path kind head fields slot => exact h.evaluatePath level few kind _ fields
  | group shape id items =>
    cases shape with
    | square => exact .done few _
    | round =>
      have within : weigh items ≤ most := by
        simpa [Item.weight] using light
      exact (h.execute ⟨id, items⟩ level within).onMachine few
  | literal value => exact .done few _
  | refinement name => exact .throw few _

theorem applyOperator (site : Site) (left : Value) :
    Halts (fun fuel => applyOperator (.limited limit fuel) site left) reader most := by
  refine .andThen level ((Total.siteGet site).halts_onMachine
    (confinement.discipline.allows_siteGet site) few) fun operator reader level few => ?_
  split
  · refine .andThen level (h.read .operand level few) fun right reader level few => ?_
    exact h.operate level few left right _
  · refine .andThen level (h.read .operand level few) fun right reader level few => ?_
    exact (h.call _ _ level).onMachine few
  · exact .throw few _

end Walk

/-! Reading takes at least one item, so behind it there is less to be read. -/

section Fetch

variable (h : Able limit room most) {reader : Reader} (level : reader.machine.Level room)
  (few : weigh reader.cursor.rest ≤ most + 1)

include h level few

theorem fetch : Halts (fun fuel => fetch (.limited limit fuel)) reader most := by
  refine .read ?_
  cases waiting : reader.cursor.rest with
  | nil =>
    exact .throw (by simp [HasCode.left, waiting, weigh]) _
  | cons item rest =>
    rw [waiting, weigh] at few
    have pos := item.weight_pos
    have fewer : weigh reader.cursor.forward.rest ≤ most := by
      simp only [Cursor.forward, waiting, List.tail_cons]
      omega
    have light : item.weight ≤ most + 1 := by omega
    exact .step (@evaluateItem _ _ _ h ⟨reader.machine, reader.cursor.forward⟩ level fewer item
      light)

theorem readOperand : Halts (fun fuel => readOperand (.limited limit fuel)) reader most := by
  refine .andThen level (h.fetch level few) fun value reader level few => ?_
  refine .andThen level ((Total.autoResume value).halts_onMachine
    (confinement.enlist value) few) fun value reader level few => ?_
  exact halts_keepResult few value

theorem readDeferred : Halts (fun fuel => readDeferred (.limited limit fuel)) reader most :=
  .andThen level (h.fetch level few) fun value _ _ few => halts_keepResult few value

omit few in
theorem readOperators (few : weigh reader.cursor.rest ≤ most) (bound : List Item) (value : Value) :
    Halts (fun fuel => readOperators (.limited limit fuel) bound value) reader most := by
  induction bound generalizing reader value with
  | nil => exact .done few _
  | cons _ bound ih =>
    refine .read ?_
    cases waiting : reader.cursor.rest with
    | nil => exact .done few _
    | cons item rest =>
      cases item with
      | word kind symbol slot =>
        dsimp only
        split
        · have fewer : weigh (reader.cursor.forward).rest ≤ most := by
            rw [waiting, weigh] at few
            simp only [Cursor.forward, waiting, List.tail_cons]
            omega
          refine .step ?_
          have applied := @applyOperator _ _ _ h ⟨reader.machine, reader.cursor.forward⟩ level fewer
            ⟨symbol, slot⟩ value
          refine .andThen level applied fun value reader level few => ?_
          refine .andThen level ((Total.autoResume value).halts_onMachine
            (confinement.enlist value) few) fun value reader level few => ?_
          refine .andThen level (halts_keepResult few value) fun value reader level few => ?_
          exact ih level few value
        · exact .done few _
      | _ => exact .done few _

theorem readValue (reading : Reading) :
    Halts (fun fuel => readValue (.limited limit fuel) reading) reader most := by
  cases reading with
  | whole =>
    refine .andThen level (h.readOperand level few) fun value reader level few => ?_
    exact .read (h.readOperators level few _ value)
  | operand => exact h.readOperand level few
  | deferred => exact h.readDeferred level few

end Fetch

/-- Where there is nothing to be read, reading fails at once. -/
theorem zero
    (call : ∀ (native : Native) (args : List Value) {m : Machine}, m.Level room →
      Halts (fun fuel => (Engine.limited limit fuel).call native args) m 0)
    (frame : ∀ (ref : Ref .frame) (args : List Value) {m : Machine}, m.Level room →
      Halts (fun fuel => runFrame (.limited limit fuel) ref args) m 0) :
    Able limit room 0 where
  call := call
  frame := frame
  read reading := by
    rintro ⟨m, position, rest⟩ _ few
    obtain rfl : rest = [] := Item.eq_nil_of_weigh few
    refine .of_succ ?_
    cases reading <;> exact .of_unchanged (fun _ => rfl) few
  execute := by
    rintro ⟨id, items⟩ m _ few
    obtain rfl : items = [] := Item.eq_nil_of_weigh few
    exact .of_succ (.of_unchanged (fun _ => rfl) few)

/-- What is able to read so much can read one item more. -/
theorem succ (h : Able limit room most) : Able limit room (most + 1) := by
  have read (reading : Reading) {reader : Reader} (level : reader.machine.Level room)
      (few : weigh reader.cursor.rest ≤ most + 1) :
      Halts (fun fuel => (Engine.limited limit fuel).read reading) reader (most + 1) :=
    .of_succ ((h.readValue level few reading).mono (Nat.le_succ most))
  refine { call := h.call, frame := h.frame, read := read, execute := fun code m level few => ?_ }
  -- On the number of values that may still be read.
  have reads (bound : Nat) (last : Value) {reader : Reader} (level : reader.machine.Level room)
      (few : weigh reader.cursor.rest ≤ most + 1) :
      Halts (fun fuel => readToEnd (.limited limit fuel) bound last) reader (most + 1) := by
    induction bound generalizing last reader with
    | zero => exact .done few _
    | succ bound ih =>
      refine .read ?_
      split
      · exact .done few _
      · exact .andThen level (read .whole level few) fun value _ level few => ih value level few
  have all := @reads code.items.length .none ⟨m, .start code⟩ level few
  exact .of_succ all.withCursor

end Able

/-! ## Calls and blocks -/

section Calls

variable {limit room : Nat} {native : Native} {args : List Value} {m : Machine}

/-- Functions that run no blocks come to an end, if need be by failing. -/
theorem halts_call_of_not_runsBlocks (plain : ¬ native.runsBlocks) :
    Halts (fun fuel => (Engine.limited limit fuel).call native args) m 0 := by
  refine .of_succ ?_
  simp only [Engine.limited_call_of_not_runsBlocks _ _ _ plain]
  have confined : Confined (callNative .none .exhausted native args) :=
    Engine.isConfined_exhausted.relates.callNative (Discipline.admits_none _) native args nofun
  cases ended : callNative .none .exhausted native args m with
  | mk outcome m' =>
    cases outcome with
    | some result =>
      refine ⟨result, m', .of_eq fun _ => ?_, confined.evolves ended, Nat.le_refl _⟩
      rw [orFail, ended]
    | none =>
      refine ⟨.error (.callDepthExceeded 0), m, .of_eq fun _ => ?_, .refl m, Nat.le_refl _⟩
      rw [orFail, ended]

variable
  (execute : ∀ (code : Code) {m : Machine}, m.Level room →
    Halts (fun fuel => (Engine.limited limit fuel).execute code) m 0)
  (level : m.Level room)

include execute level

theorem halts_applyEither (condition ifTrue ifFalse : Value) :
    Halts (fun fuel =>
      CoreFunction.applyEither (.limited limit fuel) condition ifTrue ifFalse) m 0 := by
  unfold CoreFunction.applyEither
  cases if condition.isTruthy then ifTrue else ifFalse with
  | block code => exact execute code level
  | _ => exact .done (Nat.le_refl _) _

theorem halts_executeInto (code : Code) :
    Halts (fun fuel => executeInto (.limited limit fuel) code) m 0 := by
  have evolved : m.Evolves (m.openScope code .empty).2 :=
    .quiet (Machine.footing_of_bearings (m.bearings_openScope code .empty))
  refine .allocate evolved ?_
  exact .andThen (level.evolve evolved) (execute code (level.evolve evolved)) fun _ _ _ few =>
    .done few _

theorem halts_evaluateModule (description body : Code) :
    Halts (fun fuel => evaluateModule (.limited limit fuel) description body) m 0 :=
  .andThen level (halts_executeInto execute level description)
    fun _ _ level _ => halts_executeInto execute level body

/-- Functions that run blocks come to an end if blocks do under a lower limit. -/
theorem halts_call_of_runsBlocks (runs : native.runsBlocks) :
    Halts (fun fuel => (Engine.limited (limit + 1) fuel).call native args) m 0 := by
  refine .of_succ ?_
  simp only [Engine.limited_succ_call _ _ _ runs, callNative]
  unfold Native.runsBlocks at runs
  split at runs
  · next either =>
    rw [either]
    dsimp only [CoreFunction.apply]
    split
    · exact halts_applyEither execute level _ _ _
    · exact .throw (Nat.le_refl _) _
  · next module =>
    rw [module]
    refine .andThen level ((Total.twoArgs _ args).halts
      (confinement.discipline.allows_twoArgs _ args nofun) m) fun pair m level _ => ?_
    refine .andThen level ((Total.blockArg _ pair.1).halts
      (confinement.discipline.allows_blockArg _ pair.1) m) fun description m level _ => ?_
    refine .andThen level ((Total.blockArg _ pair.2).halts
      (confinement.discipline.allows_blockArg _ pair.2) m) fun body m level _ => ?_
    refine .andThen level (halts_evaluateModule execute level description body)
      fun exports m level few => ?_
    exact .done few _
  · cases runs

omit execute level in
/-- A call that there is no room for fails. -/
theorem halts_runFrame_of_full (full : m.config.maxCallDepth ≤ m.depth) (ref : Ref .frame) :
    Halts (fun fuel => runFrame (.limited limit fuel) ref args) m 0 := by
  have refused (fuel : Nat) : runFrame (.limited limit fuel) ref args m =
      (some (.error (.callDepthExceeded m.config.maxCallDepth)), m) := by
    rw [runFrame_apply, if_pos full]
  exact .of_unchanged refused (Nat.le_refl _)

omit level in
/-- A call on a frame comes to an end if blocks do where there is room for one call less. -/
theorem halts_runFrame (level : m.Level (room + 1)) (ref : Ref .frame) :
    Halts (fun fuel => runFrame (.limited limit fuel) ref args) m 0 := by
  by_cases full : m.config.maxCallDepth ≤ m.depth
  · exact halts_runFrame_of_full full ref
  · obtain ⟨result, m', ⟨bound, ended⟩, evolved, _⟩ :=
      execute (m.frames.get ref).body (level.enter ref args)
    have ended (fuel : Nat) (enough : bound ≤ fuel) :
        (Engine.limited limit fuel).execute (m.frames.get ref).body (m.enter ref args) =
          (some result, m') := ended fuel enough
    refine ⟨result, m'.leave, ⟨bound, fun fuel enough => ?_⟩,
      .call ref args (Nat.lt_of_not_le full) evolved, Nat.le_refl _⟩
    refine (runFrame_apply _ _ _ _).trans ?_
    rw [if_neg full, ended fuel enough, whenEnded]

end Calls

/-- Where all functions come to an end, all that is read does, however much room for calls there
is. -/
theorem Able.of_calls {limit : Nat}
    (call : ∀ {room : Nat} (native : Native) (args : List Value) {m : Machine}, m.Level room →
      Halts (fun fuel => (Engine.limited limit fuel).call native args) m 0)
    (room most : Nat) : Able limit room most := by
  induction room generalizing most with
  | zero =>
    induction most with
    | zero => exact .zero call fun ref args _ level => halts_runFrame_of_full level.bounded ref
    | succ most ih => exact ih.succ
  | succ room frames =>
    induction most with
    | zero =>
      refine .zero call fun ref args _ level => halts_runFrame (fun code _ level => ?_) level ref
      exact (frames (weigh code.items)).execute code level (Nat.le_refl _)
    | succ most ih => exact ih.succ

/-- With a limit on blocks and a bound on calls, every evaluation comes to an end. -/
theorem Able.all (limit room most : Nat) : Able limit room most := by
  -- On the blocks that may be run, the calls that may be entered and the items that may be read.
  induction limit generalizing room most with
  | zero =>
    have call {room : Nat} (native : Native) (args : List Value) {m : Machine}
        (_ : m.Level room) : Halts (fun fuel => (Engine.limited 0 fuel).call native args) m 0 := by
      by_cases runs : native.runsBlocks
      · refine .of_succ ?_
        simp only [Engine.limited_zero_call _ _ runs]
        exact .throw (Nat.le_refl _) _
      · exact halts_call_of_not_runsBlocks runs
    exact .of_calls call room most
  | succ limit blocks =>
    have call {room : Nat} (native : Native) (args : List Value) {m : Machine}
        (level : m.Level room) :
        Halts (fun fuel => (Engine.limited (limit + 1) fuel).call native args) m 0 := by
      by_cases runs : native.runsBlocks
      · exact halts_call_of_runsBlocks (fun code _ level =>
          (blocks room (weigh code.items)).execute code level (Nat.le_refl _)) level runs
      · exact halts_call_of_not_runsBlocks runs
    exact .of_calls call room most

/-! ## With a limit and without -/

/-- A function that runs no blocks does the same whatever evaluation does. -/
theorem callNative_of_not_runsBlocks {native : Native} (plain : ¬ native.runsBlocks)
    (engine : Engine) (args : List Value) :
    callNative .none engine native args = callNative .none .exhausted native args := by
  obtain ⟨id, operation⟩ := native
  cases operation with
  | host name => rfl
  | core function =>
    cases function with
    | either | module => exact absurd rfl plain
    | _ => rfl

/-- Failing where there is no end changes nothing where there is one. -/
theorem Extends.orFail {α : Type} (failure : Failure) (action : Run Machine α) :
    Extends action (orFail failure action) := by
  intro m result m' ended
  rw [Wordstream.orFail, ended]

/-- A limit that the fuel does not reach changes nothing. -/
theorem Engine.extends_limited {fuel limit more : Nat} (below : fuel ≤ limit) (h : fuel ≤ more) :
    extension.discipline.Relates (ofFuel .none fuel) (limited limit more) := by
  induction fuel generalizing limit more with
  | zero => exact extends_exhausted _
  | succ fuel ih =>
    obtain ⟨more, rfl⟩ : ∃ rest, more = rest + 1 := ⟨more - 1, by omega⟩
    obtain ⟨limit, rfl⟩ : ∃ rest, limit = rest + 1 := ⟨limit - 1, by omega⟩
    have admits := Discipline.admits_none extension.discipline
    have same : extension.discipline.Relates (ofFuel .none fuel) (limited (limit + 1) more) :=
      ih (by omega) (by omega)
    have stepped := Modest.step same admits
    refine { stepped with call := fun native args _ => ?_ }
    by_cases runs : native.runsBlocks
    · rw [limited_succ_call _ _ _ runs]
      exact (ih (by omega) (by omega)).callNative admits native args nofun
    · rw [limited_call_of_not_runsBlocks _ _ _ runs]
      have same := callNative_of_not_runsBlocks runs (ofFuel .none fuel) args
      change Extends (callNative .none (ofFuel .none fuel) native args) _
      rw [same]
      exact .orFail _ _

/-! ## Between demands -/

/-- The states that a machine is in between the demands that are made on it: a new machine, one that
the host has prepared, and one behind a demand that has come to an end. -/
inductive Rested (host : Host) : Machine → Prop
  | new (config : Config) : Rested host (.ofConfig config)
  | prepare {m m' : Machine} (h : Rested host m) (quiet : m'.footing = m.footing) : Rested host m'
  | demand {m m' : Machine} {α : Type} {answer : α} (h : Rested host m) (demand : Demand α)
      (fuel : Nat) (ended : demand.run (.ofFuel host fuel) fuel m = (some answer, m')) :
      Rested host m'

/-- A host that offers nothing is confined. -/
theorem Host.isConfined_none : Host.none.IsConfined where
  native _ _ _ := confinement.allows_throw _
  action _ _ := confinement.allows_throw _
  operator _ _ _ _ := confinement.allows_throw _

/-- With a limit on blocks, every text comes to an end on a machine in which no streaming body
runs. -/
theorem halts_evaluate (limit : Nat) {m : Machine} (quiet : m.IsQuiet) (text : String) :
    Halts (fun fuel => evaluate (.limited limit fuel) text) m 0 := by
  have level : m.Level m.config.maxCallDepth := ⟨quiet, Nat.le_add_left _ _⟩
  unfold evaluate
  split
  · exact .throw (Nat.le_refl _) _
  · next nodes _ =>
    have evolved : m.Evolves (m.load nodes).2 :=
      .quiet (Machine.footing_of_bearings (m.bearings_load nodes))
    refine .allocate evolved ?_
    exact (Able.all limit _ _).execute _ (level.evolve evolved) (Nat.le_refl _)

namespace Rested

/-- No streaming body runs between demands. -/
theorem isQuiet {host : Host} (hosted : host.IsConfined) {m : Machine} (h : Rested host m) :
    m.IsQuiet := by
  induction h with
  | new config => exact fun _ => rfl
  | prepare _ quiet ih =>
    exact fun scene => ((Machine.Evolves.quiet quiet).scenes_get scene).trans (ih scene)
  | demand _ demand fuel ended ih =>
    rw [← Engine.interrupted_never] at ended
    have confined := demand.confined
      (Engine.isConfined_interrupted hosted (fun _ => false) fuel) fuel
    exact fun scene => ((confined.evolves ended).scenes_get scene).trans (ih scene)

/-- Between demands on a machine with the core library only, every evaluation comes to an end if the
blocks that run without a call may be nested only so deep; and an evaluation comes to an end without
such a limit just if there is one that makes no difference to it. -/
theorem evaluation_ends_iff {m : Machine} (h : Rested .none m) (text : String) :
    (∀ limit, ∃ result m',
      Ends (fun fuel => evaluate (.limited limit fuel) text) m result m') ∧
    ((∃ result m', Ends (fun fuel => evaluate (.ofFuel .none fuel) text) m result m') ↔
      ∃ limit bound, ∀ fuel, bound ≤ fuel →
        evaluate (.limited limit fuel) text m = evaluate (.ofFuel .none fuel) text m) := by
  have limited (limit : Nat) : ∃ result m',
      Ends (fun fuel => evaluate (.limited limit fuel) text) m result m' := by
    obtain ⟨result, m', ended, _⟩ := halts_evaluate limit (h.isQuiet Host.isConfined_none) text
    exact ⟨result, m', ended⟩
  refine ⟨limited, fun ⟨result, m', bound, ended⟩ => ?_, fun ⟨limit, bound, same⟩ => ?_⟩
  · -- The fuel that is enough bounds how deep blocks are nested.
    refine ⟨bound, bound, fun fuel enough => ?_⟩
    have kept := (Engine.extends_limited (Nat.le_refl bound) enough).evaluate text
    exact (kept m _ _ (ended bound (Nat.le_refl bound))).trans (ended fuel enough).symm
  · obtain ⟨result, m', bound', ended⟩ := limited limit
    refine ⟨result, m', max bound bound', fun fuel enough => ?_⟩
    exact (same fuel (by omega)).symm.trans (ended fuel (by omega))

/-- Runaway recursion through calls and blocks: it fails where no call may be entered any more, and
there is a limit on blocks that makes no difference to it. -/
theorem evaluation_ends_iff_of_runaway_recursion :
    let m := installLibrary (.ofConfig { Config.standard with maxCallDepth := 2 })
    let text := "proc: native [params body] :core/proc either: native [c t f] :core/either
      f: proc [] [either :f [f] [f]] f"
    (evaluate (.ofFuel .none 30) text m).1.map Except.toBool = some false ∧
    ∃ limit bound, ∀ fuel, bound ≤ fuel →
      evaluate (.limited limit fuel) text m = evaluate (.ofFuel .none fuel) text m := by
  intro m text
  have failed : (evaluate (.ofFuel .none 30) text m).1.map Except.toBool = some false := by
    decide +kernel
  have rested : Rested .none m :=
    .prepare (.new _) (Machine.footing_of_bearings (Machine.bearings_installLibrary _))
  refine ⟨failed, (evaluation_ends_iff rested text).2.1 ?_⟩
  cases ran : evaluate (.ofFuel .none 30) text m with
  | mk outcome m' =>
    rw [ran] at failed
    cases outcome with
    | none => cases failed
    | some result => exact ⟨result, m', ends_evaluate (Discipline.admits_none _) ran⟩

end Rested

/-! ## A choice without end -/

/-- Whether a site stands for a name of the root dictionary. -/
def Machine.isRootName (m : Machine) (name : String) (site : Site) : Bool :=
  site.symbol = name &&
    match m.binding? site.slot with
    | some (.dictionary ref) => ref = m.root
    | _ => false

/-- Whether items choose between one and the same block, called `a`. -/
def Machine.choosesBlock (m : Machine) : List Item → Bool
  | [.word .plain choice slot, .word .get condition slot₁, .word .get ifTrue slot₂,
      .word .get ifFalse slot₃] =>
    m.isRootName "either" ⟨choice, slot⟩ && m.isRootName "a" ⟨condition, slot₁⟩ &&
      m.isRootName "a" ⟨ifTrue, slot₂⟩ && m.isRootName "a" ⟨ifFalse, slot₃⟩
  | _ => false

/-- Whether the block that is called `a` chooses between itself and itself. -/
def Machine.choosesSelf (m : Machine) : Bool :=
  match m.lookup? "either", m.lookup? "a" with
  | some (.procedure (.leading _ (.native 3 ⟨_, .core .either⟩))), some (.block code) =>
    m.choosesBlock code.items
  | _, _ => false

/-- A site that stands for a name of the root dictionary has the value that is found there. -/
theorem Machine.get_of_isRootName {m : Machine} {name : String} {site : Site} {value : Value}
    (h : m.isRootName name site) (found : m.lookup? name = some value) :
    site.get m = (some (.ok value), m) := by
  obtain ⟨symbol, slot⟩ := site
  simp only [isRootName, Bool.and_eq_true, decide_eq_true_eq] at h
  obtain ⟨rfl, bound⟩ := h
  have binding : m.binding? slot = some (.dictionary m.root) := by
    split at bound
    · next ref to_root => rw [to_root, of_decide_eq_true bound]
    · cases bound
  rw [Site.get, Run.bind_apply, Site.binding_apply, binding]
  dsimp only
  rw [Binding.getDictionary_apply, show (m.dictionary m.root).get? symbol = some value from found]

/-- A name that stands for a block is read as that block. -/
theorem read_name {host : Host} {fuel : Nat} {m : Machine} {symbol : String} {slot : SlotId}
    {code : Code} (got : Site.get ⟨symbol, slot⟩ m = (some (.ok (.block code)), m)) (position : Nat)
    {rest : List Item}
    (behind : rest = [] ∨ ∃ symbol slot tail, rest = .word .get symbol slot :: tail) :
    (Engine.ofFuel host (fuel + 1)).read .whole ⟨m, position, .word .get symbol slot :: rest⟩ =
      (some (.ok (.block code)), ⟨{ m with result := .block code }, position + 1, rest⟩) := by
  let engine := Engine.ofFuel host fuel
  have fetched : fetch engine ⟨m, position, .word .get symbol slot :: rest⟩ =
      (some (.ok (.block code)), ⟨m, position + 1, rest⟩) := by
    change onMachine (Site.get ⟨symbol, slot⟩) ⟨m, position + 1, rest⟩ = _
    rw [onMachine_apply, got]
  have operand : readOperand engine ⟨m, position, .word .get symbol slot :: rest⟩ =
      (some (.ok (.block code)), ⟨{ m with result := .block code }, position + 1, rest⟩) := by
    rw [readOperand, Run.bind_apply, fetched]
    rfl
  change readWhole engine _ = _
  rw [readWhole, Run.bind_apply, operand]
  -- No operator follows.
  obtain rfl | ⟨symbol, slot, tail, rfl⟩ := behind
  · rfl
  · rfl

/-- What stops is not followed by anything. -/
theorem Run.bind_stopped {σ α β : Type} {first : Run σ α} {state : σ}
    (stopped : (first state).1 = none) (next : α → Run σ β) :
    ((first >>= next : Run σ β) state).1 = none := by
  rw [Run.bind_apply]
  cases ran : first state with
  | mk outcome state' =>
    rw [ran] at stopped
    rw [show outcome = none from stopped]

/-- To choose between a block that chooses itself is to run that block with less fuel. -/
theorem read_choice_stops {m : Machine} {fuel : Nat} {id native : Nat} {code : Code}
    (either : m.lookup? "either" =
      some (.procedure (.leading id (.native 3 ⟨native, .core .either⟩))))
    (block : m.lookup? "a" = some (.block code))
    (stops : ((Engine.ofFuel .none fuel).execute code { m with result := .block code }).1 = none)
    {items : List Item} (chooses : m.choosesBlock items) (position : Nat) :
    ((Engine.ofFuel .none (fuel + 2)).read .whole ⟨m, position, items⟩).1 = none := by
  unfold Machine.choosesBlock at chooses
  split at chooses
  case h_2 => cases chooses
  case h_1 choice slot condition slot₁ ifTrue slot₂ ifFalse slot₃ =>
    simp only [Bool.and_eq_true] at chooses
    obtain ⟨⟨⟨at_choice, at_condition⟩, at_true⟩, at_false⟩ := chooses
    let kept : Machine := { m with result := .block code }
    -- Reading the block thrice leaves it as the last result, and nothing else changes.
    have first : (Engine.ofFuel .none (fuel + 1)).read .whole
        ⟨m, position + 1, [.word .get condition slot₁, .word .get ifTrue slot₂,
          .word .get ifFalse slot₃]⟩ =
          (some (.ok (.block code)), ⟨kept, position + 2, [.word .get ifTrue slot₂,
            .word .get ifFalse slot₃]⟩) :=
      read_name (Machine.get_of_isRootName at_condition block) _ (.inr ⟨_, _, _, rfl⟩)
    have second : (Engine.ofFuel .none (fuel + 1)).read .whole
        ⟨kept, position + 2, [.word .get ifTrue slot₂, .word .get ifFalse slot₃]⟩ =
          (some (.ok (.block code)), ⟨kept, position + 3, [.word .get ifFalse slot₃]⟩) :=
      read_name (Machine.get_of_isRootName (m := kept) at_true block) _ (.inr ⟨_, _, _, rfl⟩)
    have third : (Engine.ofFuel .none (fuel + 1)).read .whole
        ⟨kept, position + 3, [.word .get ifFalse slot₃]⟩ =
          (some (.ok (.block code)), ⟨kept, position + 4, []⟩) :=
      read_name (Machine.get_of_isRootName (m := kept) at_false block) _ (.inl rfl)
    have args : readArgs (.ofFuel .none (fuel + 1)) 3 ⟨m, position + 1,
        [.word .get condition slot₁, .word .get ifTrue slot₂, .word .get ifFalse slot₃]⟩ =
          (some (.ok [.block code, .block code, .block code]), ⟨kept, position + 4, []⟩) := by
      simp only [readArgs, Run.bind_apply, first, second, third]
      rfl
    refine Run.bind_stopped (Run.bind_stopped ?_ _) _
    change ((onMachine (Site.get ⟨choice, slot⟩) >>= invoke (.ofFuel .none (fuel + 1)))
      ⟨m, position + 1, [.word .get condition slot₁, .word .get ifTrue slot₂,
        .word .get ifFalse slot₃]⟩).1 = none
    rw [Run.bind_apply, onMachine_apply, Machine.get_of_isRootName at_choice either]
    change ((readArgs (.ofFuel .none (fuel + 1)) 3 >>= fun args =>
      onMachine ((Engine.ofFuel .none (fuel + 1)).call ⟨native, .core .either⟩ args))
        ⟨m, position + 1, [.word .get condition slot₁, .word .get ifTrue slot₂,
          .word .get ifFalse slot₃]⟩).1 = none
    rw [Run.bind_apply, args]
    exact stops

/-- Code of which some values are read, and then one that stops, is not read to its end. -/
theorem readToEnd_stops {fuel : Nat} {reader reader' : Reader} {values : List Value}
    {count bound : Nat} {last : Value}
    (reads : readArgs (.ofFuel .none (fuel + 1)) count reader = (some (.ok values), reader'))
    (stops : ((Engine.ofFuel .none (fuel + 1)).read .whole reader').1 = none)
    (less : count < bound) :
    (readToEnd (.ofFuel .none (fuel + 1)) bound last reader).1 = none := by
  obtain ⟨bound, rfl⟩ : ∃ rest, bound = rest + 1 := ⟨bound - 1, by omega⟩
  -- At the end of the code reading fails, so this is not where a value is read or where it stops.
  have refuses {reader : Reader} (ended : reader.cursor.atEnd) :
      (Engine.ofFuel .none (fuel + 1)).read .whole reader =
        (some (.error .exhaustedCode), reader) :=
    readValue_atEnd _ .whole (List.isEmpty_iff.1 ended)
  induction count generalizing reader values bound last with
  | zero =>
    obtain rfl : reader = reader' := congrArg Prod.snd reads
    have before : ¬ reader.cursor.atEnd := by
      intro ended
      rw [refuses ended] at stops
      cases stops
    rw [readToEnd_succ, if_neg before]
    exact Run.bind_stopped stops _
  | succ count ih =>
    have before : ¬ reader.cursor.atEnd := by
      intro ended
      rw [readArgs, Run.bind_apply, refuses ended] at reads
      cases reads
    obtain ⟨bound, rfl⟩ : ∃ rest, bound = rest + 1 := ⟨bound - 1, by omega⟩
    rw [readToEnd_succ, if_neg before, Run.bind_apply]
    rw [readArgs, Run.bind_apply] at reads
    cases ran : (Engine.ofFuel .none (fuel + 1)).read .whole reader with
    | mk outcome middle =>
      rw [ran] at reads
      obtain _ | failure | value := outcome
      · rfl
      · cases reads
      · dsimp only at reads ⊢
        rw [Run.bind_apply] at reads
        cases more : readArgs (.ofFuel .none (fuel + 1)) count middle with
        | mk outcome last =>
          rw [more] at reads
          obtain _ | failure | rest := outcome
          · cases reads
          · cases reads
          · cases reads
            exact ih more bound (by omega)

/-- A block that chooses itself has no end. -/
theorem execute_choice_stops {m : Machine} {id native : Nat} {code : Code}
    (either : m.lookup? "either" =
      some (.procedure (.leading id (.native 3 ⟨native, .core .either⟩))))
    (block : m.lookup? "a" = some (.block code)) (chooses : m.choosesBlock code.items)
    (fuel : Nat) : ((Engine.ofFuel .none fuel).execute code m).1 = none := by
  have nonempty : 0 < code.items.length := by
    refine List.length_pos_iff.2 fun empty => ?_
    rw [empty] at chooses
    cases chooses
  -- Each turn takes three units of fuel.
  have turns (count : Nat) (m : Machine) (either : m.lookup? "either" =
      some (.procedure (.leading id (.native 3 ⟨native, .core .either⟩))))
      (block : m.lookup? "a" = some (.block code)) (chooses : m.choosesBlock code.items) :
      ((Engine.ofFuel .none (3 * count)).execute code m).1 = none := by
    induction count generalizing m with
    | zero => rfl
    | succ count ih =>
      have stops := read_choice_stops either block
        (ih { m with result := .block code } either block chooses) chooses 0
      exact readToEnd_stops (by rfl) stops nonempty
  have extended := (Engine.extends_ofFuel (Discipline.admits_none _)
    (Nat.le_mul_of_pos_left fuel (by decide : 0 < 3))).execute code
  exact extended.stopped (turns fuel m either block chooses)

/-- The code of a text, and the machine with the names of the code bound. -/
def Machine.prepared? (m : Machine) (text : String) : Option (Code × Machine) :=
  match Node.parse (.ofString "<eval>" text) with
  | .ok nodes => some ((m.lower nodes).1, (m.lower nodes).2.bindRoot (m.lower nodes).1)
  | .error _ => none

/-- To evaluate a text is to run its code. -/
theorem evaluate_apply {m m' : Machine} {text : String} {code : Code}
    (prepared : m.prepared? text = some (code, m')) (engine : Engine) :
    evaluate engine text m = engine.execute code m' := by
  unfold Machine.prepared? at prepared
  unfold evaluate
  cases parsed : Node.parse (.ofString "<eval>" text) with
  | error found =>
    rw [parsed] at prepared
    cases prepared
  | ok nodes =>
    rw [parsed] at prepared
    cases prepared
    rfl

/-- A text that defines a block which chooses itself, and then chooses it. -/
def choosingText : String := "either: native [c t f] :core/either
a: [either :a :a :a] either :a :a :a"

/-- Whether the definitions of the text are made, and what is left then chooses the block. -/
def choosingText.isReady : Bool :=
  match Machine.stocked.prepared? choosingText with
  | none => false
  | some (code, m) =>
    match readArgs (.ofFuel .none 10) 2 ⟨m, .start code⟩ with
    | (some (.ok _), reader) =>
      reader.machine.choosesSelf && reader.machine.choosesBlock reader.cursor.rest &&
        decide (2 < code.items.length)
    | _ => false

/-- No fuel is enough for a block that chooses itself: its branches are run without a call, so that
the limit on calls does not end it. -/
theorem choice_of_itself_never_ends :
    ¬ ∃ fuel, (evaluate (.ofFuel .none fuel) choosingText .stocked).1.isSome := by
  rintro ⟨fuel, ended⟩
  refine Option.not_isSome_iff_eq_none.2 ?_ ended
  have ready : choosingText.isReady := by decide +kernel
  unfold choosingText.isReady at ready
  split at ready
  · cases ready
  · next code m prepared =>
    split at ready
    · next values reader reads =>
      simp only [Bool.and_eq_true, decide_eq_true_eq] at ready
      obtain ⟨⟨self, chooses⟩, long⟩ := ready
      unfold Machine.choosesSelf at self
      split at self
      · next id native code' either block =>
        have stops : ((Engine.ofFuel .none (fuel + 12)).read .whole reader).1 = none :=
          read_choice_stops either block (execute_choice_stops
            (m := { reader.machine with result := .block code' }) either block self (fuel + 10))
            chooses reader.cursor.position
        have reads : readArgs (.ofFuel .none (fuel + 12)) 2 ⟨m, .start code⟩ =
            (some (.ok values), reader) :=
          (Engine.extends_ofFuel (Discipline.admits_none _) (by omega)).readArgs 2 _ _ _ reads
        have never : (evaluate (.ofFuel .none (fuel + 13)) choosingText .stocked).1 = none := by
          rw [evaluate_apply prepared]
          exact readToEnd_stops reads stops long
        exact ((Engine.extends_ofFuel (Discipline.admits_none _) (by omega)).evaluate
          choosingText).stopped never
      · cases self
    · cases ready

end Wordstream
