import Wordstream.Proofs.Frames
import Wordstream.Proofs.Fuel

/-!
# Coming to an end

To show that evaluation comes to an end one has to know how much is left of the code that is read
and how many calls there is still room for. So a computation is said to halt together with what
bounds these afterwards, and the parts of evaluation that need no fuel are shown to halt here once
and for all. While no streaming body runs nothing writes to a channel, except that what a channel
has kept goes to a relay, and that comes to an end as well.

## Main results

* `Halts.andThen` — computations in sequence halt
* `halts_pipe` — joining two suspensions halts
-/

namespace Wordstream

/-! ## How much there is to be read -/

namespace Item

mutual

/-- How much there is to be read in an item: itself, and what is within it. -/
def weight : Item → Nat
  | group _ _ items => weigh items + 1
  | _ => 1

/-- How much there is to be read in a list of items. -/
def weigh : List Item → Nat
  | [] => 0
  | item :: rest => item.weight + weigh rest

end

/-- There is something to be read in every item. -/
theorem weight_pos (item : Item) : 0 < item.weight := by
  cases item <;> simp [weight]

/-- Where there is nothing to be read there is no item. -/
theorem eq_nil_of_weigh {items : List Item} (nothing : weigh items ≤ 0) : items = [] := by
  cases items with
  | nil => rfl
  | cons item rest =>
    have pos := item.weight_pos
    rw [weigh] at nothing
    omega

end Item

open Item (weigh)
open HasMachine (machine)

/-- States with code that is left to be read; a machine alone has none. -/
class HasCode (σ : Type) extends HasMachine σ where
  left : σ → List Item

instance : HasCode Machine where
  left _ := []

instance : HasCode Reader where
  left reader := reader.cursor.rest

open HasCode (left)

/-! ## Room for calls -/

namespace Machine

/-- No streaming body is running. -/
def IsQuiet (m : Machine) : Prop := ∀ scene, m.scenes.get scene = none

/-- Every scene has in the end who was on it in the beginning. -/
theorem Evolves.scenes_get {m m' : Machine} (h : m.Evolves m') (scene : Ref .scene) :
    m'.scenes.get scene = m.scenes.get scene := by
  induction h with
  | @quiet m m' same =>
    have same_scenes : m'.scenes = m.scenes := congrArg Footing.scenes same
    rw [same_scenes]
  | define | store => rfl
  | scene m =>
    rw [Arena.get_alloc]
    split
    · next new => rw [new, Arena.get_next]; rfl
    · rfl
  | @call m m' ref args room _ ih =>
    have kept : m'.leave.scenes = m'.scenes := by
      unfold leave
      split <;> rfl
    rw [kept, ih]
    rfl
  | @play m m' other activation _ ih =>
    change (m'.scenes.set other (m.scenes.get other)).get scene = _
    rw [Arena.get_set]
    split
    · next same => rw [same]
    · next different =>
      rw [ih]
      change (m.scenes.set other (some activation)).get scene = _
      rw [Arena.get_set, if_neg different]
  | trans _ _ first second => rw [second, first]

/-- No streaming body is running, and there is room for so many calls at most. -/
structure Level (m : Machine) (room : Nat) : Prop where
  quiet : m.IsQuiet
  bounded : m.config.maxCallDepth ≤ m.depth + room

/-- A course of events leaves as much room as there was. -/
theorem Level.evolve {m m' : Machine} {room : Nat} (h : m.Level room) (evolved : m.Evolves m') :
    m'.Level room where
  quiet scene := (evolved.scenes_get scene).trans (h.quiet scene)
  bounded := by
    have same := evolved.sameFrames
    rw [same.config, same.depth]
    exact h.bounded

/-- A call takes up room for one. -/
theorem Level.enter {m : Machine} {room : Nat} (h : m.Level (room + 1)) (ref : Ref .frame)
    (args : List Value) : (m.enter ref args).Level room where
  quiet := h.quiet
  bounded := by
    have bounded := h.bounded
    change m.config.maxCallDepth ≤ m.depth + 1 + room
    omega

end Machine

/-! ## Coming to an end -/

section Halts

variable {σ α β : Type} [HasCode σ]

/-- A computation comes to an end after a course of events, with so much at most left to be read. -/
def Halts (run : Nat → Run σ α) (state : σ) (most : Nat) : Prop :=
  ∃ result state', Ends run state result state' ∧ (machine state).Evolves (machine state') ∧
    weigh (left state') ≤ most

namespace Halts

/-- Less to be read is also at most so much. -/
theorem mono {run : Nat → Run σ α} {state : σ} {most more : Nat} (h : Halts run state most)
    (le : most ≤ more) : Halts run state more := by
  obtain ⟨result, state', ended, evolved, few⟩ := h
  exact ⟨result, state', ended, evolved, Nat.le_trans few le⟩

/-- A computation that gives a result or fails at once comes to an end. -/
theorem of_unchanged {run : Nat → Run σ α} {state : σ} {most : Nat} {result : Except Failure α}
    (h : ∀ fuel, run fuel state = (some result, state)) (few : weigh (left state) ≤ most) :
    Halts run state most :=
  ⟨result, state, .of_eq h, .refl _, few⟩

theorem done {state : σ} {most : Nat} (few : weigh (left state) ≤ most) (result : α) :
    Halts (fun _ => (pure result : Run σ α)) state most := of_unchanged (fun _ => rfl) few

theorem throw {state : σ} {most : Nat} (few : weigh (left state) ≤ most) (failure : Failure) :
    Halts (fun _ => (throw failure : Run σ α)) state most := of_unchanged (fun _ => rfl) few

/-- One computation after another: the second is looked at wherever the first may have led. -/
theorem andThen {room : Nat} {first : Nat → Run σ α} {next : Nat → α → Run σ β} {state : σ}
    {most : Nat} (level : (machine state).Level room) (before : Halts first state most)
    (after : ∀ result state', (machine state').Level room → weigh (left state') ≤ most →
      Halts (fun fuel => next fuel result) state' most) :
    Halts (fun fuel => (first fuel >>= next fuel : Run σ β)) state most := by
  obtain ⟨outcome, middle, ended, evolved, few⟩ := before
  cases outcome with
  | error failure => exact ⟨_, middle, ended.andThen_error, evolved, few⟩
  | ok result =>
    obtain ⟨outcome, state', ended', evolved', few'⟩ :=
      after result middle (level.evolve evolved) few
    exact ⟨outcome, state', ended.andThen ended', evolved.trans evolved', few'⟩

/-- Reading the state and going on with it. -/
theorem read {next : Nat → σ → Run σ β} {state : σ} {most : Nat}
    (after : Halts (fun fuel => next fuel state) state most) :
    Halts (fun fuel => (get >>= next fuel : Run σ β)) state most := by
  obtain ⟨outcome, state', ended, evolved, few⟩ := after
  exact ⟨outcome, state', .andThen (.of_eq fun _ => rfl) ended, evolved, few⟩

/-- Taking something new from the machine and going on with it. -/
theorem allocate {allocation : Machine → α × Machine} {next : Nat → α → Run Machine β} {m : Machine}
    {most : Nat} (evolved : m.Evolves (allocation m).2)
    (after : Halts (fun fuel => next fuel (allocation m).1) (allocation m).2 most) :
    Halts (fun fuel => (allocate allocation >>= next fuel : Run Machine β)) m most := by
  obtain ⟨outcome, state', ended, evolved', few⟩ := after
  exact ⟨outcome, state', .andThen (.of_eq fun _ => rfl) ended, evolved.trans evolved', few⟩

/-- Moving the cursor and going on behind it. -/
theorem step {next : Nat → Unit → Run Reader β} {reader : Reader} {most : Nat}
    (after : Halts (fun fuel => next fuel ()) ⟨reader.machine, reader.cursor.forward⟩ most) :
    Halts (fun fuel => (step >>= next fuel : Run Reader β)) reader most := by
  obtain ⟨outcome, state', ended, evolved, few⟩ := after
  exact ⟨outcome, state', .andThen (.of_eq fun _ => rfl) ended, evolved, few⟩

/-- What ends with one more unit of fuel ends. -/
theorem of_succ {run : Nat → Run σ α} {state : σ} {most : Nat}
    (h : Halts (fun fuel => run (fuel + 1)) state most) : Halts run state most := by
  obtain ⟨outcome, state', ended, evolved, few⟩ := h
  exact ⟨outcome, state', .of_succ ended, evolved, few⟩

theorem onMachine {run : Nat → Run Machine α} {reader : Reader} {most : Nat}
    (h : Halts run reader.machine 0) (few : weigh reader.cursor.rest ≤ most) :
    Halts (fun fuel => onMachine (run fuel)) reader most := by
  obtain ⟨outcome, m', ended, evolved, _⟩ := h
  exact ⟨outcome, ⟨m', reader.cursor⟩, ended.onMachine reader.cursor, evolved, few⟩

theorem withCursor {run : Nat → Run Reader α} {m : Machine} {cursor : Cursor} {most : Nat}
    (h : Halts run ⟨m, cursor⟩ most) : Halts (fun fuel => withCursor cursor (run fuel)) m 0 := by
  obtain ⟨outcome, reader, ended, evolved, _⟩ := h
  exact ⟨outcome, reader.machine, ended.withCursor, evolved, Nat.le_refl _⟩

end Halts

end Halts

/-! ## What needs no fuel -/

/-- A computation that comes to an end in every state. -/
def Total {σ α : Type} (action : Effect σ α) : Prop := ∀ state, (action state).1.isSome

namespace Total

variable {σ α β : Type}

theorem done (result : α) : Total (pure result : Run σ α) := fun _ => rfl

theorem throw (failure : Failure) : Total (throw failure : Run σ α) := fun _ => rfl

theorem settleWith (result : Except Failure α) : Total (settleWith result : Run σ α) := fun _ => rfl

theorem read : Total (get : Run σ σ) := fun _ => rfl

theorem change (change : Machine → Machine) : Total (modify change : Run Machine PUnit) :=
  fun _ => rfl

theorem allocate (allocation : Machine → α × Machine) : Total (allocate allocation) := fun _ => rfl

theorem andThen {first : Run σ α} {next : α → Run σ β} (before : Total first)
    (after : ∀ result, Total (next result)) : Total (first >>= next : Run σ β) := by
  intro state
  have ended := before state
  rw [Run.bind_apply]
  generalize first state = outcome at ended ⊢
  obtain ⟨_ | (failure | result), middle⟩ := outcome
  · cases ended
  · rfl
  · exact after result middle

theorem onScene (scene : Ref .scene) (symbol : String) : Total (onScene scene symbol) := by
  refine read.andThen fun m => ?_
  split
  · exact done _
  · exact throw _

theorem bindingGet (binding : Binding) (symbol : String) : Total (binding.get symbol) := by
  refine read.andThen fun m => ?_
  cases binding with
  | dictionary ref =>
    dsimp only
    split
    · exact done _
    · exact throw _
  | frameSlot frame index =>
    dsimp only
    split
    · exact done _
    · exact throw _
  | cell scene index =>
    refine (onScene scene symbol).andThen fun activation => ?_
    split
    · exact done _
    · exact throw _
  | input scene => exact (onScene scene symbol).andThen fun _ => done _
  | output procedure => exact done _

theorem bindingSet (binding : Binding) (symbol : String) (value : Value) :
    Total (binding.set symbol value) := by
  refine read.andThen fun m => ?_
  cases binding with
  | dictionary ref => exact change _
  | frameSlot frame index =>
    dsimp only
    split
    · exact change _
    · exact throw _
  | cell scene index =>
    refine (onScene scene symbol).andThen fun ref => ?_
    dsimp only
    split
    · exact change _
    · exact throw _
  | input scene => exact throw _
  | output procedure => exact throw _

theorem siteBinding (site : Site) : Total site.binding := by
  refine read.andThen fun m => ?_
  split
  · exact done _
  · exact throw _

theorem siteGet (site : Site) : Total site.get :=
  (siteBinding site).andThen fun binding => bindingGet binding site.symbol

theorem siteSet (site : Site) (value : Value) : Total (site.set value) :=
  (siteBinding site).andThen fun binding => bindingSet binding site.symbol value

theorem resume (ref : Ref .suspension) (input : Option (Ref .channel)) :
    Total (resume ref input) := by
  intro m
  rw [resume_apply]
  split
  · rfl
  · split
    · rfl
    · cases (m.suspension ref).work <;> rfl

theorem autoResume (value : Value) : Total (autoResume value) := by
  unfold Wordstream.autoResume
  split
  · exact (resume _ none).andThen fun task => (change _).andThen fun _ => done _
  · exact done _

theorem expectBlock (what : String) (value : Value) : Total (expectBlock what value) := by
  cases value <;> first | exact done _ | exact throw _

theorem expectNative (what : String) (value : Value) : Total (expectNative what value) := by
  cases value <;> first | exact done _ | exact throw _

theorem expectText (what : String) (value : Value) : Total (expectText what value) := by
  cases value <;> first | exact done _ | exact throw _

theorem arityOf (what : String) (params : Code) : Total (arityOf what params) := by
  refine (settleWith _).andThen fun declared => ?_
  split
  · exact done _
  · exact throw _

theorem twoArgs (name : String) (args : List Value) : Total (twoArgs name args) := by
  unfold Wordstream.twoArgs
  split
  · exact done _
  · exact throw _

theorem blockArg (name : String) (value : Value) : Total (blockArg name value) := by
  cases value <;> first | exact done _ | exact throw _

theorem projectFields (fields : List String) (seen : List String) (value : Value) :
    Total (projectFields seen fields value) := by
  induction fields generalizing seen value with
  | nil => exact done _
  | cons field rest ih =>
    cases value with
    | object ref =>
      refine read.andThen fun m => ?_
      split
      · exact ih _ _
      · exact throw _
    | _ => exact throw _

theorem project (head : Site) (fields : List String) : Total (project head fields) :=
  (siteGet head).andThen fun value => projectFields fields _ value

theorem assignField (head : Site) (fields : List String) (value : Value) :
    Total (assignField head fields value) := by
  unfold Wordstream.assignField
  split
  · exact throw _
  · refine (project head _).andThen fun target => ?_
    split
    · exact change _
    · exact throw _

/-- What ends in every state, and is confined, comes to an end without fuel. -/
theorem halts {action : Run Machine α} (total : Total action) (confined : Confined action)
    (m : Machine) : Halts (fun _ => action) m 0 := by
  obtain ⟨result, ended⟩ := Option.isSome_iff_exists.1 (total m)
  exact ⟨result, (action m).2, .of_eq fun _ => Prod.ext ended rfl,
    (confined m).2 (total m), Nat.le_refl _⟩

/-- The same with the machine of a reader. -/
theorem halts_onMachine {action : Run Machine α} (total : Total action) (confined : Confined action)
    {reader : Reader} {most : Nat} (few : weigh reader.cursor.rest ≤ most) :
    Halts (fun _ => onMachine action) reader most :=
  (total.halts confined reader.machine).onMachine few

end Total

/-- Keeping a result comes to an end. -/
theorem halts_keepResult {reader : Reader} {most : Nat} (few : weigh reader.cursor.rest ≤ most)
    (value : Value) : Halts (fun _ => keepResult value) reader most :=
  ⟨.ok value, _, .of_eq fun _ => rfl, .quiet rfl, few⟩

/-! ## What waits goes to a relay -/

/-- A channel that forwards to one that only keeps what it accepts hands over all that waits. -/
theorem halts_forward (engine : Nat → Engine)
    (handsOver : ∀ fuel ref, (engine (fuel + 1)).deliver ref = deliverAll (engine fuel) ref)
    (ref relay : Ref .channel) {m : Machine} {busy : Bool}
    (attached : (m.channel ref).attachment = .listening (.forward relay) busy)
    (apart : (m.channel ref).backlog ≠ [] →
      ref ≠ relay ∧ (m.channel relay).attachment = .buffering) :
    ∃ m', Ends (fun fuel => (engine fuel).deliver ref) m () m' ∧ m.Evolves m' := by
  -- On what waits: each signal is taken off and kept by the relay.
  induction waiting : (m.channel ref).backlog generalizing m busy with
  | nil =>
    refine ⟨m.setChannel ref (m.channel ref).release, .of_succ (.of_eq fun fuel => ?_), .quiet rfl⟩
    rw [handsOver, deliverAll_apply, Channel.take?, attached, waiting]
  | cons signal rest ih =>
    obtain ⟨apart, keeping⟩ := apart (by simp [waiting])
    obtain ⟨channel, taken, attached', waiting'⟩ : ∃ channel,
        (m.channel ref).take? = some (.forward relay, signal, channel) ∧
          channel.attachment = .listening (.forward relay) true ∧ channel.backlog = rest :=
      ⟨_, by rw [Channel.take?, attached, waiting], rfl, rfl⟩
    have idle : ¬ (m.channel relay).mustDeliver := by
      simp [Channel.mustDeliver, Channel.isIdle, keeping]
    have quiet : m.Evolves
        ((m.setChannel ref channel).setChannel relay ((m.channel relay).accept signal)) :=
          .quiet rfl
    obtain ⟨m', ⟨bound, ended⟩, evolved⟩ := @ih
      ((m.setChannel ref channel).setChannel relay ((m.channel relay).accept signal)) true
      (by simp [apart, attached']) (fun _ => ⟨apart, by simp [keeping]⟩) (by simp [apart, waiting'])
    refine ⟨m', .of_succ ⟨bound, fun fuel enough => ?_⟩, quiet.trans evolved⟩
    change (engine (fuel + 1)).deliver ref m = _
    rw [handsOver, deliverAll_apply, taken]
    dsimp only
    rw [Effect.bind_apply, deliverTo, emit_apply, Machine.channel_setChannel, if_neg apart.symm,
      if_neg idle]
    exact ended fuel enough

/-- A new relay is subscribed to a channel without end of trouble, whether there is such a channel
or not. -/
theorem halts_subscribe (engine : Nat → Engine)
    (handsOver : ∀ fuel ref, (engine (fuel + 1)).deliver ref = deliverAll (engine fuel) ref)
    (m : Machine) (ref : Ref .channel) :
    Halts (fun fuel => subscribe (engine fuel) ref (.forward m.newChannel.1)) m.newChannel.2 0 := by
  have fresh : m.newChannel.2.channel m.newChannel.1 = .fresh := by
    change (m.channels.alloc .fresh).get m.channels.next = _
    rw [Arena.get_alloc, if_pos rfl]
  cases taken : (m.newChannel.2.channel ref).attachment with
  | listening listener busy =>
    have subscribed : (m.newChannel.2.channel ref).isSubscribed := by
      rw [Channel.isSubscribed, taken]
    exact .of_unchanged (fun _ => subscribe_of_isSubscribed _ _ subscribed) (Nat.le_refl _)
  | buffering =>
    obtain ⟨channel, attach, attached, waiting⟩ : ∃ channel,
        (m.newChannel.2.channel ref).attach? (.forward m.newChannel.1) = some channel ∧
          channel.attachment = .listening (.forward m.newChannel.1) false ∧
          channel.backlog = (m.newChannel.2.channel ref).backlog :=
      ⟨{ m.newChannel.2.channel ref with
        attachment := .listening (.forward m.newChannel.1) false },
        by rw [Channel.attach?, taken], rfl, rfl⟩
    have listens : ((m.newChannel.2.setChannel ref channel).channel ref).attachment =
        .listening (.forward m.newChannel.1) false := by
      simp [attached]
    -- If something waits on the channel, it is not the new one.
    have apart (some : ((m.newChannel.2.setChannel ref channel).channel ref).backlog ≠ []) :
        ref ≠ m.newChannel.1 ∧ ((m.newChannel.2.setChannel ref channel).channel
          m.newChannel.1).attachment = .buffering := by
      have apart : ref ≠ m.newChannel.1 := by
        intro same
        simp [waiting, same, fresh, Channel.fresh] at some
      refine ⟨apart, ?_⟩
      rw [Machine.channel_setChannel, if_neg apart.symm, fresh]
      rfl
    obtain ⟨m', ⟨bound, ended⟩, evolved⟩ := halts_forward engine handsOver _ _ listens apart
    have quiet : m.newChannel.2.Evolves (m.newChannel.2.setChannel ref channel) := .quiet rfl
    refine ⟨.ok (), m', ⟨bound, fun fuel enough => ?_⟩, quiet.trans evolved, Nat.le_refl _⟩
    have delivered : (engine fuel).deliver ref (m.newChannel.2.setChannel ref channel) =
        (some (), m') := ended fuel enough
    refine (subscribe_apply _ _ _ _).trans ?_
    rw [attach]
    dsimp only
    rw [delivered, Option.map_some]

/-- Joining two suspensions comes to an end. -/
theorem halts_pipe (engine : Nat → Engine)
    (handsOver : ∀ fuel ref, (engine (fuel + 1)).deliver ref = deliverAll (engine fuel) ref)
    {room : Nat} {m : Machine} (level : m.Level room) (left right : Ref .suspension) :
    Halts (fun fuel => pipe (engine fuel) left right) m 0 := by
  refine .read ?_
  dsimp only
  split
  · exact .throw (Nat.le_refl _) _
  · split
    · exact .throw (Nat.le_refl _) _
    · refine .allocate (.quiet rfl) ?_
      refine .andThen (level.evolve (.quiet rfl)) (halts_subscribe engine handsOver m _)
        fun _ m' _ _ => ?_
      exact (Total.allocate _).halts (confinement.quiet fun _ => rfl) m'

end Wordstream
