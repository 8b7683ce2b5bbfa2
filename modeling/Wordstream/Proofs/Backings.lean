import Wordstream.Proofs.Demand

/-!
# Which backings are tracked

A backing that was started for a module is tracked under the id of the module until it is stopped.
It is lost in two ways: another backing is started under its id, which takes its place, or its
stop fails, which comes when it is tracked no longer. A backing that is lost runs on, and nothing
can stop it. Apart from these, the backings that are tracked are those that run.

Nothing but loading and stopping modules touches backings, whatever evaluation does meanwhile.

## Main results

* `Demand.tracking_of_not_tracks` — evaluation touches no backings
* `starts_loadText` — loading a module starts one backing at most
* `InService.tracksAll_iff` — all backings that run are tracked exactly when none was lost
-/

namespace Wordstream

/-- What is removed is not there, and the rest is as it was. -/
@[simp]
theorem Table.get?_erase {α : Type} (table : Table α) (name other : String) :
    (table.erase name).get? other = if other = name then none else table.get? other := by
  obtain ⟨entries⟩ := table
  change findValue? other (entries.filter _) = if other = name then none
    else findValue? other entries
  induction entries with
  | nil => split <;> rfl
  | cons entry rest ih =>
    by_cases same : entry.1 = name
    · rw [List.filter_cons_of_neg (by simp [same]), ih]
      grind [findValue?]
    · rw [List.filter_cons_of_pos (by simp [same])]
      grind [findValue?]

/-! ## Evaluation and backings -/

namespace Machine

/-- The backings that are tracked, and all that were started. -/
def tracking (m : Machine) : Table (Ref .implementation) × Arena .implementation Implementation :=
  (m.running, m.implementations)

theorem tracking_of_agenda {m m' : Machine} (h : m'.agenda = m.agenda) : m'.tracking = m.tracking :=
  congrArg (fun agenda => (agenda.running, agenda.implementations)) h

/-- Whether a backing runs: it was started, and it was not stopped. -/
def Runs (m : Machine) (ref : Ref .implementation) : Prop :=
  m.implementations.Has ref ∧ (m.implementations.get ref).stopped = false

/-- The backings that are tracked are those that run, each under the id of its module. -/
def TracksAll (m : Machine) : Prop :=
  ∀ id ref, m.running.get? id = some ref ↔ m.Runs ref ∧ (m.implementations.get ref).id = id

end Machine

/-- Evaluation touches no backings, wherever it stops. -/
def untouching : Trend where
  Holds m m' := m'.tracking = m.tracking
  trans first second := second.trans first
  stir h := Machine.tracking_of_agenda h.agenda_eq
  arrange same _ := Machine.tracking_of_agenda (congrArg (·.2.2) same)
  enlist value m := by
    rcases of_autoResume value m with same | ⟨ref, task, m', _, resumed, used⟩
    · rw [same]
    · have same := Machine.tracking_of_agenda (congrArg (·.2.2) (surroundings_resume ref none m))
      rw [resumed] at same
      rw [used]
      exact same
  enter _ _ _ := rfl
  leave m := by
    unfold Machine.leave
    cases m.calls <;> rfl
  mount _ _ _ := rfl
  dismount _ _ _ _ := rfl

/-- Nothing that leaves the host's affairs alone touches backings. -/
def untouched : Plain where
  toModest := untouching.modest
  quiet h m := Machine.tracking_of_agenda (congrArg (·.2.2) (h m))

/-- Nothing that is asked of a machine touches backings, unless modules are loaded or stopped. -/
theorem Demand.tracking_of_not_tracks {engine : Engine}
    (h : untouched.discipline.Relates engine engine) {fuel : Nat} {α : Type} {demand : Demand α}
    (tracks : demand.tracks = false) (m : Machine) :
    (demand.run engine fuel m).2.tracking = m.tracking := by
  have fits := demand.fits h fuel (fun yes => by rw [tracks] at yes; cases yes) fun _ => rfl
  exact fits m

/-! ## Loading and stopping -/

namespace Machine

/-- A backing whose start succeeds was started and is tracked under an id, or none was. -/
def Starts (id : String) (m m' : Machine) : Prop :=
  m'.tracking = m.tracking ∨
    ∃ backing, backing.startFailure = none ∧ m'.tracking = (m.track id backing).tracking

/-- What a new backing does to what is tracked depends on nothing else. -/
theorem tracking_track {m m' : Machine} (same : m'.tracking = m.tracking) (id : String)
    (backing : Backing) : (m'.track id backing).tracking = (m.track id backing).tracking := by
  obtain ⟨running, implementations⟩ := Prod.mk.inj same
  change (m'.running.insert id m'.implementations.next, m'.implementations.alloc _) =
    (m.running.insert id m.implementations.next, m.implementations.alloc _)
  rw [running, implementations]

end Machine

/-- A computation that starts one backing at most, wherever it stops. -/
def Starting (id : String) {α : Type} (action : Effect Machine α) : Prop :=
  ∀ m : Machine, m.Starts id (action m).2

namespace Starting

variable {id : String} {α β : Type}

theorem of_untouched {action : Effect Machine α} (h : untouched.Allows action) :
    Starting id action := fun m => .inl (h m)

/-- Nothing is started before. -/
theorem after {first : Run Machine α} {next : α → Run Machine β} (before : untouched.Allows first)
    (h : ∀ result, Starting id (next result)) : Starting id (first >>= next : Run Machine β) := by
  intro m
  have same : (first m).2.tracking = m.tracking := before m
  rw [Run.bind_apply]
  generalize first m = outcome at same ⊢
  obtain ⟨_ | (_ | result), middle⟩ := outcome
  · exact .inl same
  · exact .inl same
  · refine (h result middle).imp (fun rest => rest.trans same) ?_
    rintro ⟨backing, started, rest⟩
    exact ⟨backing, started, rest.trans (Machine.tracking_track same id backing)⟩

/-- Nothing is started behind. -/
theorem before {first : Run Machine α} {next : α → Run Machine β} (h : Starting id first)
    (after : ∀ result, untouched.Allows (next result)) :
    Starting id (first >>= next : Run Machine β) := by
  intro m
  have started := h m
  rw [Run.bind_apply]
  generalize first m = outcome at started ⊢
  obtain ⟨_ | (_ | result), middle⟩ := outcome
  · exact started
  · exact started
  · have same : (next result middle).2.tracking = middle.tracking := after result middle
    refine started.imp (fun before => same.trans before) ?_
    rintro ⟨backing, succeeded, before⟩
    exact ⟨backing, succeeded, same.trans before⟩

end Starting

theorem starts_startBacking (id name : String) : Starting id (startBacking id name) := by
  refine .after untouched.allows_read fun m => ?_
  split
  · exact .of_untouched (untouched.allows_throw _)
  · next backing _ =>
    refine .after (untouched.discipline.allows_noteEvent _) fun _ m => ?_
    cases starts : backing.startFailure with
    | some reason => exact .inl rfl
    | none => exact .inr ⟨backing, starts, rfl⟩

theorem starts_offerBacking (id name : String) (description : Ref .dictionary) :
    Starting id (offerBacking id name description) := by
  refine .after untouched.allows_read fun m => ?_
  split
  · exact .of_untouched (untouched.allows_done _)
  · exact (starts_startBacking id _).before fun _ => untouched.allows_done _
  · exact .of_untouched (untouched.allows_throw _)

section Loading

variable {engine : Engine} (h : untouched.discipline.Relates engine engine)

include h

/-- Loading a module starts one backing at most, whatever its description and its body do. -/
theorem starts_loadText (id name text : String) : Starting id (loadText engine id name text) := by
  unfold loadText
  split
  · exact .of_untouched (untouched.allows_throw _)
  · next nodes _ =>
    refine .after (untouched.discipline.allows_load nodes) fun code => ?_
    split
    · exact .of_untouched (untouched.allows_throw _)
    · exact .after (h.executeInto _ .empty fun _ => nofun) fun _ =>
        (starts_offerBacking id name _).before fun _ => h.executeInto _ _ nofun

theorem starts_loadFile (files : FileTree) (id path : String) :
    Starting id (loadFile engine files id path) := by
  refine .after untouched.allows_read fun m => ?_
  dsimp only
  split
  · exact .of_untouched (untouched.allows_throw _)
  · exact starts_loadText h id _ _

end Loading

/-- The machine when a backing is tracked no longer, and its stop was called. -/
def Machine.untrack (m : Machine) (id : String) (backing : Backing) : Machine :=
  { m with running := m.running.erase id, events := m.events ++ [s!"stop {backing.name}"] }

/-- A backing that is tracked no longer is stopped, and is marked so if its stop succeeds. -/
theorem stopTracked_apply (id : String) (ref : Ref .implementation) (m : Machine) :
    stopTracked id ref m = match (m.implementations.get ref).backing.stopFailure with
      | some reason => (some (.error (.module reason)),
          m.untrack id (m.implementations.get ref).backing)
      | none => (some (.ok ()),
          (m.untrack id (m.implementations.get ref).backing).markStopped ref) := by
  change (match (m.implementations.get ref).backing.stopFailure with
    | some reason => throw (Failure.module reason)
    | none => modify (·.markStopped ref) : Run Machine Unit)
      (m.untrack id (m.implementations.get ref).backing) = _
  cases (m.implementations.get ref).backing.stopFailure <;> rfl

theorem stopModule_apply (id : String) (m : Machine) :
    stopModule id m = match m.running.get? id with
      | none => (some (.error (.module s!"module not found: {id}")), m)
      | some ref => stopTracked id ref m := by
  change (match m.running.get? id with
    | none => throw (Failure.module s!"module not found: {id}")
    | some ref => stopTracked id ref : Run Machine Unit) m = _
  cases m.running.get? id <;> rfl

/-! ## Keeping account -/

/-- What is known of all backings that were started, when some of them were lost. -/
structure Machine.Accounts (lost : List (Ref .implementation)) (m : Machine) : Prop where
  succeeded {ref : Ref .implementation} (has : m.implementations.Has ref) :
    (m.implementations.get ref).backing.startFailure = none
  tracked {id : String} {ref : Ref .implementation} : m.running.get? id = some ref ↔
    m.Runs ref ∧ (m.implementations.get ref).id = id ∧ ref ∉ lost
  lost {ref : Ref .implementation} (member : ref ∈ lost) : m.Runs ref

namespace Machine.Accounts

variable {lost : List (Ref .implementation)} {m m' : Machine} {id : String}

theorem of_tracking (h : m.Accounts lost) (same : m'.tracking = m.tracking) : m'.Accounts lost := by
  obtain ⟨running, implementations⟩ := Prod.mk.inj same
  refine ⟨fun has => ?_, ?_, fun member => ?_⟩
  · rw [implementations] at has ⊢
    exact h.succeeded has
  · unfold Runs
    rw [running, implementations]
    exact h.tracked
  · unfold Runs
    rw [implementations]
    exact h.lost member

/-- A backing that is started takes the place of the one that was tracked under its id, which is
lost. -/
theorem track (h : m.Accounts lost) {backing : Backing} (starts : backing.startFailure = none) :
    (m.track id backing).Accounts (lost ++ (m.running.get? id).toList) := by
  have get_eq (ref : Ref .implementation) : (m.track id backing).implementations.get ref =
      if ref = m.implementations.next then ⟨id, backing, false⟩ else m.implementations.get ref :=
    Arena.get_alloc ..
  have running_eq (other : String) : (m.track id backing).running.get? other =
      if other = id then some m.implementations.next else m.running.get? other :=
    Table.get?_insert ..
  have has_next : (m.track id backing).implementations.Has m.implementations.next :=
    Arena.has_alloc_next ..
  have runs_old {ref : Ref .implementation} (runs : m.Runs ref) :
      (m.track id backing).Runs ref := by
    refine ⟨runs.1.alloc _, ?_⟩
    rw [get_eq, if_neg runs.1.ne_next]
    exact runs.2
  -- At most one backing is displaced: the one that was tracked under the same id.
  have displaced {ref : Ref .implementation} (member : ref ∈ (m.running.get? id).toList) :
      m.running.get? id = some ref := Option.mem_toList.1 member
  refine ⟨fun {ref} has => ?_, fun {other ref} => ?_, fun {ref} member => ?_⟩
  · rw [get_eq]
    split
    · exact starts
    · next old => exact h.succeeded (Arena.has_of_alloc has old)
  · rw [running_eq, List.mem_append, not_or]
    constructor
    · intro found
      split at found
      · next same =>
        obtain rfl := Option.some.inj found
        refine ⟨⟨has_next, by rw [get_eq, if_pos rfl]⟩, by rw [get_eq, if_pos rfl, same],
          fun member => (h.lost member).1.ne_next rfl, fun member => ?_⟩
        exact (h.tracked.1 (displaced member)).1.1.ne_next rfl
      · next other_id =>
        obtain ⟨runs, own, kept⟩ := h.tracked.1 found
        refine ⟨runs_old runs, by rw [get_eq, if_neg runs.1.ne_next, own], kept, fun member => ?_⟩
        exact other_id (own.symm.trans (h.tracked.1 (displaced member)).2.1)
    · rintro ⟨⟨has, running⟩, own, kept, stays⟩
      rw [get_eq] at running own
      split at own
      · next new => rw [if_pos own.symm, new]
      · next old =>
        rw [if_neg old] at running
        have found := h.tracked.2 ⟨⟨Arena.has_of_alloc has old, running⟩, own, kept⟩
        rw [if_neg, found]
        rintro rfl
        exact stays (Option.mem_toList.2 found)
  · rcases List.mem_append.1 member with member | member
    · exact runs_old (h.lost member)
    · exact runs_old (h.tracked.1 (displaced member)).1

/-- A backing is tracked no longer, so it is lost for now. -/
theorem untrack (h : m.Accounts lost) {ref : Ref .implementation}
    (found : m.running.get? id = some ref) (backing : Backing) :
    (m.untrack id backing).Accounts (lost ++ [ref]) := by
  have running_eq (other : String) : (m.untrack id backing).running.get? other =
      if other = id then none else m.running.get? other := Table.get?_erase ..
  obtain ⟨runs, own, kept⟩ := h.tracked.1 found
  refine ⟨fun has => h.succeeded has, fun {other ref'} => ?_, fun {ref'} member => ?_⟩
  · rw [running_eq, List.mem_append, not_or, List.mem_singleton]
    constructor
    · intro still
      split at still
      · cases still
      · next other_id =>
        obtain ⟨runs', own', kept'⟩ := h.tracked.1 still
        refine ⟨runs', own', kept', ?_⟩
        rintro rfl
        exact other_id (own'.symm.trans own)
    · rintro ⟨runs', own', kept', apart⟩
      have still := h.tracked.2 ⟨runs', own', kept'⟩
      rw [if_neg, still]
      rintro rfl
      exact apart (Option.some.inj (still.symm.trans found))
  · rcases List.mem_append.1 member with member | member
    · exact h.lost member
    · exact List.mem_singleton.1 member ▸ runs

/-- A backing that was stopped runs no longer, so it is not lost. -/
theorem markStopped {ref : Ref .implementation} (h : m.Accounts (lost ++ [ref]))
    (kept : ref ∉ lost) : (m.markStopped ref).Accounts lost := by
  have get_eq (other : Ref .implementation) : (m.markStopped ref).implementations.get other =
      if other = ref then { m.implementations.get ref with stopped := true }
      else m.implementations.get other := Arena.get_set ..
  have has := (h.lost (List.mem_append_right _ (List.mem_singleton_self ref))).1
  -- The backing was on the list of the lost, so it leaves the list as it leaves those that run.
  have runs_iff (other : Ref .implementation) :
      (m.markStopped ref).Runs other ↔ m.Runs other ∧ other ≠ ref := by
    unfold Runs
    rw [get_eq]
    split
    · next same => simp [same]
    · next apart =>
      refine ⟨fun runs => ⟨⟨Arena.has_of_set has runs.1, runs.2⟩, apart⟩, fun runs => ?_⟩
      exact ⟨runs.1.1.set _ _, runs.1.2⟩
  have id_eq (other : Ref .implementation) :
      ((m.markStopped ref).implementations.get other).id = (m.implementations.get other).id := by
    rw [get_eq]
    split
    · next same => rw [same]
    · rfl
  refine ⟨fun {other} known => ?_, fun {other_id other} => ?_, fun {other} member => ?_⟩
  · have before := h.succeeded (Arena.has_of_set has known)
    rw [get_eq]
    split
    · next same => exact same ▸ before
    · exact before
  · rw [runs_iff, id_eq]
    refine h.tracked.trans ?_
    rw [List.mem_append, not_or, List.mem_singleton]
    exact ⟨fun ⟨runs, own, kept, apart⟩ => ⟨⟨runs, apart⟩, own, kept⟩,
      fun ⟨⟨runs, apart⟩, own, kept⟩ => ⟨runs, own, kept, apart⟩⟩
  · rw [runs_iff]
    refine ⟨h.lost (List.mem_append_left _ member), ?_⟩
    rintro rfl
    exact kept member

end Machine.Accounts

/-! ## Machines in service -/

/-- The backings that a demand has lost on its way from one machine to another: the one that was
tracked under the id of a module for which another was started, and the one whose stop has
failed. -/
def Demand.loses {α : Type} (m m' : Machine) : Demand α → List (Ref .implementation)
  | load id _ _ | loadFile _ id _ =>
    if m'.implementations.next = m.implementations.next then [] else (m.running.get? id).toList
  | stop id =>
    match m.running.get? id with
    | some ref => if (m.implementations.get ref).backing.stopFailure.isSome then [ref] else []
    | none => []
  | _ => []

/-- The machines that modules were loaded into and stopped in, with the backings that were lost
meanwhile: a new machine, one that the host has prepared, such as by offering backings, and one of
which something was asked, whether that has failed or not. -/
inductive InService (host : Host) : List (Ref .implementation) → Machine → Prop
  | new (config : Config) : InService host [] (.ofConfig config)
  | prepare {lost : List (Ref .implementation)} {m m' : Machine} (h : InService host lost m)
      (same : m'.tracking = m.tracking) : InService host lost m'
  | demand {lost : List (Ref .implementation)} {m m' : Machine} {α : Type}
      (h : InService host lost m) (demand : Demand α) {fuel : Nat} {answer : α}
      (ended : demand.run (.ofFuel host fuel) fuel m = (some answer, m')) :
      InService host (lost ++ demand.loses m m') m'

section Demands

variable {lost : List (Ref .implementation)} {m m' : Machine}

/-- Loading a module loses a backing only if another is started under its id. -/
theorem Machine.Accounts.load (h : m.Accounts lost) {id : String} (starts : m.Starts id m') :
    m'.Accounts (lost ++ if m'.implementations.next = m.implementations.next then []
      else (m.running.get? id).toList) := by
  rcases starts with same | ⟨backing, succeeded, same⟩
  · have next_eq : m'.implementations.next = m.implementations.next := congrArg (·.2.next) same
    rw [if_pos next_eq, List.append_nil]
    exact h.of_tracking same
  · have further : m'.implementations.next ≠ m.implementations.next := by
      have next_eq : m'.implementations.next = (m.track id backing).implementations.next :=
        congrArg (·.2.next) same
      rw [next_eq]
      exact fun same =>
        (Arena.has_alloc_next m.implementations ⟨id, backing, false⟩).ne_next same.symm
    rw [if_neg further]
    exact (h.track succeeded).of_tracking same

/-- Stopping a module loses its backing only if the stop of that fails. -/
theorem Machine.Accounts.stop (h : m.Accounts lost) (id : String) :
    (stopModule id m).2.Accounts (lost ++ match m.running.get? id with
      | some ref => if (m.implementations.get ref).backing.stopFailure.isSome then [ref] else []
      | none => []) := by
  rw [stopModule_apply]
  cases found : m.running.get? id with
  | none => exact (List.append_nil lost).symm ▸ h
  | some ref =>
    -- The entry is gone before the stop is tried, so the backing is lost unless the stop succeeds.
    have untracked := h.untrack found (m.implementations.get ref).backing
    dsimp only
    rw [stopTracked_apply]
    cases stops : (m.implementations.get ref).backing.stopFailure with
    | some reason => exact untracked
    | none => exact (List.append_nil lost).symm ▸ untracked.markStopped (h.tracked.1 found).2.2

end Demands

/-- In every machine in service the backings that are tracked are those that run and were not
lost. -/
theorem InService.accounts {host : Host} (hosted : untouched.discipline.Admits host)
    {lost : List (Ref .implementation)} {m : Machine} (h : InService host lost m) :
    m.Accounts lost := by
  induction h with
  | new config =>
    have nothing (ref : Ref .implementation) :
        ¬ (Machine.ofConfig config).implementations.Has ref :=
      Nat.not_lt_zero _
    refine ⟨fun has => absurd has (nothing _), fun {id ref} => ⟨fun found => ?_, fun runs => ?_⟩,
      fun member => ?_⟩
    · cases found
    · exact absurd runs.1.1 (nothing ref)
    · cases member
  | prepare _ same ih => exact ih.of_tracking same
  | @demand lost m m' α _ demand fuel answer ended ih =>
    have engine : untouched.discipline.Relates (.ofFuel host fuel) (.ofFuel host fuel) :=
      Trend.relates_ofFuel hosted fuel
    have last : (demand.run (.ofFuel host fuel) fuel m).2 = m' := congrArg Prod.snd ended
    cases tracks : demand.tracks with
    | false =>
      have same : (demand.run (.ofFuel host fuel) fuel m).2.tracking = m.tracking :=
        demand.tracking_of_not_tracks engine tracks m
      rw [last] at same
      -- Only loading and stopping modules have to do with backings.
      have none : demand.loses m m' = [] := by cases demand <;> first | rfl | cases tracks
      rw [none, List.append_nil]
      exact ih.of_tracking same
    | true =>
      cases demand with
      | load id name text => exact ih.load (last ▸ starts_loadText engine id name text m)
      | loadFile files id path => exact ih.load (last ▸ starts_loadFile engine files id path m)
      | stop id => exact last ▸ ih.stop id
      | _ => cases tracks

/-- All backings that run are tracked exactly when none was lost. -/
theorem Machine.Accounts.tracksAll_iff {lost : List (Ref .implementation)} {m : Machine}
    (h : m.Accounts lost) : m.TracksAll ↔ lost = [] := by
  constructor
  · intro all
    refine List.eq_nil_iff_forall_not_mem.2 fun ref member => ?_
    have found := (all _ ref).2 ⟨h.lost member, rfl⟩
    exact (h.tracked.1 found).2.2 member
  · rintro rfl id ref
    rw [h.tracked]
    exact ⟨fun ⟨runs, own, _⟩ => ⟨runs, own⟩, fun ⟨runs, own⟩ => ⟨runs, own, List.not_mem_nil⟩⟩

/-- A backing that is tracked can be stopped: stopping its module is what its stop comes to, and
if that succeeds it is stopped. -/
theorem Machine.Accounts.stops {lost : List (Ref .implementation)} {m : Machine}
    (h : m.Accounts lost) {ref : Ref .implementation} (runs : m.Runs ref) (kept : ref ∉ lost) :
    match (m.implementations.get ref).backing.stopFailure with
    | none => (stopModule (m.implementations.get ref).id m).1 = some (.ok ()) ∧
        ((stopModule (m.implementations.get ref).id m).2.implementations.get ref).stopped = true
    | some reason => (stopModule (m.implementations.get ref).id m).1 =
        some (.error (.module reason)) := by
  have found := h.tracked.2 ⟨runs, rfl, kept⟩
  rw [stopModule_apply, found]
  dsimp only
  rw [stopTracked_apply]
  cases stops : (m.implementations.get ref).backing.stopFailure with
  | some reason => rfl
  | none =>
    refine ⟨rfl, ?_⟩
    change ((m.implementations.set ref _).get ref).stopped = true
    rw [Arena.get_set, if_pos rfl]

/-- Whatever modules were loaded and stopped, under whatever ids and whether that has failed or
not, the backings that are tracked are those whose start has succeeded, which were not stopped and
which were not lost, each under the id of its module. So all that run are tracked exactly when
none was lost: no backing was started under an id that was tracked already, and no stop has
failed. A backing that was not lost can be stopped, and one that was lost runs on where no id
leads to it. -/
theorem InService.backings_tracked {host : Host} (hosted : untouched.discipline.Admits host)
    {lost : List (Ref .implementation)} {m : Machine} (h : InService host lost m) :
    (m.TracksAll ↔ lost = []) ∧
    (∀ id ref, m.running.get? id = some ref ↔
      m.Runs ref ∧ (m.implementations.get ref).id = id ∧ ref ∉ lost) ∧
    (∀ ref, m.implementations.Has ref → (m.implementations.get ref).backing.startFailure = none) ∧
    (∀ ref, m.Runs ref → ref ∉ lost →
      match (m.implementations.get ref).backing.stopFailure with
      | none => (stopModule (m.implementations.get ref).id m).1 = some (.ok ()) ∧
          ((stopModule (m.implementations.get ref).id m).2.implementations.get ref).stopped = true
      | some reason =>
          (stopModule (m.implementations.get ref).id m).1 = some (.error (.module reason))) ∧
    ∀ ref ∈ lost, m.Runs ref ∧ ∀ id, m.running.get? id ≠ some ref := by
  have accounts := h.accounts hosted
  refine ⟨accounts.tracksAll_iff, fun id ref => accounts.tracked, fun ref => accounts.succeeded,
    fun ref runs kept => accounts.stops runs kept, fun ref member => ?_⟩
  exact ⟨accounts.lost member, fun id found => (accounts.tracked.1 found).2.2 member⟩

/-- A new machine with a backing on offer. -/
def Machine.offering (stopFailure : Option String) : Machine :=
  { Machine.ofConfig .standard with
    backings := Table.empty.insert "kv" ⟨"kv", ⟨0⟩, none, stopFailure⟩ }

/-- The demand to load a module that wants the backing. -/
def backedLoad : Demand (Except Failure (Ref .dictionary)) :=
  .load "a" "a.mod" "module [Impl-Native: \"kv\"] []"

/-- Load a module that wants the backing. -/
def loadBacked (m : Machine) : Option (Except Failure (Ref .dictionary)) × Machine :=
  backedLoad.run (.ofFuel .none 9) 9 m

theorem InService.loadBacked {lost : List (Ref .implementation)} {m : Machine}
    (h : InService .none lost m) (ended : (loadBacked m).1.isSome) :
    InService .none (lost ++ backedLoad.loses m (Wordstream.loadBacked m).2)
      (Wordstream.loadBacked m).2 := by
  obtain ⟨answer, loaded⟩ := Option.isSome_iff_exists.1 ended
  exact h.demand backedLoad (Prod.ext loaded rfl)

/-- The machine in which two modules were loaded under one id. -/
def reloaded : Machine := (loadBacked (loadBacked (.offering none)).2).2

/-- The first of two backings under one id is lost, and the second is tracked. -/
theorem InService.backings_tracked_of_reload :
    ¬ reloaded.TracksAll ∧ reloaded.Runs ⟨0⟩ ∧ (∀ id, reloaded.running.get? id ≠ some ⟨0⟩) ∧
      reloaded.running.get? "a" = some ⟨1⟩ := by
  have offered : InService .none [] (.offering none) := .prepare (.new .standard) rfl
  have first : (Wordstream.loadBacked (.offering none)).1.isSome ∧
      backedLoad.loses (.offering none) (Wordstream.loadBacked (.offering none)).2 = [] := by
    decide +kernel
  have once := offered.loadBacked first.1
  rw [first.2] at once
  have second : (Wordstream.loadBacked (Wordstream.loadBacked (.offering none)).2).1.isSome ∧
      backedLoad.loses (Wordstream.loadBacked (.offering none)).2 reloaded = [⟨0⟩] := by
    decide +kernel
  have twice : InService .none _ reloaded := once.loadBacked second.1
  change InService .none ([] ++ backedLoad.loses _ reloaded) reloaded at twice
  rw [second.2] at twice
  obtain ⟨all, tracked, -, -, gone⟩ := twice.backings_tracked (Discipline.admits_none _)
  obtain ⟨runs, nowhere⟩ := gone ⟨0⟩ (List.mem_singleton_self _)
  refine ⟨fun h => List.cons_ne_nil _ _ (all.1 h), runs, nowhere, (tracked "a" ⟨1⟩).2 ?_⟩
  have last : reloaded.implementations.cells.size = 2 ∧
      (reloaded.implementations.get ⟨1⟩).stopped = false ∧
      (reloaded.implementations.get ⟨1⟩).id = "a" := by decide +kernel
  refine ⟨⟨?_, last.2.1⟩, last.2.2, by decide⟩
  unfold Arena.Has
  rw [last.1]
  exact Nat.one_lt_two

/-- The machine in which the stop of a backing has failed. -/
def stuck : Option (Except Failure Unit) × Machine :=
  (Demand.stop "a").run (.ofFuel .none 9) 9 (loadBacked (.offering (some "stuck"))).2

/-- A backing whose stop has failed runs on, and is tracked no longer. -/
theorem failed_stop_loses_backing : ¬ stuck.2.TracksAll := by
  have runs : stuck.2.implementations.cells.size = 1 ∧
      (stuck.2.implementations.get ⟨0⟩).stopped = false ∧
      (stuck.2.running.get? (stuck.2.implementations.get ⟨0⟩).id) = none := by decide +kernel
  intro all
  have has : stuck.2.implementations.Has ⟨0⟩ := by
    unfold Arena.Has
    rw [runs.1]
    exact Nat.zero_lt_one
  have found := (all _ ⟨0⟩).2 ⟨⟨has, runs.2.1⟩, rfl⟩
  rw [runs.2.2] at found
  cases found

end Wordstream
