import Wordstream.Library.Boot
import Wordstream.Library.Module
import Wordstream.Library.Toolkit
import Wordstream.Proofs.Handover

/-!
# Libraries and modules respect disciplines

Booting, loading modules and the toolkit are made of evaluation, so they respect what evaluation
respects.

## Main results

* `Discipline.Relates.boot`, `Discipline.Relates.loadFile` — booting, and loading modules
* `Discipline.admits_none`, `Discipline.admits_toolkit` — hosts that respect every discipline, and
  every lax one
-/

namespace Wordstream

namespace Machine

theorem marginal_coreTable : Marginal coreTable := by
  unfold coreTable
  generalize Table.empty = table
  induction CoreFunction.all generalizing table with
  | nil => exact .result table
  | cons function rest ih =>
    exact Marginal.newId.andThen fun id =>
      ih (table.insert function.name (.native ⟨id, .core function⟩))

theorem slots_coreTable (m : Machine) : (coreTable m).2.slots = m.slots := by
  unfold coreTable
  generalize Table.empty = table
  induction CoreFunction.all generalizing table m with
  | nil => rfl
  | cons function rest ih =>
    exact ih m.newId.2 (table.insert function.name (.native ⟨m.newId.1, .core function⟩))

/-- The core library holds functions only. -/
theorem isSuspension_coreTable (m : Machine) :
    ∀ entry ∈ (coreTable m).1.entries, entry.2.isSuspension = false := by
  have before : ∀ entry ∈ (Table.empty : Dictionary).entries, entry.2.isSuspension = false :=
    fun _ mem => absurd mem List.not_mem_nil
  unfold coreTable
  generalize (Table.empty : Dictionary) = table at before ⊢
  induction CoreFunction.all generalizing table m with
  | nil => exact before
  | cons function rest ih =>
    refine ih _ _ fun entry mem => ?_
    rcases Table.mem_entries_insert mem with rfl | mem
    · rfl
    · exact before entry mem

/-- The procedures that wrap functions, defined one after the other. -/
def installActions (actions : List (String × Action)) (m : Machine) : Machine :=
  actions.foldl (fun m (name, action) =>
    let (value, m) := m.newLeading action
    m.define name value) m

theorem stirs_installActions (strict : Prop) (actions : List (String × Action)) (m : Machine) :
    m.Stirs strict (installActions actions m) := by
  induction actions generalizing m with
  | nil => exact .refl m
  | cons entry rest ih =>
    have named : m.Stirs strict (m.newLeading entry.2).2 :=
      .aside rfl rfl fun _ _ => rfl
    exact (named.trans (.assign _ _ entry.1 (m.newLeading entry.2).1 fun _ => rfl)).trans (ih _)

theorem relimit_installActions (limit : Nat → Nat) (actions : List (String × Action))
    (m : Machine) :
    installActions actions (m.relimit limit) = (installActions actions m).relimit limit := by
  induction actions generalizing m with
  | nil => rfl
  | cons entry rest ih =>
    exact ih ((m.newLeading entry.2).2.define entry.1 (m.newLeading entry.2).1)

/-- Define the core library, its functions being made already. -/
def installCore (core : Dictionary × Machine) : Machine :=
  (core.2.newDictionary core.1).2.define "core" (.object core.2.dictionaries.next)

theorem stirs_installCore (strict : Prop) (core : Dictionary × Machine)
    (free : ∀ entry ∈ core.1.entries, entry.2.isSuspension = false) :
    core.2.Stirs strict (installCore core) :=
  .trans (.dictionary core.2 core.1 core.2.slots (fun _ => free) fun _ => .inl rfl)
    (.assign _ _ "core" (.object _) fun _ => rfl)

theorem relimit_installCore (limit : Nat → Nat) (core : Dictionary) (m : Machine) :
    installCore (core, m.relimit limit) = (installCore (core, m)).relimit limit := rfl

theorem installLibrary_eq (m : Machine) :
    installLibrary m = installCore (coreTable (installActions bootActions m)) := by
  unfold installLibrary installActions
  rfl

/-- The library is installed by evaluation's own means. -/
theorem stirs_installLibrary (strict : Prop) (m : Machine) : m.Stirs strict (installLibrary m) := by
  rw [installLibrary_eq]
  refine (stirs_installActions strict bootActions m).trans ?_
  exact (marginal_coreTable.stirs strict fun index _ => by rw [slots_coreTable]).trans
    (stirs_installCore strict _ (isSuspension_coreTable _))

theorem relimit_installLibrary (limit : Nat → Nat) (m : Machine) :
    installLibrary (m.relimit limit) = (installLibrary m).relimit limit := by
  rw [installLibrary_eq, installLibrary_eq, relimit_installActions, marginal_coreTable.relimit,
    relimit_installCore]

theorem bearings_coreTable (m : Machine) : (coreTable m).2.bearings = m.bearings :=
  marginal_coreTable.bearings_eq m

/-- Installing the library concerns neither calls nor signals. -/
theorem bearings_installLibrary (m : Machine) : (installLibrary m).bearings = m.bearings := by
  unfold installLibrary
  refine (bearings_coreTable _).trans ?_
  induction bootActions generalizing m with
  | nil => rfl
  | cons entry rest ih =>
    rw [List.foldl_cons, ih]
    rfl

end Machine

namespace Discipline

section Alone

variable (D : Discipline)

theorem allows_noteEvent (event : String) : D.Allows (noteEvent event) :=
  D.allows_change (fun _ => .aside rfl rfl fun _ _ => rfl) fun _ => rfl

/-- A discipline that does not mind which backings run. -/
structure Tracks : Prop where
  track (id : String) (backing : Backing) :
    D.Allows (modify (·.track id backing) : Run Machine PUnit)
  untrack (id : String) :
    D.Allows (modify fun m => { m with running := m.running.erase id } : Run Machine PUnit)
  markStopped (ref : Ref .implementation) :
    D.Allows (modify (·.markStopped ref) : Run Machine PUnit)

variable {D} (tracks : D.Tracks)

include tracks

theorem allows_startBacking (id name : String) : D.Allows (startBacking id name) := by
  refine D.read (fun _ => rfl) fun m _ => ?_
  split
  · exact D.allows_throw fun _ => rfl
  · refine (D.allows_noteEvent _).andThen fun _ _ => ?_
    split
    · exact D.fits_refuse (fun _ => rfl) _ _
    · exact (tracks.track id _).andThen fun _ _ => D.allows_done _ fun _ => trivial

theorem allows_offerBacking (id name : String) (description : Ref .dictionary) :
    D.Allows (offerBacking id name description) := by
  refine D.read (fun _ => rfl) fun m _ => ?_
  split
  · exact D.allows_done _ fun _ => nofun
  · refine (allows_startBacking tracks id _).andThen fun _ _ =>
      D.allows_done _ fun _ entry mem => ?_
    obtain rfl := List.mem_singleton.1 mem
    rfl
  · exact D.allows_throw fun _ => rfl

theorem allows_stopTracked (id : String) (ref : Ref .implementation) :
    D.Allows (stopTracked id ref) := by
  refine D.read (fun _ => rfl) fun m _ => (tracks.untrack id).andThen fun _ _ =>
    (D.allows_noteEvent _).andThen fun _ _ => ?_
  split
  · exact D.allows_throw fun _ => rfl
  · exact tracks.markStopped ref

theorem allows_stopModule (id : String) : D.Allows (stopModule id) := by
  refine D.read (fun _ => rfl) fun m _ => ?_
  split
  · exact D.allows_throw fun _ => rfl
  · exact allows_stopTracked tracks id _

end Alone

/-- A lax discipline does not mind suspensions that are used as values. -/
structure IsLax (D : Discipline) : Prop where
  lax : ¬ D.strict
  fits {σ : Type} [HasMachine σ] {action action' : Run σ Value} (h : D.Yields action action') :
    D.Fits action action'

namespace IsLax

variable {D : Discipline} (lax : D.IsLax)

include lax

theorem allows_done {σ α : Type} [HasMachine σ] [Graded α] (result : α) :
    D.Allows (pure result : Run σ α) :=
  D.allows_done result fun strict => absurd strict lax.lax

theorem newSource (source : Source) : D.Allows (newSource source) :=
  lax.fits (D.suspend (.source source) rfl (fun strict => absurd strict lax.lax) _ _)

end IsLax

namespace Relates

variable {D : Discipline} {engine engine' : Engine} (h : D.Relates engine engine')

include h

theorem boot : D.Fits (boot engine) (boot engine') :=
  .andThen (D.allows_change (fun m => m.stirs_installLibrary _)
    fun m => m.relimit_installLibrary _) fun _ _ =>
      (h.evaluate bootScript).andThen fun _ _ => D.allows_done _ fun _ => trivial

theorem loadText (tracks : D.Tracks) (id name text : String) :
    D.Fits (loadText engine id name text) (loadText engine' id name text) := by
  unfold Wordstream.loadText
  split
  · exact D.allows_throw fun _ => rfl
  case h_2 nodes _ =>
    refine .andThen (D.allows_load nodes) fun code _ => ?_
    split
    · exact D.allows_throw fun _ => rfl
    · exact (h.executeInto _ .empty fun _ => nofun).andThen fun _ _ =>
        (allows_offerBacking tracks id name _).andThen fun _ free => h.executeInto _ _ free

theorem loadFile (tracks : D.Tracks) (files : FileTree) (id path : String) :
    D.Fits (loadFile engine files id path) (loadFile engine' files id path) := by
  refine D.read (fun _ => rfl) fun m _ => ?_
  dsimp only
  split
  · exact D.allows_throw fun _ => rfl
  · exact h.loadText tracks id _ _

theorem readRest (bound : Nat) : D.Fits (readRest engine bound) (readRest engine' bound) := by
  induction bound with
  | zero => exact D.allows_done _ fun _ => nofun
  | succ bound ih =>
    refine D.read (fun _ => rfl) fun reader _ => ?_
    split
    · exact D.allows_done _ fun _ => nofun
    · exact h.whole.andThen fun _ free => ih.andThen fun _ frees =>
        D.allows_done _ fun strict => List.forall_mem_cons.2 ⟨free strict, frees strict⟩

section Toolkit

variable (lax : D.IsLax)

include lax

theorem toolkitNative (name : String) (args : List Value) :
    D.Fits (toolkitNative engine name args) (toolkitNative engine' name args) := by
  have failing : D.Allows (withFailure args) := by
    refine D.read (fun m => ?_) fun _ _ => lax.allows_done _
    simp only [HasMachine.change, Machine.display_relimit]
  refine D.read (fun m => ?_) fun m _ => ?_
  · simp only [HasMachine.change, joinedText, Machine.display_relimit]
    rfl
  split
  · exact lax.allows_done _
  · exact lax.allows_done _
  · exact lax.allows_done _
  · exact lax.allows_done _
  · exact lax.allows_done _
  · exact lax.allows_done _
  · exact D.allows_throw fun _ => rfl
  · exact D.allows_throw fun _ => rfl
  · exact lax.allows_done _
  · exact lax.allows_done _
  · exact lax.allows_done _
  · split
    · exact h.evaluate _
    · exact D.allows_throw fun _ => rfl
  · exact lax.newSource _
  · exact lax.newSource _
  · exact lax.newSource _
  · exact failing.andThen fun _ _ => lax.newSource _
  · exact failing.andThen fun _ _ => lax.newSource _
  · exact D.allows_throw fun _ => rfl

theorem toolkitAction (name : String) :
    D.Yields (toolkitAction engine name) (toolkitAction engine' name) := by
  unfold Wordstream.toolkitAction
  split
  · exact D.yield (D.read (fun _ => rfl) fun _ _ => lax.allows_done _)
  · refine D.yield (h.operand.andThen fun _ _ => h.operand.andThen fun _ _ =>
      D.read (fun reader => ?_) fun _ _ => lax.allows_done _)
    simp only [HasMachine.change, joinedText, Machine.display_relimit]
  · exact D.yield ((lax.fits h.deferred).andThen fun _ _ => lax.allows_done _)
  · refine D.yield (D.read (fun _ => rfl) fun _ _ => (h.readRest _).andThen fun _ _ =>
      D.read (fun reader => ?_) fun _ _ => lax.allows_done _)
    simp only [HasMachine.change, joinedText, Machine.display_relimit]
  · exact D.yield (D.allows_throw fun _ => rfl)

omit h in
theorem toolkitOperator (engine engine' : Engine) (name : String) (left right : Value) :
    D.Yields (toolkitOperator engine name left right)
      (toolkitOperator engine' name left right) := by
  unfold Wordstream.toolkitOperator
  split
  · refine D.yield (D.read (fun reader => ?_) fun _ _ => lax.allows_done _)
    simp only [HasMachine.change, joinedText, Machine.display_relimit]
  · exact D.yieldOnMachine (D.yield (lax.newSource _))
  · exact D.yield (D.allows_throw fun _ => rfl)

end Toolkit

end Relates

/-- A host that offers nothing respects every discipline. -/
theorem admits_none (D : Discipline) : D.Admits .none where
  native _ _ _ _ := D.allows_throw fun _ => rfl
  action _ _ := D.yield (D.allows_throw fun _ => rfl)
  operator _ _ _ _ _ _ := D.yield (D.allows_throw fun _ => rfl)

/-- The toolkit respects every lax discipline. -/
theorem admits_toolkit {D : Discipline} (lax : D.IsLax) : D.Admits toolkit where
  native h name args _ := h.toolkitNative lax name args
  action h name := h.toolkitAction lax name
  operator {engine engine'} _ name left right _ _ :=
    Relates.toolkitOperator lax engine engine' name left right

end Discipline

/-- Going by a congruence is lax. -/
theorem Congruence.Practice.isLax {C : Congruence} (P : C.Practice) : P.discipline.IsLax where
  lax := id
  fits h := h

end Wordstream
