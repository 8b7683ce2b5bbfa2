import Wordstream.Proofs.Demand

/-!
# The exports of modules

Evaluating a module binds the words of its body to a new dictionary, its exports, and runs the
body. A body is bound where it stands: when the same body is evaluated once more while it runs,
its words go over to the newer exports, and what is assigned from then on is missing in the older
ones.

That is the only way to lose an export. Evaluation takes nothing out of a dictionary and binds a
word that there is already to a new dictionary only; and reading leaves no set-word behind without
having carried it out.

## Main results

* `Engine.retains_ofFuel` — evaluation retains what words stand for
* `Engine.discharges_ofFuel` — evaluation carries out the set-words that it reads past
* `Host.Discharges.module_exports` — a set-word of a module has its entry among the exports, or
  belongs to newer ones
-/

namespace Wordstream

open HasMachine (machine)

namespace Machine

/-! ## Retaining -/

/-- What words stand for is retained: dictionaries lose no entry, and a site is bound as it was or
to a dictionary that is new. -/
structure Retains (m m' : Machine) : Prop where
  dictionary {ref : Ref .dictionary} (has : m.dictionaries.Has ref) : m'.dictionaries.Has ref
  entry {ref : Ref .dictionary} {name : String} (has : m.dictionaries.Has ref)
    (there : (m.dictionary ref).contains name) : (m'.dictionary ref).contains name
  slot {slot : SlotId} (old : slot.index < m.slots.size) : slot.index < m'.slots.size
  binding {slot : SlotId} (old : slot.index < m.slots.size) :
    m'.binding? slot = m.binding? slot ∨
      ∃ ref, m'.binding? slot = some (.dictionary ref) ∧ ¬ m.dictionaries.Has ref

theorem binding?_eq (m : Machine) (slot : SlotId) :
    m.binding? slot = m.slots[slot.index]?.getD none := Array.getD_eq_getD_getElem? ..

namespace Retains

variable {m m' m'' : Machine}

theorem of_wording (same : m'.wording = m.wording) : m.Retains m' := by
  have slots : m'.slots = m.slots := congrArg Prod.fst same
  have dictionaries : m'.dictionaries = m.dictionaries := congrArg Prod.snd same
  refine ⟨fun has => dictionaries ▸ has, fun _ there => ?_, fun old => slots ▸ old,
    fun _ => .inl ?_⟩
  · rwa [Machine.dictionary, dictionaries]
  · rw [binding?, binding?, slots]

theorem refl (m : Machine) : m.Retains m := .of_wording rfl

theorem trans (first : m.Retains m') (second : m'.Retains m'') : m.Retains m'' where
  dictionary has := second.dictionary (first.dictionary has)
  entry has there := second.entry (first.dictionary has) (first.entry has there)
  slot old := second.slot (first.slot old)
  binding old := by
    rcases second.binding (first.slot old) with same | ⟨ref, bound, new⟩
    · rw [same]
      exact first.binding old
    · exact .inr ⟨ref, bound, fun has => new (first.dictionary has)⟩

/-- New slots change nothing about those that there are. -/
theorem of_adds (dictionaries : m'.dictionaries = m.dictionaries) (adds : m.AddsSlots m') :
    m.Retains m' where
  dictionary has := dictionaries ▸ has
  entry _ there := by rwa [Machine.dictionary, dictionaries]
  slot old := Nat.lt_of_lt_of_le old adds.size_le
  binding old := .inl (by rw [binding?_eq, binding?_eq, adds _ old])

/-- An assignment takes nothing out of a dictionary. -/
theorem assign (m : Machine) (ref : Ref .dictionary) (name : String) (value : Value) :
    m.Retains (m.assign ref name value) where
  dictionary has := has.set ref _
  entry {other key} _ there := by
    have read : (m.assign ref name value).dictionary other =
        if other = ref then (m.dictionary ref).insert name value else m.dictionary other :=
      Arena.get_set ..
    rw [read]
    split
    · next same =>
      subst same
      rw [Table.contains, Table.get?_insert]
      split
      · rfl
      · exact there
    · exact there
  slot old := old
  binding _ := .inl rfl

/-- A new dictionary is no dictionary that there is, and only to this one are sites bound. -/
theorem newScope (m : Machine) (table : Dictionary) {slots : Array (Option Binding)}
    (binds : m.BindsNext slots) :
    m.Retains { m with dictionaries := m.dictionaries.alloc table, slots := slots } where
  dictionary has := has.alloc table
  entry {ref _} has there := by
    change ((m.dictionaries.alloc table).get ref).contains _
    rw [Arena.get_alloc, if_neg has.ne_next]
    exact there
  slot {slot} old := by
    refine Decidable.byContradiction fun beyond => ?_
    rcases binds slot.index with same | bound
    · rw [Array.getElem?_eq_none (Nat.le_of_not_lt beyond), Array.getElem?_eq_getElem old] at same
      cases same
    · rw [Array.getElem?_eq_none (Nat.le_of_not_lt beyond)] at bound
      cases bound
  binding {slot} _ := by
    rw [binding?_eq, binding?_eq]
    rcases binds slot.index with same | bound
    · exact .inl (congrArg (Option.getD · none) same)
    · exact .inr ⟨_, congrArg (Option.getD · none) bound, fun has => has.ne_next rfl⟩

end Retains

/-- What evaluation does by itself retains what words stand for. -/
theorem Stirs.retains {strict : Prop} {m m' : Machine} (h : m.Stirs strict m') : m.Retains m' := by
  induction h with
  | aside _ holdings adds => exact .of_adds (congrArg Prod.fst holdings) adds
  | assign m ref name value => exact .assign m ref name value
  | dictionary m table slots _ binds => exact .newScope m table binds
  | cell | define | store | scene => exact .of_wording rfl
  | trans _ _ first second => exact first.trans second

end Machine

/-- What words stand for is retained, wherever evaluation stops. -/
def retaining : Trend where
  Holds := Machine.Retains
  trans := .trans
  stir h := h.retains
  arrange same _ := .of_wording (congrArg (·.2.1) same)
  enlist value m := .of_wording (wording_autoResume value m)
  enter _ _ _ := .of_wording rfl
  leave m := by
    unfold Machine.leave
    cases m.calls <;> exact .of_wording rfl
  mount _ _ _ := .of_wording rfl
  dismount _ _ _ _ := .of_wording rfl

/-- Evaluation retains what words stand for. -/
def retention : Modest := retaining.modest

/-- Evaluation with some fuel retains what words stand for. -/
theorem Engine.retains_ofFuel {host : Host} (hosted : retention.discipline.Admits host)
    (fuel : Nat) : retention.discipline.Relates (ofFuel host fuel) (ofFuel host fuel) :=
  Trend.relates_ofFuel hosted fuel

/-- What a computation that has ended has retained. -/
theorem retains_of_ended {α : Type} {action : Effect Machine α} (h : retention.Allows action)
    {m m' : Machine} {result : Option α} (ended : action m = (result, m')) : m.Retains m' :=
  Trend.of_run h ended

/-! ## Set-words that are read past -/

/-- A set-word has been carried out as far as some exports are concerned: if it belongs to them,
they have an entry for it. Nothing is said of other items. -/
def Item.IsDone (exports : Ref .dictionary) (m : Machine) : Item → Prop
  | .word .set symbol slot => slot.index < m.slots.size ∧
      (m.binding? slot = some (.dictionary exports) → (m.dictionary exports).contains symbol)
  | _ => True

/-- What has been carried out stays so. -/
theorem Machine.Retains.isDone {m m' : Machine} (h : m.Retains m') {exports : Ref .dictionary}
    (has : m.dictionaries.Has exports) {item : Item} (done : item.IsDone exports m) :
    item.IsDone exports m' := by
  unfold Item.IsDone at done ⊢
  split
  · obtain ⟨old, there⟩ := done
    refine ⟨h.slot old, fun bound => h.entry has (there ?_)⟩
    rcases h.binding old with same | ⟨ref, other, new⟩
    · rw [← same, bound]
    · rw [bound] at other
      cases other
      exact absurd has new
  · trivial

/-- Reading has gone on, and has carried out all that it has passed. -/
structure Reader.Advances (exports : Ref .dictionary) (reader reader' : Reader) : Prop where
  retains : reader.machine.Retains reader'.machine
  passed : ∃ items, reader.cursor.rest = items ++ reader'.cursor.rest ∧
    ∀ item ∈ items, item.IsDone exports reader'.machine

namespace Reader.Advances

variable {exports : Ref .dictionary} {reader reader' reader'' : Reader}

/-- What is done with the machine alone passes nothing. -/
theorem of_retains (retains : reader.machine.Retains reader'.machine)
    (same : reader'.cursor = reader.cursor) : reader.Advances exports reader' :=
  ⟨retains, [], by rw [same]; rfl, nofun⟩

theorem trans (has : reader.machine.dictionaries.Has exports)
    (first : reader.Advances exports reader') (second : reader'.Advances exports reader'') :
    reader.Advances exports reader'' := by
  obtain ⟨retains, items, cut, done⟩ := first
  obtain ⟨retains', items', cut', done'⟩ := second
  refine ⟨retains.trans retains', items ++ items', by rw [cut, cut', List.append_assoc],
    fun item mem => ?_⟩
  rcases List.mem_append.1 mem with mem | mem
  · exact retains'.isDone (retains.dictionary has) (done item mem)
  · exact done' item mem

theorem length_le (h : reader.Advances exports reader') :
    reader'.cursor.rest.length ≤ reader.cursor.rest.length := by
  obtain ⟨_, items, cut, _⟩ := h
  rw [cut, List.length_append]
  exact Nat.le_add_left _ _

end Reader.Advances

section Carrying

variable (exports : Ref .dictionary) {α β : Type}

/-- A computation carries out the set-words that it reads past from some place on, if it gives a
result. -/
def DischargesFrom (reader : Reader) (action : Run Reader α) : Prop :=
  ∀ result reader', reader.machine.dictionaries.Has exports →
    action reader = (some (.ok result), reader') → reader.Advances exports reader'

/-- A computation carries out the set-words that it reads past, wherever it starts. -/
def Discharges (action : Run Reader α) : Prop := ∀ reader, DischargesFrom exports reader action

/-- A computation reads past something, and carries out the set-words that it reads past. -/
structure Takes (action : Run Reader α) : Prop where
  discharges : Discharges exports action
  less {reader reader' : Reader} {result : α} (has : reader.machine.dictionaries.Has exports)
    (ended : action reader = (some (.ok result), reader')) :
    reader'.cursor.rest.length < reader.cursor.rest.length

variable {exports}

theorem DischargesFrom.done (reader : Reader) (result : α) :
    DischargesFrom exports reader (pure result : Run Reader α) := by
  intro result reader' _ ended
  cases ended
  exact .of_retains (.refl _) rfl

namespace Discharges

theorem done (result : α) : Discharges exports (pure result : Run Reader α) :=
  fun reader => .done reader result

theorem throw (failure : Failure) :
    Discharges exports (MonadExcept.throw failure : Run Reader α) := by
  intro reader result reader' _ ended
  cases ended

theorem andThen {first : Run Reader α} {next : α → Run Reader β} (before : Discharges exports first)
    (after : ∀ result, Discharges exports (next result)) : Discharges exports (first >>= next) := by
  intro reader result reader' has ended
  obtain ⟨given, middle, ran, ended⟩ := Run.of_bind ended
  have advanced := before reader given middle has ran
  exact advanced.trans has
    (after given middle result reader' (advanced.retains.dictionary has) ended)

theorem read {next : Reader → Run Reader α}
    (after : ∀ reader, DischargesFrom exports reader (next reader)) :
    Discharges exports (get >>= next : Run Reader α) :=
  fun reader result reader' has ended => after reader result reader' has ended

/-- What is done with the machine alone passes nothing. -/
theorem onMachine {action : Run Machine α} (h : retention.Allows action) :
    Discharges exports (onMachine action) := by
  intro reader result reader' _ ended
  rw [onMachine_apply] at ended
  obtain ⟨-, rfl⟩ := Prod.mk.inj ended
  exact .of_retains (h reader.machine) rfl

theorem keepResult (value : Value) : Discharges exports (keepResult value) :=
  .andThen (.onMachine fun _ => .of_wording rfl) fun _ => .done _

end Discharges

theorem Takes.andThen {first : Run Reader α} {next : α → Run Reader β}
    (before : Takes exports first)
    (after : ∀ result, Discharges exports (next result)) : Takes exports (first >>= next) where
  discharges := before.discharges.andThen after
  less {reader reader' _} has ended := by
    obtain ⟨given, middle, ran, ended⟩ := Run.of_bind ended
    have has' := (before.discharges reader given middle has ran).retains.dictionary has
    exact Nat.lt_of_le_of_lt (after given middle _ reader' has' ended).length_le
      (before.less has ran)

end Carrying

/-- What is read with an engine, and what its host does, carries out the set-words that are read
past. -/
structure Engine.Discharges (exports : Ref .dictionary) (engine : Engine) : Prop where
  retains : retention.discipline.Relates engine engine
  read (reading : Reading) : Takes exports (engine.read reading)
  hostAction (name : String) : Wordstream.Discharges exports (engine.hostAction name)
  hostOperator (name : String) (left right : Value) :
    Wordstream.Discharges exports (engine.hostOperator name left right)

namespace Engine.Discharges

variable {exports : Ref .dictionary} {engine : Engine} (h : engine.Discharges exports)

include h

/-! ### Procedures -/

theorem reads (reading : Reading) : Wordstream.Discharges exports (engine.read reading) :=
  (h.read reading).discharges

theorem readArgs (count : Nat) : Wordstream.Discharges exports (readArgs engine count) := by
  induction count with
  | zero => exact .done _
  | succ count ih => exact (h.reads .whole).andThen fun _ => ih.andThen fun _ => .done _

theorem defineNative : Wordstream.Discharges exports (defineNative engine) :=
  (h.reads .whole).andThen fun params =>
    .andThen (.onMachine (retention.discipline.allows_expectBlock _ params)) fun params =>
      (h.reads .whole).andThen fun native =>
        .andThen (.onMachine (retention.discipline.allows_expectNative _ native)) fun _ =>
          .andThen (.onMachine (retention.discipline.allows_arityOf _ params)) fun _ =>
            .onMachine fun _ => .of_wording rfl

theorem defineOperator : Wordstream.Discharges exports (defineOperator engine) := by
  refine (h.reads .whole).andThen fun params =>
    .andThen (.onMachine (retention.discipline.allows_expectBlock _ params)) fun params =>
      (h.reads .whole).andThen fun native =>
        .andThen (.onMachine (retention.discipline.allows_expectNative _ native)) fun _ =>
          .andThen (.onMachine (retention.discipline.allows_arityOf _ params)) fun arity => ?_
  dsimp only
  split
  · exact .andThen (.throw _) fun _ => .onMachine fun _ => .of_wording rfl
  · exact .onMachine fun _ => .of_wording rfl

theorem defineAsync : Wordstream.Discharges exports (defineAsync engine) :=
  (h.reads .whole).andThen fun params =>
    .andThen (.onMachine (retention.discipline.allows_expectBlock _ params)) fun params =>
      (h.reads .whole).andThen fun mime =>
        .andThen (.onMachine (retention.discipline.allows_expectText _ mime)) fun _ =>
          (h.reads .whole).andThen fun native =>
            .andThen (.onMachine (retention.discipline.allows_expectNative _ native)) fun _ =>
              .andThen (.onMachine (retention.discipline.allows_arityOf _ params)) fun _ =>
                .onMachine fun _ => .of_wording rfl

theorem performPipe : Wordstream.Discharges exports (performPipe engine) := by
  refine (h.reads .deferred).andThen fun left => (h.reads .deferred).andThen fun right => ?_
  split
  · exact .andThen (.onMachine (Modest.pipe h.retains.deliver _ _)) fun _ => .done _
  · exact .throw _

theorem perform (action : Action) : Wordstream.Discharges exports (perform engine action) := by
  cases action with
  | defineNative => exact h.defineNative
  | defineOperator => exact h.defineOperator
  | defineAsync => exact h.defineAsync
  | pipe => exact h.performPipe
  | native arity native =>
    exact (h.readArgs arity).andThen fun args => .onMachine (h.retains.call native args nofun)
  | async arity mime native =>
    exact (h.readArgs arity).andThen fun args =>
      .onMachine (retention.discipline.suspend (.call native args) rfl nofun true _)
  | frame ref =>
    exact .read fun reader => ((h.readArgs _).andThen fun args =>
      .onMachine (retention.frame h.retains.execute ref args)) reader
  | streaming definition =>
    exact (h.readArgs _).andThen fun args =>
      .onMachine (retention.discipline.suspendBody definition args nofun)
  | emit scene =>
    exact (h.reads .whole).andThen fun value =>
      .onMachine (retention.discipline.write h.retains.deliver scene value nofun)
  | host name => exact h.hostAction name

theorem operate (left right : Value) (action : OperatorAction) :
    Wordstream.Discharges exports (operate engine left right action) := by
  cases action with
  | native native => exact .onMachine (h.retains.call native _ nofun)
  | host name => exact h.hostOperator name left right

theorem performProcedure (procedure : Procedure) :
    Wordstream.Discharges exports (performProcedure engine procedure) := by
  cases procedure with
  | leading _ action => exact h.perform action
  | operator _ action =>
    exact (h.reads .operand).andThen fun left => (h.reads .operand).andThen fun right =>
      h.operate left right action

theorem invoke (value : Value) : Wordstream.Discharges exports (invoke engine value) := by
  cases value with
  | procedure procedure => exact h.performProcedure procedure
  | object ref =>
    refine .read fun reader => ?_
    split
    · exact h.performProcedure _ reader
    · exact .done reader _
  | _ => exact .done _

/-! ### Items -/

theorem evaluateWord (kind : WordKind) (site : Site) :
    Wordstream.Discharges exports (evaluateWord engine kind site) := by
  cases kind with
  | quote => exact .done _
  | get => exact .onMachine (retention.discipline.allows_siteGet site)
  | set =>
    exact (h.reads .whole).andThen fun value =>
      .andThen (.onMachine (retention.discipline.allows_siteSet site value nofun)) fun _ => .done _
  | plain =>
    exact .andThen (.onMachine (retention.discipline.allows_siteGet site)) fun value =>
      h.invoke value

theorem evaluatePath (kind : WordKind) (head : Site) (fields : List String) :
    Wordstream.Discharges exports (evaluatePath engine kind head fields) := by
  cases kind with
  | quote => exact .done _
  | get => exact .onMachine (retention.discipline.allows_project head fields)
  | set =>
    exact (h.reads .whole).andThen fun value =>
      .andThen (.onMachine (retention.discipline.allows_assignField head fields value nofun))
        fun _ => .done _
  | plain =>
    exact .andThen (.onMachine (retention.discipline.allows_project head fields))
      fun value => h.invoke value

theorem evaluateItem (item : Item) : Wordstream.Discharges exports (evaluateItem engine item) := by
  cases item with
  | word kind symbol slot => exact h.evaluateWord kind _
  | path kind head fields slot => exact h.evaluatePath kind _ fields
  | group bracket id items =>
    cases bracket with
    | square => exact .done _
    | round => exact .onMachine (h.retains.execute _)
  | literal value => exact .done _
  | refinement name => exact .throw _

end Engine.Discharges

/-- Giving a symbol a value binds nothing. -/
theorem Binding.slots_set (binding : Binding) (symbol : String) (value : Value) (m : Machine) :
    (binding.set symbol value m).2.slots = m.slots := by
  cases binding with
  | dictionary | input | output => rfl
  | frameSlot frame index =>
    change ((ite _ _ _ : Run Machine Unit) m).2.slots = _
    split <;> rfl
  | cell scene index =>
    rw [Binding.setCell_apply]
    cases m.scenes.get scene with
    | none => rfl
    | some ref =>
      dsimp only
      split <;> rfl

/-- A site that is given a value is bound. -/
theorem Site.exists_binding_of_set {site : Site} {value : Value} {m m' : Machine}
    (ended : site.set value m = (some (.ok ()), m')) :
    ∃ binding, m.binding? site.slot = some binding ∧
      binding.set site.symbol value m = (some (.ok ()), m') := by
  obtain ⟨binding, middle, bound, ended⟩ := Run.of_bind ended
  rw [Site.binding_apply] at bound
  cases found : m.binding? site.slot with
  | none =>
    rw [found] at bound
    cases bound
  | some other =>
    rw [found] at bound
    cases bound
    exact ⟨_, rfl, ended⟩

/-- A set-word whose site has been given a value is carried out. -/
theorem isDone_of_siteSet (exports : Ref .dictionary) {site : Site} {value : Value} {m m' : Machine}
    (ended : site.set value m = (some (.ok ()), m')) :
    (Item.word .set site.symbol site.slot).IsDone exports m' := by
  obtain ⟨binding, bound, ended⟩ := Site.exists_binding_of_set ended
  have slots : m'.slots = m.slots := by
    have kept := binding.slots_set site.symbol value m
    rwa [ended] at kept
  have same : m'.binding? site.slot = some binding := by rw [Machine.binding?, slots, ← bound]; rfl
  refine ⟨?_, fun exported => ?_⟩
  · rw [slots]
    refine Decidable.byContradiction fun beyond => ?_
    rw [Machine.binding?_eq, Array.getElem?_eq_none (Nat.le_of_not_lt beyond)] at bound
    cases bound
  · rw [same] at exported
    cases exported
    cases ended
    change ((m.dictionaries.set exports _).get exports).contains site.symbol
    rw [Arena.get_set, if_pos rfl, Table.contains, Table.get?_insert, if_pos rfl]
    rfl

/-- An item that has given a value is carried out. -/
theorem isDone_evaluateItem (exports : Ref .dictionary) {engine : Engine} {item : Item}
    {reader reader' : Reader} {value : Value}
    (ended : evaluateItem engine item reader = (some (.ok value), reader')) :
    item.IsDone exports reader'.machine := by
  unfold Item.IsDone
  split
  · next symbol slot =>
    obtain ⟨value, middle, _, ended⟩ := Run.of_bind ended
    obtain ⟨⟨⟩, middle', assigned, ended⟩ := Run.of_bind ended
    cases ended
    rw [onMachine_apply] at assigned
    obtain ⟨given, rfl⟩ := Prod.mk.inj assigned
    exact isDone_of_siteSet exports (Prod.ext given rfl)
  · trivial

/-- An operator is no set-word, so that stepping over it leaves nothing to be carried out. -/
theorem DischargesFrom.stepOperator {exports : Ref .dictionary} {α : Type} {kind : WordKind}
    {symbol : String} {slot : SlotId} {tail : List Item} (operator : isOperator kind symbol)
    {reader : Reader} (rest : reader.cursor.rest = .word kind symbol slot :: tail)
    {next : Unit → Run Reader α} (after : Discharges exports (next ())) :
    DischargesFrom exports reader (step >>= next) := by
  intro result reader' has ended
  have stepped : reader.Advances exports ⟨reader.machine, reader.cursor.forward⟩ := by
    refine ⟨.refl _, [.word kind symbol slot], ?_, List.forall_mem_singleton.2 ?_⟩
    · rw [Cursor.forward, rest]
      rfl
    · cases kind with
      | set => cases operator
      | _ => trivial
  exact stepped.trans has (after _ result reader' has ended)

namespace Engine.Discharges

variable {exports : Ref .dictionary} {engine : Engine} (h : engine.Discharges exports)

include h

/-! ### Reading -/

theorem fetch : Takes exports (fetch engine) := by
  have fetched {reader reader' : Reader} {value : Value}
      (has : reader.machine.dictionaries.Has exports)
      (ended : Wordstream.fetch engine reader = (some (.ok value), reader')) :
      reader.Advances exports reader' ∧
        reader'.cursor.rest.length < reader.cursor.rest.length := by
    rw [fetch_apply] at ended
    cases rest : reader.cursor.rest with
    | nil =>
      rw [rest] at ended
      cases ended
    | cons item tail =>
      rw [rest] at ended
      dsimp only at ended
      have advanced :=
        h.evaluateItem item ⟨reader.machine, reader.cursor.forward⟩ _ _ has ended
      have shorter := advanced.length_le
      obtain ⟨retains, items, cut, done⟩ := advanced
      have forward : reader.cursor.forward.rest = tail := congrArg List.tail rest
      dsimp only at cut shorter
      rw [forward] at cut shorter
      refine ⟨⟨retains, item :: items, by rw [rest, cut]; rfl, ?_⟩, Nat.lt_succ_of_le shorter⟩
      exact List.forall_mem_cons.2 ⟨isDone_evaluateItem exports ended, done⟩
  exact ⟨fun _ _ _ has ended => (fetched has ended).1, fun has ended => (fetched has ended).2⟩

theorem readOperand : Takes exports (readOperand engine) :=
  h.fetch.andThen fun value =>
    .andThen (.onMachine (retention.enlist value)) fun _ => .keepResult _

theorem readDeferred : Takes exports (readDeferred engine) :=
  h.fetch.andThen fun _ => .keepResult _

theorem applyOperator (site : Site) (left : Value) :
    Wordstream.Discharges exports (applyOperator engine site left) := by
  refine .andThen (.onMachine (retention.discipline.allows_siteGet site)) fun value => ?_
  split
  · exact (h.reads .operand).andThen fun right => h.operate left right _
  · exact (h.reads .operand).andThen fun right => .onMachine (h.retains.call _ _ nofun)
  · exact .throw _

theorem readOperators (bound : List Item) (value : Value) :
    Wordstream.Discharges exports (readOperators engine bound value) := by
  induction bound generalizing value with
  | nil => exact .done _
  | cons _ bound ih =>
    refine .read fun reader => ?_
    split
    · next kind symbol slot tail rest =>
      split
      · next operator =>
        exact .stepOperator operator rest ((h.applyOperator _ value).andThen fun value =>
          .andThen (.onMachine (retention.enlist value)) fun value =>
            (Wordstream.Discharges.keepResult value).andThen fun value => ih value)
      · exact .done reader _
    · exact .done reader _

theorem readWhole : Takes exports (readWhole engine) :=
  h.readOperand.andThen fun value => .read fun reader => h.readOperators _ value reader

theorem readValue (reading : Reading) : Takes exports (readValue engine reading) := by
  cases reading with
  | whole => exact h.readWhole
  | operand => exact h.readOperand
  | deferred => exact h.readDeferred

/-- Reading values to the end carries out all set-words. -/
theorem readToEnd (bound : Nat) (last : Value) {reader reader' : Reader} {value : Value}
    (has : reader.machine.dictionaries.Has exports) (enough : reader.cursor.rest.length ≤ bound)
    (ended : Wordstream.readToEnd engine bound last reader = (some (.ok value), reader')) :
    reader.Advances exports reader' ∧ reader'.cursor.rest = [] := by
  induction bound generalizing last reader with
  | zero =>
    cases ended
    exact ⟨.of_retains (.refl _) rfl, List.length_eq_zero_iff.1 (Nat.le_zero.1 enough)⟩
  | succ bound ih =>
    rw [readToEnd_succ] at ended
    split at ended
    · next atEnd =>
      cases ended
      exact ⟨.of_retains (.refl _) rfl, List.isEmpty_iff.1 atEnd⟩
    · obtain ⟨given, middle, read, ended⟩ := Run.of_bind ended
      have advanced := h.reads .whole reader given middle has read
      have less := (h.read .whole).less has read
      obtain ⟨advanced', empty⟩ :=
        ih given (advanced.retains.dictionary has) (by omega) ended
      exact ⟨advanced.trans has advanced', empty⟩

/-- Running code carries out all its set-words. -/
theorem executeCode (code : Code) {m m' : Machine} {value : Value}
    (has : m.dictionaries.Has exports)
    (ended : Wordstream.executeCode engine code m = (some (.ok value), m')) :
    ∀ item ∈ code.items, item.IsDone exports m' := by
  rw [Wordstream.executeCode, withCursor_apply] at ended
  obtain ⟨given, rfl⟩ := Prod.mk.inj ended
  generalize ran : Wordstream.readToEnd engine code.items.length .none ⟨m, .start code⟩ = outcome
    at given
  obtain ⟨result, reader⟩ := outcome
  subst given
  obtain ⟨⟨_, items, cut, done⟩, empty⟩ :=
    h.readToEnd code.items.length .none has (Nat.le_refl _) ran
  rw [empty, List.append_nil] at cut
  exact (show code.items = items from cut) ▸ done

end Engine.Discharges

/-! ## Hosts -/

/-- What a host does retains what words stand for, and carries out the set-words that it reads past,
if evaluation does. -/
structure Host.Discharges (host : Host) : Prop where
  admits : retention.discipline.Admits host
  action {exports : Ref .dictionary} {engine : Engine} (h : engine.Discharges exports)
    (name : String) : Wordstream.Discharges exports (host.action engine name)
  operator {exports : Ref .dictionary} {engine : Engine} (h : engine.Discharges exports)
    (name : String)
    (left right : Value) : Wordstream.Discharges exports (host.operator engine name left right)

/-- A host that offers nothing reads past nothing. -/
theorem Host.discharges_none : Host.none.Discharges where
  admits := retention.discipline.admits_none
  action _ _ := .throw _
  operator _ _ _ _ := .throw _

/-- Reading values to the end, for a procedure of the toolkit. -/
theorem Engine.Discharges.readRest {exports : Ref .dictionary} {engine : Engine}
    (h : engine.Discharges exports) (bound : Nat) :
    Wordstream.Discharges exports (readRest engine bound) := by
  induction bound with
  | zero => exact .done _
  | succ bound ih =>
    refine .read fun reader => ?_
    split
    · exact .done reader _
    · exact ((h.reads .whole).andThen fun _ => ih.andThen fun _ => .done _) reader

theorem discharges_toolkit : toolkit.Discharges where
  admits := Discipline.admits_toolkit retention.practice.isLax
  action {exports engine} h name := by
    change Discharges exports (toolkitAction engine name)
    unfold toolkitAction
    split
    · exact .read fun reader => .done reader _
    · exact (h.reads .operand).andThen fun _ => (h.reads .operand).andThen fun _ =>
        .read fun reader => .done reader _
    · exact (h.reads .deferred).andThen fun _ => .done _
    · exact .read fun reader => ((h.readRest _).andThen fun _ =>
        .read fun reader => .done reader _) reader
    · exact .throw _
  operator {exports engine} h name left right := by
    change Discharges exports (toolkitOperator engine name left right)
    unfold toolkitOperator
    split
    · exact .read fun reader => .done reader _
    · exact .onMachine (retention.practice.isLax.newSource _)
    · exact .throw _

/-- Evaluation with some fuel carries out the set-words that it reads past. -/
theorem Engine.discharges_ofFuel {host : Host} (hosted : host.Discharges)
    (exports : Ref .dictionary) (fuel : Nat) : (ofFuel host fuel).Discharges exports := by
  induction fuel with
  | zero =>
    have nothing {α : Type} : Wordstream.Discharges exports (outOfFuel : Run Reader α) := by
      intro reader result reader' _ ended
      cases ended
    exact ⟨retains_ofFuel hosted.admits 0, fun _ => ⟨nothing, fun _ ended => by cases ended⟩,
      fun _ => nothing, fun _ _ _ => nothing⟩
  | succ fuel ih =>
    exact ⟨retains_ofFuel hosted.admits (fuel + 1), ih.readValue, hosted.action ih,
      hosted.operator ih⟩

/-! ## Modules -/

/-- A set-word of a code is one of its sites, and assigns its symbol. -/
theorem Item.mem_of_setWord {items : List Item} {symbol : String} {slot : SlotId}
    (mem : .word .set symbol slot ∈ items) :
    ⟨symbol, slot⟩ ∈ sitesOf items ∧ symbol ∈ assignedBy items := by
  induction items with
  | nil => cases mem
  | cons item rest ih =>
    rw [sitesOf, assignedBy, List.mem_append, List.mem_append]
    rcases List.mem_cons.1 mem with rfl | mem
    · exact ⟨.inl (List.mem_singleton.2 rfl), .inl (List.mem_singleton.2 rfl)⟩
    · exact ⟨.inr (ih mem).1, .inr (ih mem).2⟩

/-- A site whose symbol is resolved is bound, if there is only one thing that symbols stand for. -/
theorem Machine.slots_bindSites_of_mem {m : Machine} {sites : List Site} {scope : Scope}
    {binding : Binding} (only : ∀ symbol other, scope symbol = some other → other = binding)
    {site : Site} (mem : site ∈ sites) (resolved : scope site.symbol = some binding)
    (old : site.slot.index < m.slots.size) :
    (sites.foldl (bindSite scope) m).slots[site.slot.index]? = some (some binding) := by
  induction sites generalizing m with
  | nil => cases mem
  | cons first rest ih =>
    rw [List.foldl_cons]
    rcases List.mem_cons.1 mem with rfl | mem
    · -- Whatever is bound behind it is bound to the same.
      rcases (bindSite scope m site).slots_bindSites rest scope site.slot.index with
        kept | ⟨_, _, _, other, named, bound⟩
      · rw [kept, bindSite, resolved]
        dsimp only [bindSlot]
        rw [Array.getElem?_setIfInBounds, if_pos rfl, if_pos old]
      · rw [bound, only _ _ named]
    · refine ih mem ?_
      unfold bindSite
      split
      · rwa [bindSlot, Array.size_setIfInBounds]
      · exact old

/-- A new scope for a code is what the set-words of the code are bound to. -/
theorem Machine.binding?_openScope {m : Machine} {code : Code} (entries : Dictionary)
    {symbol : String} {slot : SlotId} (mem : .word .set symbol slot ∈ code.items)
    (old : slot.index < m.slots.size) :
    (m.openScope code entries).2.binding? slot = some (.dictionary m.dictionaries.next) := by
  obtain ⟨site, assigned⟩ := Item.mem_of_setWord mem
  have resolved : Scope.symbols (entries.keys ++ code.assigned) m.dictionaries.next symbol =
      some (.dictionary m.dictionaries.next) :=
    if_pos (List.contains_iff_mem.2 (List.mem_append_right _ assigned))
  have only (symbol : String) (other : Binding) (named : Scope.symbols
      (entries.keys ++ code.assigned) m.dictionaries.next symbol = some other) :
      other = .dictionary m.dictionaries.next := by
    unfold Scope.symbols at named
    split at named
    · exact (Option.some.inj named).symm
    · cases named
  have bound : (m.openScope code entries).2.slots[slot.index]? =
      some (some (.dictionary m.dictionaries.next)) :=
    slots_bindSites_of_mem (m := (m.newDictionary entries).2) only site resolved old
  rw [binding?_eq, bound]
  rfl

/-- What is run with a dictionary of its own, with everything that it assigns bound to it: a
set-word has an entry in the dictionary, or belongs to a newer one. -/
theorem executeInto_exports {host : Host} (hosted : host.Discharges) {fuel : Nat} {code : Code}
    {entries : Dictionary} {m m' : Machine} {exports : Ref .dictionary}
    (ended : executeInto (.ofFuel host fuel) code entries m = (some (.ok exports), m')) :
    exports = m.dictionaries.next ∧ m'.dictionaries.Has exports ∧
      ∀ symbol slot, .word .set symbol slot ∈ code.items → slot.index < m.slots.size →
        (m'.dictionary exports).contains symbol ∨
          ∃ other, m'.binding? slot = some (.dictionary other) ∧ exports.index < other.index := by
  obtain ⟨given, _, opened, ended⟩ := Run.of_bind ended
  obtain ⟨value, _, ran, ended⟩ := Run.of_bind ended
  cases ended
  cases opened
  cases fuel with
  | zero => cases ran
  | succ fuel =>
    have retained :=
      retains_of_ended ((Engine.retains_ofFuel hosted.admits (fuel + 1)).execute code) ran
    have has : (m.openScope code entries).2.dictionaries.Has m.dictionaries.next := by
      change ((m.newDictionary entries).2.bind code _).dictionaries.Has _
      rw [Machine.bind_eq]
      exact Arena.has_alloc_next ..
    refine ⟨rfl, retained.dictionary has, fun symbol slot mem old => ?_⟩
    have old' : slot.index < (m.openScope code entries).2.slots.size :=
      (m.stirs_openScope False code entries nofun).retains.slot old
    obtain ⟨_, done⟩ := (Engine.discharges_ofFuel hosted _ fuel).executeCode code has ran _ mem
    -- The slot is bound as the scope has bound it, or anew to something that came later.
    rcases retained.binding old' with same | ⟨other, bound, new⟩
    · exact .inl (done (same.trans (Machine.binding?_openScope entries mem old)))
    · exact .inr ⟨other, bound, Nat.lt_of_lt_of_le has (Nat.le_of_not_lt new)⟩

theorem of_twoArgs {name : String} {args : List Value} {pair : Value × Value} {m m' : Machine}
    (ended : twoArgs name args m = (some (.ok pair), m')) : args = [pair.1, pair.2] ∧ m' = m := by
  unfold twoArgs at ended
  split at ended
  · cases ended
    exact ⟨rfl, rfl⟩
  · cases ended

theorem of_blockArg {name : String} {value : Value} {code : Code} {m m' : Machine}
    (ended : blockArg name value m = (some (.ok code), m')) : value = .block code ∧ m' = m := by
  unfold blockArg at ended
  split at ended
  · cases ended
    exact ⟨rfl, rfl⟩
  · cases ended

/-- A module that is evaluated with success gives a new dictionary, in which every set-word at the
top of its body has an entry, unless the word is bound to a newer dictionary by then. -/
theorem Host.Discharges.module_exports {host : Host} (hosted : host.Discharges) {fuel : Nat}
    {args : List Value} {value : Value} {m m' : Machine}
    (ended : CoreFunction.module.apply (.ofFuel host fuel) args m = (some (.ok value), m')) :
    ∃ description body exports, args = [.block description, .block body] ∧
      value = .object exports ∧ ¬ m.dictionaries.Has exports ∧ m'.dictionaries.Has exports ∧
      ∀ symbol slot, .word .set symbol slot ∈ body.items → slot.index < m.slots.size →
        (m'.dictionary exports).contains symbol ∨
          ∃ other, m'.binding? slot = some (.dictionary other) ∧ exports.index < other.index := by
  obtain ⟨⟨first, second⟩, _, two, unpacked⟩ := Run.of_bind ended
  obtain ⟨description, _, block, described⟩ := Run.of_bind unpacked
  obtain ⟨body, _, block', embodied⟩ := Run.of_bind described
  obtain ⟨exports, _, evaluated, given⟩ := Run.of_bind embodied
  obtain ⟨rfl, rfl⟩ := of_twoArgs two
  obtain ⟨rfl, rfl⟩ := of_blockArg block
  obtain ⟨rfl, rfl⟩ := of_blockArg block'
  cases given
  obtain ⟨_, middle, before, ran⟩ := Run.of_bind evaluated
  have retained := retains_of_ended
    ((Engine.retains_ofFuel hosted.admits fuel).executeInto description .empty nofun) before
  obtain ⟨rfl, has, exported⟩ := executeInto_exports hosted ran
  refine ⟨description, body, _, rfl, rfl, fun old => (retained.dictionary old).ne_next rfl, has, ?_⟩
  exact fun symbol slot mem old => exported symbol slot mem (retained.slot old)

/-- A text that names a block with a module within, which is the body of a module below. -/
def nestingText : String := "module: native [about body] :core/module
x: [a: module [] [b: 1] c: :a]"

/-- The machine behind this text. -/
def Machine.nesting : Machine := (evaluate (.ofFuel .none 20) nestingText .stocked).2

/-- The block that the text names. -/
def nestingBody : Code :=
  match Machine.nesting.lookup? "x" with
  | some (.block code) => code
  | _ => ⟨⟨0⟩, []⟩

/-- Evaluating a module with this body. -/
def nestingRun : Option (Except Failure Value) × Machine :=
  CoreFunction.module.apply (.ofFuel .none 20) [.block ⟨⟨0⟩, []⟩, .block nestingBody] .nesting

/-- The exports that a computation has given, if they are an object. -/
def objectOf? : Option (Except Failure Value) → Option (Ref .dictionary)
  | some (.ok (.object ref)) => some ref
  | _ => none

theorem eq_of_objectOf? {given : Option (Except Failure Value)} {ref : Ref .dictionary}
    (h : objectOf? given = some ref) : given = some (.ok (.object ref)) := by
  unfold objectOf? at h
  split at h
  · cases h
    rfl
  · cases h

/-- The slots of the set-words of some items that have a symbol. -/
def Item.setSlots (symbol : String) (items : List Item) : List SlotId :=
  items.filterMap fun
    | .word .set other slot => if other = symbol then some slot else none
    | _ => none

theorem Item.mem_of_mem_setSlots {symbol : String} {items : List Item} {slot : SlotId}
    (mem : slot ∈ setSlots symbol items) : .word .set symbol slot ∈ items := by
  obtain ⟨item, there, found⟩ := List.mem_filterMap.1 mem
  split at found
  · split at found
    · next same =>
      cases found
      exact same ▸ there
    · cases found
  · cases found

/-- The dictionary that a site is bound to, if it is one. -/
def Machine.dictionaryOf? (m : Machine) (slot : SlotId) : Option (Ref .dictionary) :=
  match m.binding? slot with
  | some (.dictionary ref) => some ref
  | _ => none

theorem nesting_evaluated :
    objectOf? nestingRun.1 = some ⟨3⟩ ∧ ⟨6⟩ ∈ Item.setSlots "a" nestingBody.items ∧
      ⟨9⟩ ∈ Item.setSlots "c" nestingBody.items ∧ 9 < Machine.nesting.slots.size ∧
      nestingRun.2.dictionaryOf? ⟨6⟩ = some ⟨3⟩ ∧ nestingRun.2.dictionaryOf? ⟨9⟩ = some ⟨3⟩ := by
  decide +kernel

/-- Both set-words at the top of the body are exported. -/
theorem Host.Discharges.module_exports_nesting :
    ∃ m', nestingRun = (some (.ok (.object ⟨3⟩)), m') ∧
      (m'.dictionary ⟨3⟩).contains "a" ∧ (m'.dictionary ⟨3⟩).contains "c" := by
  obtain ⟨given, a, c, within, bound_a, bound_c⟩ := nesting_evaluated
  have ended : nestingRun = (some (.ok (.object ⟨3⟩)), nestingRun.2) :=
    Prod.ext (eq_of_objectOf? given) rfl
  obtain ⟨_, _, _, same, object, _, _, exported⟩ :=
    Host.Discharges.module_exports Host.discharges_none ended
  cases object
  cases same
  have settled {symbol : String} {slot : SlotId}
      (bound : nestingRun.2.dictionaryOf? slot = some ⟨3⟩)
      (either : (nestingRun.2.dictionary ⟨3⟩).contains symbol ∨ ∃ other,
        nestingRun.2.binding? slot = some (.dictionary other) ∧ 3 < other.index) :
      (nestingRun.2.dictionary ⟨3⟩).contains symbol := by
    refine either.resolve_right fun ⟨other, newer, less⟩ => ?_
    rw [Machine.dictionaryOf?, newer] at bound
    cases bound
    exact Nat.lt_irrefl _ less
  exact ⟨_, ended,
    settled bound_a (exported _ _ (Item.mem_of_mem_setSlots a) (Nat.lt_trans (by decide) within)),
    settled bound_c (exported _ _ (Item.mem_of_mem_setSlots c) within)⟩

/-- A procedure that evaluates a module in whose body it calls itself. -/
def recursiveText : String := "proc: native [params body] :core/proc
module: native [about body] :core/module
either: native [c t f] :core/either
f: proc [again /local no] [module [] [a: either again [f no] [1]]] f 1"

/-- What becomes of this text. -/
def recursiveRun : Option (Except Failure Value) × Machine :=
  evaluate (.ofFuel .none 40) recursiveText .stocked

theorem recursive_evaluated :
    objectOf? recursiveRun.1 = some ⟨3⟩ ∧ 3 < recursiveRun.2.dictionaries.cells.size ∧
      (recursiveRun.2.dictionary ⟨3⟩).contains "a" = false := by
  decide +kernel

/-- A module whose body is evaluated once more while it runs loses what it assigns from then on: the
exports that the evaluation gives have no entry for the set-word at the top of the body. -/
theorem recursive_module_loses_export :
    ∃ exports m, evaluate (.ofFuel .none 40) recursiveText .stocked =
        (some (.ok (.object exports)), m) ∧
      m.dictionaries.Has exports ∧ (m.dictionary exports).contains "a" = false :=
  ⟨⟨3⟩, _, Prod.ext (eq_of_objectOf? recursive_evaluated.1) rfl, recursive_evaluated.2⟩

end Wordstream
