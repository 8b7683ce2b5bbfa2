import Mathlib.Data.List.Basic
import Wordstream.Proofs.Expressions

/-!
# Setting a path and getting it

A path is followed from what its head stands for through one dictionary after another. Objects are
shared: the dictionaries that are met may be met again on the same way, and the one behind the
binding of the head may be among them. What is assigned at the end of a path is found there again
if these dictionaries are all different, for then nothing that was read on the way has changed.
Whatever the dictionaries, an assignment changes one entry at most.

## Main results

* `projectFields_assign` — fields are followed to what was assigned at their end
* `evaluateSetPath_apply` — setting a path, once the value was read
* `evaluatePath_set_get` — what becomes of the entries, and what getting the path gives
-/

namespace Wordstream

/-! ## Assignments -/

namespace Machine

variable (m : Machine) (ref : Ref .dictionary) (field : String) (value : Value)

/-- The dictionaries behind an assignment. -/
@[simp]
theorem dictionary_assign (other : Ref .dictionary) :
    (m.assign ref field value).dictionary other =
      if other = ref then (m.dictionary ref).insert field value else m.dictionary other :=
  Arena.get_set ..

theorem dictionary_assign_of_ne {other : Ref .dictionary} (apart : other ≠ ref) :
    (m.assign ref field value).dictionary other = m.dictionary other := by
  rw [dictionary_assign, if_neg apart]

/-- The entry that is assigned has the value. -/
theorem get?_assign_self : ((m.assign ref field value).dictionary ref).get? field = some value := by
  rw [dictionary_assign, if_pos rfl, Table.get?_insert, if_pos rfl]

/-- An assignment changes no other entry. -/
theorem get?_assign_of_ne {other : Ref .dictionary} {key : String}
    (apart : (other, key) ≠ (ref, field)) :
    ((m.assign ref field value).dictionary other).get? key = (m.dictionary other).get? key := by
  by_cases same : other = ref
  · subst same
    have keys : key ≠ field := fun equal => apart (by rw [equal])
    rw [dictionary_assign, if_pos rfl, Table.get?_insert, if_neg keys]
  · rw [dictionary_assign_of_ne m ref field value same]

end Machine

/-- An assignment to another dictionary than the one that a symbol is bound to leaves its
meaning. -/
theorem Binding.meaning_assign {binding : Binding} {ref : Ref .dictionary}
    (apart : binding ≠ .dictionary ref) (symbol field : String) (value : Value) (m : Machine) :
    binding.meaning (m.assign ref field value) symbol = binding.meaning m symbol := by
  cases binding with
  | dictionary other =>
    have unlike : other ≠ ref := fun same => apart (by rw [same])
    simp only [meaning, m.dictionary_assign_of_ne ref field value unlike]
  | frameSlot | cell | input | output => rfl

/-! ## The way along a path -/

/-- The dictionaries that are met on the way along some fields, the last one included. -/
def Machine.met (m : Machine) : Value → List String → List (Ref .dictionary)
  | .object ref, [] => [ref]
  | .object ref, field :: rest =>
    ref :: match (m.dictionary ref).get? field with
      | some value => m.met value rest
      | none => []
  | _, _ => []

/-- The dictionaries that a path depends on: the one behind the binding of its head, if that is
one, and those that are met on the way along its fields. -/
def Machine.trail (m : Machine) (head : Site) (fields : List String) : List (Ref .dictionary) :=
  (match m.binding? head.slot with
    | some (.dictionary ref) => [ref]
    | _ => []) ++
  match head.meaning m with
    | .ok value => m.met value fields
    | .error _ => []

/-- Fields are followed one by one. -/
theorem projectFields_apply (seen : List String) (field : String) (rest : List String)
    (ref : Ref .dictionary) (m : Machine) :
    projectFields seen (field :: rest) (.object ref) m =
      match (m.dictionary ref).get? field with
      | some value => projectFields (seen ++ [field]) rest value m
      | none => (some (.error (.unboundReference (Node.joinPath (seen ++ [field])))), m) := by
  change (match (m.dictionary ref).get? field with
    | some value => projectFields (seen ++ [field]) rest value
    | none => throw (Failure.unboundReference (Node.joinPath (seen ++ [field]))) :
        Run Machine Value) m = _
  cases (m.dictionary ref).get? field <;> rfl

/-- Following fields changes nothing, and comes to an end. -/
theorem exists_projectFields (seen fields : List String) (value : Value) (m : Machine) :
    ∃ result, projectFields seen fields value m = (some result, m) := by
  induction fields generalizing seen value with
  | nil => exact ⟨.ok value, rfl⟩
  | cons field rest ih =>
    cases value with
    | object ref =>
      rw [projectFields_apply]
      cases (m.dictionary ref).get? field with
      | none => exact ⟨_, rfl⟩
      | some next => exact ih (seen ++ [field]) next
    | none | bool | number | text | block | native | procedure | suspension | task => exact ⟨_, rfl⟩

/-- A field is followed only from an object that has it. -/
theorem of_projectFields_cons {seen rest : List String} {field : String} {value target : Value}
    {m m' : Machine}
    (follows : projectFields seen (field :: rest) value m = (some (.ok target), m')) :
    ∃ ref next, value = .object ref ∧ (m.dictionary ref).get? field = some next ∧
      projectFields (seen ++ [field]) rest next m = (some (.ok target), m') := by
  cases value with
  | object ref =>
    rw [projectFields_apply] at follows
    cases found : (m.dictionary ref).get? field with
    | none =>
      rw [found] at follows
      cases follows
    | some next =>
      rw [found] at follows
      exact ⟨ref, next, rfl, found, follows⟩
  | none | bool | number | text | block | native | procedure | suspension | task => cases follows

theorem met_cons {m : Machine} {ref : Ref .dictionary} {field : String} {next : Value}
    (found : (m.dictionary ref).get? field = some next) (rest : List String) :
    m.met (.object ref) (field :: rest) = ref :: m.met next rest := by
  simp only [Machine.met, found]

/-- The dictionary that fields lead to is met last. -/
theorem mem_met {seen fields : List String} {value : Value} {ref : Ref .dictionary} {m m' : Machine}
    (follows : projectFields seen fields value m = (some (.ok (.object ref)), m')) :
    ref ∈ m.met value fields := by
  induction fields generalizing seen value with
  | nil =>
    cases follows
    exact List.mem_singleton_self ref
  | cons field rest ih =>
    obtain ⟨first, next, rfl, found, more⟩ := of_projectFields_cons follows
    rw [met_cons found]
    exact List.mem_cons_of_mem _ (ih more)

/-- Where all dictionaries on the way are different, fields are followed to what was assigned at
their end. -/
theorem projectFields_assign {seen fields : List String} {value : Value} {ref : Ref .dictionary}
    {m m' : Machine} (follows : projectFields seen fields value m = (some (.ok (.object ref)), m'))
    (distinct : (m.met value fields).Nodup) (field : String) (given : Value) :
    projectFields seen (fields ++ [field]) value (m.assign ref field given) =
      (some (.ok given), m.assign ref field given) := by
  induction fields generalizing seen value with
  | nil =>
    cases follows
    rw [List.nil_append, projectFields_apply, m.get?_assign_self]
    rfl
  | cons next rest ih =>
    obtain ⟨first, along, rfl, found, more⟩ := of_projectFields_cons follows
    rw [met_cons found, List.nodup_cons] at distinct
    -- The dictionary that is assigned to is met later on, so it is not this one.
    have apart : first ≠ ref := fun same => distinct.1 (same ▸ mem_met more)
    rw [List.cons_append, projectFields_apply, m.dictionary_assign_of_ne ref field given apart,
      found]
    exact ih more distinct.2

/-! ## Setting and getting -/

/-- A path stands for what its fields lead to. -/
theorem project_apply (head : Site) (fields : List String) (m : Machine) :
    project head fields m =
      match head.meaning m with
      | .ok value => projectFields [head.symbol] fields value m
      | .error failure => (some (.error failure), m) := by
  rw [project, Run.bind_apply, Site.get_apply]
  cases head.meaning m <;> rfl

/-- Following a path changes nothing, and comes to an end. -/
theorem exists_project (head : Site) (fields : List String) (m : Machine) :
    ∃ result, project head fields m = (some result, m) := by
  rw [project_apply]
  cases head.meaning m with
  | error failure => exact ⟨_, rfl⟩
  | ok value => exact exists_projectFields _ fields value m

/-- The last field of a path is assigned if the others lead to an object; otherwise nothing
changes. -/
theorem assignField_cases (head : Site) (front : List String) (field : String) (value : Value)
    (m : Machine) :
    (∃ ref, project head front m = (some (.ok (.object ref)), m) ∧
      assignField head (front ++ [field]) value m = (some (.ok ()), m.assign ref field value)) ∨
    ∃ failure, assignField head (front ++ [field]) value m = (some (.error failure), m) := by
  obtain ⟨result, leads⟩ := exists_project head front m
  rw [assignField, List.getLast?_concat, List.dropLast_concat]
  dsimp only
  rw [Run.bind_apply, leads]
  cases result with
  | error failure => exact Or.inr ⟨failure, rfl⟩
  | ok target =>
    cases target with
    | object ref => exact Or.inl ⟨ref, rfl, rfl⟩
    | none | bool | number | text | block | native | procedure | suspension | task =>
      exact Or.inr ⟨_, rfl⟩

/-- Where all dictionaries that a path depends on are different, it stands for what was assigned
at its end, at every site that is bound in the same way. -/
theorem project_assign {head : Site} {front : List String} {ref : Ref .dictionary} {m : Machine}
    (reached : project head front m = (some (.ok (.object ref)), m))
    (distinct : (m.trail head front).Nodup) (field : String) (value : Value) {slot : SlotId}
    (same : m.binding? slot = m.binding? head.slot) :
    project ⟨head.symbol, slot⟩ (front ++ [field]) (m.assign ref field value) =
      (some (.ok value), m.assign ref field value) := by
  rw [project_apply] at reached
  cases start : head.meaning m with
  | error failure =>
    rw [start] at reached
    cases reached
  | ok first =>
    rw [start] at reached
    obtain ⟨-, along, apart⟩ := List.nodup_append.1 distinct
    simp only [start] at along apart
    have met := mem_met reached
    have meaning : Site.meaning (m.assign ref field value) ⟨head.symbol, slot⟩ = .ok first := by
      rw [← start, Site.meaning_eq, Site.meaning_eq]
      change (m.binding? slot).elim _ _ = _
      rw [same]
      cases bound : m.binding? head.slot with
      | none => rfl
      | some binding =>
        -- The dictionary behind the binding is not the one that is assigned to, which is met later.
        refine Binding.meaning_assign (fun behind => ?_) head.symbol field value m
        rw [bound, behind] at apart
        exact apart ref List.mem_cons_self ref met rfl
    rw [project_apply, meaning]
    exact projectFields_assign reached along field value

/-- Setting a path, once the value was read. -/
theorem evaluateSetPath_apply {engine : Engine} {reader reader' : Reader} {value : Value}
    (read : engine.read .whole reader = (some (.ok value), reader')) (head : String)
    (fields : List String) (slot : SlotId) :
    evaluateItem engine (.path .set head fields slot) reader =
      ((assignField ⟨head, slot⟩ fields value reader'.machine).1.map (Except.map fun _ => value),
        ⟨(assignField ⟨head, slot⟩ fields value reader'.machine).2, reader'.cursor⟩) := by
  rw [evaluateItem, evaluatePath, Run.bind_apply, read]
  dsimp only
  rw [Run.bind_apply, onMachine_apply]
  rcases assignField ⟨head, slot⟩ fields value reader'.machine with ⟨_ | (_ | _), m⟩ <;> rfl

/-- Setting a path of two or more segments and getting it. When the value was read, setting the
path either succeeds and gives the value to the entry of the last field, in the dictionary that
the other fields lead to, and changes no other; or it fails and changes none. If it succeeds, and
the dictionaries that the path depends on were all different, then getting the path gives the
value, at every site that is bound in the same way. -/
theorem evaluatePath_set_get (engine : Engine) (head : String) (fields : List String)
    (slot : SlotId)
    (reader reader' after : Reader) (value : Value) (result : Option (Except Failure Value))
    (two : fields ≠ []) (read : engine.read .whole reader = (some (.ok value), reader'))
    (set : evaluateItem engine (.path .set head fields slot) reader = (result, after)) :
    (result = some (.ok value) ∧
      (∃ ref field, fields.getLast? = some field ∧
        project ⟨head, slot⟩ fields.dropLast reader'.machine =
          (some (.ok (.object ref)), reader'.machine) ∧
        (after.machine.dictionary ref).get? field = some value ∧
        ∀ other key, (other, key) ≠ (ref, field) →
          (after.machine.dictionary other).get? key = (reader'.machine.dictionary other).get? key) ∧
      ((reader'.machine.trail ⟨head, slot⟩ fields.dropLast).Nodup →
        ∀ engine' slot' cursor, after.machine.binding? slot' = after.machine.binding? slot →
          evaluateItem engine' (.path .get head fields slot') ⟨after.machine, cursor⟩ =
            (some (.ok value), ⟨after.machine, cursor⟩))) ∨
    ((∃ failure, result = some (.error failure)) ∧
      ∀ other key,
        (after.machine.dictionary other).get? key =
          (reader'.machine.dictionary other).get? key) := by
  obtain ⟨front, field, rfl⟩ := (List.eq_nil_or_concat' fields).resolve_left two
  rw [List.dropLast_concat]
  rw [evaluateSetPath_apply read] at set
  -- The fields in front lead to the dictionary of the last one, or setting fails on the way.
  rcases assignField_cases ⟨head, slot⟩ front field value reader'.machine with
    ⟨ref, reached, assigned⟩ | ⟨failure, refused⟩
  · rw [assigned] at set
    cases set
    refine Or.inl ⟨rfl, ⟨ref, field, List.getLast?_concat, reached, ?_, fun other key apart => ?_⟩,
      fun distinct engine' slot' cursor same => ?_⟩
    · exact reader'.machine.get?_assign_self ref field value
    · exact reader'.machine.get?_assign_of_ne ref field value apart
    · have gets := project_assign reached distinct field value same
      rw [evaluateItem, evaluatePath, onMachine_apply, gets]
  · rw [refused] at set
    cases set
    exact Or.inr ⟨⟨failure, rfl⟩, fun _ _ => rfl⟩

/-- A machine with objects that are shared and within each other: the root has `a` and `c`, which
are the same object; this one has itself under `self` and another under `b`, and that one has the
first under `up`. There are two slots, both bound to the root. -/
def Machine.tangled : Machine :=
  { Machine.ofConfig .standard with
    dictionaries := ⟨#[.ofList [("a", .object ⟨1⟩), ("c", .object ⟨1⟩)],
      .ofList [("b", .object ⟨2⟩), ("self", .object ⟨1⟩)], .ofList [("up", .object ⟨1⟩)]]⟩
    slots := #[some (.dictionary ⟨0⟩), some (.dictionary ⟨0⟩)] }

/-- Reading a text, for `a/b/up` on this machine. -/
def tangledReader : Reader := ⟨.tangled, ⟨1, [.literal (.text "new"), .literal (.text "next")]⟩⟩

/-- Setting `a/b/up` to the text. -/
def tangledRun : Option (Except Failure Value) × Reader :=
  evaluateItem (.ofFuel .none 1) (.path .set "a" ["b", "up"] ⟨0⟩) tangledReader

/-- The text is found where it was put, from another site too, and the object that was there
before still has itself. -/
theorem evaluatePath_set_get_tangled :
    tangledRun.1 = some (.ok (.text "new")) ∧
      evaluateItem (.ofFuel .none 1) (.path .get "a" ["b", "up"] ⟨1⟩) tangledRun.2 =
        (some (.ok (.text "new")), tangledRun.2) ∧
      (tangledRun.2.machine.dictionary ⟨1⟩).get? "self" = some (.object ⟨1⟩) := by
  have read : (Engine.ofFuel .none 1).read .whole tangledReader =
      (some (.ok (.text "new")),
        ⟨Machine.tangled.withResult (.text "new"), ⟨2, [.literal (.text "next")]⟩⟩) := rfl
  have distinct :
      ((Machine.tangled.withResult (.text "new")).trail ⟨"a", ⟨0⟩⟩ ["b"]).Nodup := by decide
  rcases evaluatePath_set_get (.ofFuel .none 1) "a" ["b", "up"] ⟨0⟩ tangledReader _ tangledRun.2 _
    tangledRun.1 (List.cons_ne_nil _ _) read rfl with
    ⟨given, ⟨ref, field, last, reached, -, kept⟩, gets⟩ | ⟨⟨failure, given⟩, -⟩
  · refine ⟨given, gets distinct _ ⟨1⟩ tangledRun.2.cursor rfl, ?_⟩
    obtain rfl : "up" = field := Option.some.inj last
    exact kept ⟨1⟩ "self" fun same => absurd (Prod.mk.inj same).2 (by decide)
  · cases given

end Wordstream
