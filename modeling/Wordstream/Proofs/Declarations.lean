import Mathlib.Data.List.Induction
import Mathlib.Data.List.Nodup
import Mathlib.Data.List.TakeWhile
import Wordstream.Code.Parameters

/-!
# What parameter lists declare

Scanning goes through a parameter list once, with the section that the last refinement opened and
the names declared so far. What it accepts can be said of the list as a whole, without any pass
over it: where words may stand, which refinements there are, and that no name stands there twice.
The names that a streaming procedure may not declare are a matter of the whole list too, as the
refinement that makes it one may come behind them.

What scanning has declared behind some items, and the section it is in, are functions of these
items. An item that is not accepted behind them is an offence, and the first offence decides the
failure.

## Main results

* `Parameters.wellFormed_iff` — a parameter list has no offence and declares no reserved name
* `Parameters.scanItems_inoffensive`, `Parameters.scanItems_firstOffence` — scanning item by item
* `Parameters.nodup_of_scan`, `Parameters.not_mem_of_scan` — what is known of declared names
* `Parameters.scan_wellFormed` — what scanning accepts, what it gives, and how it fails
-/

namespace Wordstream

namespace Item

/-- The name of a refinement. -/
def refinement? : Item → Option String
  | .refinement name => some name
  | _ => none

/-- The name that a plain word stands for. -/
def plainName? : Item → Option String
  | .word .plain name _ => some name
  | _ => none

/-- Whether an item is a refinement. -/
def isRefinement (item : Item) : Bool := item.refinement?.isSome

theorem refinement?_eq_some_iff {item : Item} {name : String} :
    item.refinement? = some name ↔ item = .refinement name := by
  cases item <;> simp [refinement?]

end Item

namespace Parameters

variable {streaming : Bool} {items before rest : List Item} {item : Item} {name : String}

/-! ## Lists of items -/

/-- The names that stand in a list as plain words. -/
def plainNames (items : List Item) : List String := items.filterMap Item.plainName?

/-- The names of the refinements of a list. -/
def refinements (items : List Item) : List String := items.filterMap Item.refinement?

/-- The last refinement of a list, which is the nearest to what follows. -/
def nearest? (before : List Item) : Option String := (refinements before).getLast?

/-- The refinements that open a section. -/
def IsSection (streaming : Bool) (name : String) : Prop :=
  name = "local" ∨ streaming = true ∧ (name = "in" ∨ name = "out")

/-- Whether a name may be declared behind some items: they have no refinement, or the nearest one is
`/local`. -/
def TakesNames (before : List Item) : Prop :=
  nearest? before = none ∨ nearest? before = some "local"

/-- A parameter list. It has refinements and plain words only, the refinements open sections,
words stand in front of all refinements or behind `/local`, no name stands there twice, and beside
`/in` and `/out` neither `in` nor `out` is a name. -/
structure WellFormed (streaming : Bool) (items : List Item) : Prop where
  shape : ∀ item ∈ items, (∃ name, item = .refinement name) ∨
    ∃ name slot, item = .word .plain name slot
  sections : ∀ name, .refinement name ∈ items → IsSection streaming name
  places : ∀ before name slot after, items = before ++ .word .plain name slot :: after →
    TakesNames before
  once : (plainNames items).Nodup
  reserved : .refinement "in" ∈ items ∨ .refinement "out" ∈ items →
    "in" ∉ plainNames items ∧ "out" ∉ plainNames items

/-- The items in front of all refinements. -/
def leading (items : List Item) : List Item := items.takeWhile fun item => !item.isRefinement

/-- The items from the first refinement on. -/
def sectioned (items : List Item) : List Item := items.dropWhile fun item => !item.isRefinement

/-- What a list of items declares: the names in front of all refinements, the other names, and
whether there is an input and an output. -/
def declarations (items : List Item) : Parameters where
  positional := plainNames (leading items)
  locals := plainNames (sectioned items)
  input := (refinements items).contains "in"
  output := (refinements items).contains "out"

theorem plainNames_append (items more : List Item) :
    plainNames (items ++ more) = plainNames items ++ plainNames more := List.filterMap_append

theorem refinements_append (items more : List Item) :
    refinements (items ++ more) = refinements items ++ refinements more := List.filterMap_append

theorem mem_refinements : name ∈ refinements items ↔ .refinement name ∈ items := by
  simp [refinements, Item.refinement?_eq_some_iff]

theorem nearest?_concat_refinement (before : List Item) (name : String) :
    nearest? (before ++ [.refinement name]) = some name := by
  rw [nearest?, refinements_append]
  exact List.getLast?_concat

/-- A word changes nothing about the nearest refinement. -/
theorem nearest?_concat_word (before : List Item) (name : String) (slot : SlotId) :
    nearest? (before ++ [.word .plain name slot]) = nearest? before := by
  rw [nearest?, refinements_append]
  exact congrArg List.getLast? (List.append_nil _)

/-- The names of a list are those in front of its refinements and the others. -/
theorem names_declarations (items : List Item) : (declarations items).names = plainNames items := by
  change plainNames (leading items) ++ plainNames (sectioned items) = _
  rw [← plainNames_append, leading, sectioned, List.takeWhile_append_dropWhile]

/-- As long as there is no refinement, what follows is looked at in the same way. -/
theorem split_of_nearest?_eq_none (none : nearest? before = none) (more : List Item) :
    leading (before ++ more) = before ++ leading more ∧
      sectioned (before ++ more) = sectioned more := by
  have all : ∀ item ∈ before, !item.isRefinement := by
    intro item mem
    have empty : refinements before = [] := List.getLast?_eq_none_iff.1 none
    simp [Item.isRefinement, List.filterMap_eq_nil_iff.1 empty item mem]
  exact ⟨List.takeWhile_append_of_pos all, List.dropWhile_append_of_pos all⟩

/-- Once there is a refinement, what follows is behind it. -/
theorem split_of_nearest?_eq_some (near : nearest? before = some name) (more : List Item) :
    leading (before ++ more) = leading before ∧
      sectioned (before ++ more) = sectioned before ++ more := by
  have mem : Item.refinement name ∈ before := mem_refinements.1 (List.mem_of_getLast? near)
  have stops : ¬ ∀ item ∈ before, !item.isRefinement := fun all => by cases all _ mem
  constructor
  · rw [leading, List.takeWhile_append, if_neg]
    · rfl
    · exact fun all =>
        stops (List.takeWhile_eq_self_iff.1 ((List.takeWhile_prefix _).eq_of_length all))
  · rw [sectioned, List.dropWhile_append, if_neg]
    · rfl
    · exact fun all => stops (List.dropWhile_eq_nil_iff.1 (List.isEmpty_iff.1 all))

/-! ## One item -/

/-- The section that words are in when a refinement is the nearest. -/
def sectionAt : Option String → Section
  | none => .positional
  | some name => if name = "local" then .locals else if name = "in" then .input else .output

/-- An item that cannot stand behind some items: a refinement that opens no section, a word where no
name may be declared, or one that stands there already, and whatever is neither. -/
def Offends (streaming : Bool) (before : List Item) : Item → Prop
  | .refinement name => ¬ IsSection streaming name
  | .word .plain name _ => ¬ TakesNames before ∨ name ∈ plainNames before
  | _ => True

/-- The failures that an item is refused with. -/
inductive Refuses : Item → Failure → Prop
  | kind (name : String) : Refuses (.refinement name) (.unsupportedParameterKind name)
  | use {item : Item} (other : item.refinement? = none) (text : String) :
      Refuses item (.malformedUse text)

/-- A refinement declares no name. -/
theorem declarations_concat_refinement (before : List Item) (name : String) :
    declarations (before ++ [.refinement name]) =
      { declarations before with
        input := (declarations before).input || name = "in"
        output := (declarations before).output || name = "out" } := by
  -- Where the list is cut depends on whether it had a refinement before; the names do not.
  have names : plainNames (leading (before ++ [.refinement name])) = plainNames (leading before) ∧
      plainNames (sectioned (before ++ [.refinement name])) = plainNames (sectioned before) := by
    cases near : nearest? before with
    | none =>
      have here := split_of_nearest?_eq_none near []
      rw [List.append_nil] at here
      rw [(split_of_nearest?_eq_none near _).1, (split_of_nearest?_eq_none near _).2,
        here.1, here.2]
      exact ⟨rfl, rfl⟩
    | some other =>
      rw [(split_of_nearest?_eq_some near _).1, (split_of_nearest?_eq_some near _).2,
        plainNames_append]
      exact ⟨rfl, List.append_nil _⟩
  have flag (other : String) : (refinements (before ++ [.refinement name])).contains other =
      ((refinements before).contains other || name = other) := by
    rw [refinements_append, List.contains_eq_mem, List.contains_eq_mem]
    simp [refinements, Item.refinement?, eq_comm]
  simp only [declarations, names, flag]

/-- A refinement is turned to if it opens a section. -/
theorem turn_declarations (opens : IsSection streaming name) (before : List Item) :
    (declarations before).turn streaming name =
      .ok (declarations (before ++ [.refinement name]), sectionAt (some name)) := by
  rw [declarations_concat_refinement]
  rcases opens with rfl | ⟨rfl, rfl | rfl⟩ <;> simp [turn, sectionAt]

theorem turn_of_not_isSection (refused : ¬ IsSection streaming name) (declared : Parameters) :
    declared.turn streaming name = .error (.unsupportedParameterKind name) := by
  simp only [IsSection, not_or, not_and] at refused
  simp only [turn]
  rw [if_neg refused.1, if_neg, if_neg]
  · simpa using fun streams => (refused.2 streams).2
  · simpa using fun streams => (refused.2 streams).1

/-- A name is declared where the words are that it stands behind. -/
theorem declare_declarations (takes : TakesNames before) (new : name ∉ plainNames before)
    (slot : SlotId) :
    (declarations before).declare (sectionAt (nearest? before)) name =
      .ok (declarations (before ++ [.word .plain name slot])) := by
  have unknown : (declarations before).names.contains name = false := by
    rw [names_declarations]
    simpa using new
  have flags : refinements (before ++ [.word .plain name slot]) = refinements before := by
    rw [refinements_append]
    exact List.append_nil _
  rcases takes with none | near
  · have here : leading before = before ∧ sectioned before = [] := by
      simpa [leading, sectioned] using split_of_nearest?_eq_none none []
    have split := split_of_nearest?_eq_none none [.word .plain name slot]
    rw [none]
    simp only [sectionAt, declare, unknown]
    simp only [declarations, flags, split, here, plainNames_append]
    rfl
  · have split := split_of_nearest?_eq_some near [.word .plain name slot]
    rw [near]
    simp only [sectionAt, if_true, declare, unknown]
    simp only [declarations, flags, split, plainNames_append]
    rfl

/-- A name that stands where none may be declared, or a second time, is refused. -/
theorem declare_of_offends {slot : SlotId}
    (offends : Offends streaming before (.word .plain name slot))
    (last : ∀ near, nearest? before = some near → IsSection streaming near) :
    ∃ text, (declarations before).declare (sectionAt (nearest? before)) name =
      .error (.malformedUse text) := by
  by_cases takes : TakesNames before
  · -- A name may be declared here, so this one stands there already.
    have twice : (declarations before).names.contains name = true := by
      rw [names_declarations]
      simpa using offends.resolve_left (not_not.2 takes)
    rcases takes with none | near
    · exact ⟨_, by rw [none]; simp only [sectionAt, declare, twice]; rfl⟩
    · exact ⟨_, by rw [near]; simp only [sectionAt, declare, twice]; rfl⟩
  · -- The nearest refinement is neither absent nor `/local`, so that it is `/in` or `/out`.
    cases near : nearest? before with
    | none => exact absurd (Or.inl near) takes
    | some other =>
      rcases last other near with rfl | ⟨-, rfl | rfl⟩
      · exact absurd (Or.inr near) takes
      · exact ⟨_, rfl⟩
      · exact ⟨_, rfl⟩

/-! ## All items -/

/-- No item of a list is an offence behind those before it. -/
def Inoffensive (streaming : Bool) (items : List Item) : Prop :=
  ∀ before item after, items = before ++ item :: after → ¬ Offends streaming before item

/-- The first item of a list that is an offence. -/
def FirstOffence (streaming : Bool) (items : List Item) (item : Item) : Prop :=
  ∃ before after, items = before ++ item :: after ∧ Offends streaming before item ∧
    Inoffensive streaming before

theorem inoffensive_nil : Inoffensive streaming [] := by
  rintro (_ | _) _ _ ⟨⟩

theorem inoffensive_concat_iff :
    Inoffensive streaming (items ++ [item]) ↔
      Inoffensive streaming items ∧ ¬ Offends streaming items item := by
  constructor
  · intro none
    refine ⟨fun before other after split => none before other (after ++ [item]) ?_, none _ _ [] rfl⟩
    rw [split, List.append_assoc, List.cons_append]
  · rintro ⟨none, last⟩ before other after split
    -- The item is the new one if nothing comes behind it, and an old one otherwise.
    rcases List.eq_nil_or_concat' after with rfl | ⟨after, final, rfl⟩
    · obtain ⟨rfl, rfl⟩ := List.append_inj' split rfl |>.imp_right List.singleton_inj.1
      exact last
    · rw [← List.cons_append, ← List.append_assoc] at split
      exact none before other after (List.append_inj' split rfl).1

/-- There is one first offence at most. -/
theorem FirstOffence.unique {other : Item} (first : FirstOffence streaming items item)
    (first' : FirstOffence streaming items other) : item = other := by
  obtain ⟨before, after, rfl, offends, none⟩ := first
  obtain ⟨before', after', split, offends', none'⟩ := first'
  -- One of the two fronts begins with the other; if it is longer, it has the other's offence in it.
  rcases List.append_eq_append_iff.1 split with ⟨more, rfl, cut⟩ | ⟨more, rfl, cut⟩
  · cases more with
    | nil => exact (List.cons.inj cut).1
    | cons next more =>
      obtain ⟨rfl, -⟩ := List.cons.inj cut
      exact absurd offends (none' before _ more rfl)
  · cases more with
    | nil => exact (List.cons.inj cut).1.symm
    | cons next more =>
      obtain ⟨rfl, -⟩ := List.cons.inj cut
      exact absurd offends' (none before' _ more rfl)

/-- The nearest refinement behind items without an offence has opened a section. -/
theorem Inoffensive.isSection (none : Inoffensive streaming before)
    (near : nearest? before = some name) : IsSection streaming name := by
  have mem : Item.refinement name ∈ before := mem_refinements.1 (List.mem_of_getLast? near)
  obtain ⟨front, after, split⟩ := List.append_of_mem mem
  exact not_not.1 (none front _ after split)

/-- An item that is no offence is taken in: scanning goes on behind it. -/
theorem scanItems_cons (accepted : ¬ Offends streaming before item) (rest : List Item) :
    scanItems streaming (item :: rest) (declarations before) (sectionAt (nearest? before)) =
      scanItems streaming rest (declarations (before ++ [item]))
        (sectionAt (nearest? (before ++ [item]))) := by
  cases item with
  | refinement name =>
    rw [nearest?_concat_refinement, scanItems, turn_declarations (not_not.1 accepted)]
    rfl
  | word kind name slot =>
    cases kind with
    | plain =>
      obtain ⟨takes, new⟩ := not_or.1 accepted
      rw [nearest?_concat_word, scanItems, declare_declarations (not_not.1 takes) new slot]
      rfl
    | get | set | quote => exact absurd trivial accepted
  | path | group | literal => exact absurd trivial accepted

/-- An item that is an offence is refused. -/
theorem scanItems_offence (none : Inoffensive streaming before)
    (offends : Offends streaming before item) (rest : List Item) :
    ∃ failure, Refuses item failure ∧
      scanItems streaming (item :: rest) (declarations before) (sectionAt (nearest? before)) =
        .error failure := by
  cases item with
  | refinement name =>
    exact ⟨_, .kind name, by rw [scanItems, turn_of_not_isSection offends]; rfl⟩
  | word kind name slot =>
    cases kind with
    | plain =>
      obtain ⟨text, refused⟩ := declare_of_offends offends fun _ => none.isSection
      exact ⟨_, .use rfl text, by rw [scanItems, refused]; rfl⟩
    | get | set | quote => exact ⟨_, .use rfl _, rfl⟩
  | path | group | literal => exact ⟨_, .use rfl _, rfl⟩

/-- Scanning goes through items without an offence and knows what they declare. -/
theorem scanItems_inoffensive (none : Inoffensive streaming (before ++ items)) (rest : List Item) :
    scanItems streaming (items ++ rest) (declarations before) (sectionAt (nearest? before)) =
      scanItems streaming rest (declarations (before ++ items))
        (sectionAt (nearest? (before ++ items))) := by
  -- What was declared and the section are functions of the items before, which grow by one at a
  -- time.
  induction items generalizing before with
  | nil => rw [List.append_nil, List.nil_append]
  | cons item items ih =>
    rw [List.cons_append, scanItems_cons (none before item items rfl)]
    rw [List.append_cons before item items] at none ⊢
    exact ih none

/-- Scanning ends with the first offence. -/
theorem scanItems_firstOffence (first : FirstOffence streaming items item) :
    ∃ failure, Refuses item failure ∧ scanItems streaming items empty .positional =
      .error failure := by
  obtain ⟨before, after, rfl, offends, none⟩ := first
  obtain ⟨failure, refuses, refused⟩ := scanItems_offence none offends after
  refine ⟨failure, refuses, ?_⟩
  have through := @scanItems_inoffensive streaming before [] none (item :: after)
  exact through.trans refused

/-- Either nothing in a list is an offence, or something is the first one. -/
theorem inoffensive_or_firstOffence (streaming : Bool) (items : List Item) :
    Inoffensive streaming items ∨ ∃ item, FirstOffence streaming items item := by
  induction items using List.reverseRecOn with
  | nil => exact Or.inl inoffensive_nil
  | append_singleton items item ih =>
    rcases ih with none | ⟨other, before, after, rfl, offends, none⟩
    · by_cases offends : Offends streaming items item
      · exact Or.inr ⟨item, items, [], rfl, offends, none⟩
      · exact Or.inl (inoffensive_concat_iff.2 ⟨none, offends⟩)
    · exact Or.inr ⟨other, before, after ++ [item], by simp, offends, none⟩

/-! ## The list as a whole -/

/-- Names that are new where they stand are all different. -/
theorem Inoffensive.nodup (none : Inoffensive streaming items) : (plainNames items).Nodup := by
  induction items using List.reverseRecOn with
  | nil => exact List.nodup_nil
  | append_singleton items item ih =>
    obtain ⟨none, accepted⟩ := inoffensive_concat_iff.1 none
    rw [plainNames_append]
    cases named : item.plainName? with
    | none => simpa [plainNames, named] using ih none
    | some name =>
      have new : name ∉ plainNames items := by
        unfold Item.plainName? at named
        split at named
        · cases named
          exact (not_or.1 accepted).2
        · cases named
      have last : plainNames [item] = [name] := by simp [plainNames, named]
      rw [last]
      exact List.nodup_append.2 ⟨ih none, List.nodup_singleton _, by
        rintro other mem _ (_ | ⟨_, ⟨⟩⟩) rfl; exact new mem⟩

/-- A parameter list has no offence, and with an input or an output no reserved name. -/
theorem wellFormed_iff :
    WellFormed streaming items ↔ Inoffensive streaming items ∧
      (.refinement "in" ∈ items ∨ .refinement "out" ∈ items →
        "in" ∉ plainNames items ∧ "out" ∉ plainNames items) := by
  constructor
  · intro formed
    refine ⟨fun before item after split => ?_, formed.reserved⟩
    have mem : item ∈ items := split ▸ List.mem_append_right _ List.mem_cons_self
    rcases formed.shape item mem with ⟨name, rfl⟩ | ⟨name, slot, rfl⟩
    · exact not_not.2 (formed.sections name mem)
    · have once := formed.once
      rw [split, plainNames_append] at once
      have new : name ∉ plainNames before := fun old =>
        (List.nodup_append.1 once).2.2 name old name List.mem_cons_self rfl
      exact not_or.2 ⟨not_not.2 (formed.places before name slot after split), new⟩
  · rintro ⟨none, reserved⟩
    refine ⟨fun item mem => ?_, fun name mem => ?_, fun before name slot after split => ?_,
      none.nodup, reserved⟩
    · obtain ⟨before, after, split⟩ := List.append_of_mem mem
      have accepted := none before item after split
      cases item with
      | refinement name => exact Or.inl ⟨name, rfl⟩
      | word kind name slot =>
        cases kind with
        | plain => exact Or.inr ⟨name, slot, rfl⟩
        | get | set | quote => exact absurd trivial accepted
      | path | group | literal => exact absurd trivial accepted
    · obtain ⟨before, after, split⟩ := List.append_of_mem mem
      exact not_not.1 (none before _ after split)
    · exact not_not.1 (not_or.1 (none before _ after split)).1

/-- The names that a streaming procedure may not declare. -/
theorem find?_isReserved_eq_none_iff {names : List String} :
    names.find? isReserved = none ↔ "in" ∉ names ∧ "out" ∉ names := by
  rw [List.find?_eq_none]
  constructor
  · exact fun free => ⟨fun mem => free _ mem rfl, fun mem => free _ mem rfl⟩
  · rintro ⟨noInput, noOutput⟩ name mem reserved
    simp only [isReserved, Bool.or_eq_true, decide_eq_true_eq] at reserved
    rcases reserved with rfl | rfl
    · exact noInput mem
    · exact noOutput mem

theorem isStreaming_declarations :
    (declarations items).isStreaming = true ↔ .refinement "in" ∈ items ∨
      .refinement "out" ∈ items := by
  simp [isStreaming, declarations, mem_refinements]

/-- Scanning items without an offence looks for reserved names in the end. -/
theorem scan_inoffensive {code : Code} (none : Inoffensive streaming code.items) :
    scan code streaming =
      match (declarations code.items).isStreaming, (plainNames code.items).find? isReserved with
      | true, some name => .error (.malformedUse s!"{name} is reserved in a streaming proc")
      | _, _ => .ok (declarations code.items) := by
  have through := @scanItems_inoffensive streaming code.items [] none []
  rw [List.append_nil, List.nil_append] at through
  have scanned : scanItems streaming code.items empty .positional = .ok (declarations code.items) :=
    through
  unfold scan
  rw [scanned, ← names_declarations]
  rfl

/-- A parameter list is what scanning accepts. -/
theorem scan_of_wellFormed {code : Code} (formed : WellFormed streaming code.items) :
    scan code streaming = .ok (declarations code.items) := by
  obtain ⟨none, reserved⟩ := wellFormed_iff.1 formed
  rw [scan_inoffensive none]
  cases streams : (declarations code.items).isStreaming with
  | false => rfl
  | true => rw [find?_isReserved_eq_none_iff.2 (reserved (isStreaming_declarations.1 streams))]

/-- How scanning fails when a list is no parameter list. -/
theorem scan_of_not_wellFormed {code : Code} (unformed : ¬ WellFormed streaming code.items) :
    ∃ failure, scan code streaming = .error failure ∧
      ((∃ item, FirstOffence streaming code.items item ∧ Refuses item failure) ∨
        Inoffensive streaming code.items ∧ ∃ text, failure = .malformedUse text) := by
  rcases inoffensive_or_firstOffence streaming code.items with none | ⟨item, first⟩
  · have reserved : ¬ (_ → _) := fun free => unformed (wellFormed_iff.2 ⟨none, free⟩)
    obtain ⟨streams, declares⟩ := Classical.not_imp.1 reserved
    rw [← find?_isReserved_eq_none_iff] at declares
    obtain ⟨name, found⟩ := Option.ne_none_iff_exists'.1 declares
    refine ⟨.malformedUse s!"{name} is reserved in a streaming proc", ?_, Or.inr ⟨none, _, rfl⟩⟩
    rw [scan_inoffensive none, isStreaming_declarations.2 streams, found]
  · obtain ⟨failure, refuses, refused⟩ := scanItems_firstOffence first
    refine ⟨failure, ?_, Or.inl ⟨item, first, refuses⟩⟩
    rw [scan, refused]
    rfl

/-- What it means that a list is accepted. -/
theorem of_scan {code : Code} {params : Parameters} (scanned : scan code streaming = .ok params) :
    WellFormed streaming code.items ∧ params = declarations code.items := by
  by_cases formed : WellFormed streaming code.items
  · cases (scan_of_wellFormed formed).symm.trans scanned
    exact ⟨formed, rfl⟩
  · obtain ⟨failure, refused, -⟩ := scan_of_not_wellFormed formed
    cases refused.symm.trans scanned

/-- What it means that a list is refused. -/
theorem of_scan_refused {code : Code} {failure : Failure}
    (refused : scan code streaming = .error failure) :
    (∃ name, failure = .unsupportedParameterKind name ∧
        FirstOffence streaming code.items (.refinement name)) ∨
      (∃ text, failure = .malformedUse text) ∧
        ∀ name, ¬ FirstOffence streaming code.items (.refinement name) := by
  by_cases formed : WellFormed streaming code.items
  · cases (scan_of_wellFormed formed).symm.trans refused
  · obtain ⟨failure, refused', decided⟩ := scan_of_not_wellFormed formed
    cases refused'.symm.trans refused
    rcases decided with ⟨item, first, name | ⟨other, text⟩⟩ | ⟨none, text, rfl⟩
    · exact Or.inl ⟨name, rfl, first⟩
    · -- The first offence is no refinement, and there is only one.
      refine Or.inr ⟨⟨text, rfl⟩, fun name first' => ?_⟩
      rw [first.unique first'] at other
      cases other
    · refine Or.inr ⟨⟨text, rfl⟩, fun name first' => ?_⟩
      obtain ⟨before, after, split, offends, -⟩ := first'
      exact none before _ after split offends

/-- No name is declared twice. -/
theorem nodup_of_scan {code : Code} {params : Parameters}
    (scanned : scan code streaming = .ok params) : params.names.Nodup := by
  obtain ⟨formed, rfl⟩ := of_scan scanned
  exact names_declarations code.items ▸ formed.once

/-- A streaming procedure declares neither `in` nor `out` as a name. -/
theorem not_mem_of_scan {code : Code} {params : Parameters}
    (scanned : scan code streaming = .ok params) (streams : params.isStreaming = true) :
    "in" ∉ params.names ∧ "out" ∉ params.names := by
  obtain ⟨formed, rfl⟩ := of_scan scanned
  rw [names_declarations]
  exact formed.reserved (isStreaming_declarations.1 streams)

/-- Scanning accepts just the parameter lists. It gives the names in front of all refinements, the
other names, and whether there is an input and an output. Where it fails, it refuses the kind of
the first offence if that is a refinement, and otherwise reports malformed use. -/
theorem scan_wellFormed (params : Code) (streaming : Bool) :
    ((∃ declared, scan params streaming = .ok declared) ↔ WellFormed streaming params.items) ∧
    (∀ declared, scan params streaming = .ok declared →
      declared.positional = plainNames (leading params.items) ∧
      declared.locals = plainNames (sectioned params.items) ∧
      (declared.input = true ↔ .refinement "in" ∈ params.items) ∧
      (declared.output = true ↔ .refinement "out" ∈ params.items)) ∧
    ∀ failure, scan params streaming = .error failure →
      (∀ name, failure = .unsupportedParameterKind name ↔
        FirstOffence streaming params.items (.refinement name)) ∧
      ((∀ name, ¬ FirstOffence streaming params.items (.refinement name)) →
        ∃ text, failure = .malformedUse text) := by
  refine ⟨⟨fun ⟨_, scanned⟩ => (of_scan scanned).1, fun formed => ⟨_, scan_of_wellFormed formed⟩⟩,
    fun declared scanned => ?_, fun failure refused => ?_⟩
  · obtain ⟨-, rfl⟩ := of_scan scanned
    exact ⟨rfl, rfl, by simp [declarations, mem_refinements],
      by simp [declarations, mem_refinements]⟩
  · rcases of_scan_refused refused with ⟨name, rfl, first⟩ | ⟨⟨text, rfl⟩, none⟩
    · refine ⟨fun other => ⟨fun same => ?_, fun first' => ?_⟩, fun none => absurd first (none name)⟩
      · cases same
        exact first
      · cases first.unique first'
        rfl
    · refine ⟨fun name => ⟨fun same => ?_, fun first => absurd first (none name)⟩,
        fun _ => ⟨text, rfl⟩⟩
      cases same

end Parameters

end Wordstream
