import Wordstream.Proofs.Exports
import Wordstream.Proofs.Scoping

/-!
# Procedures enclose their bodies

A procedure is made of a copy of the body that it is given. The copy mirrors the body item by
item; each of its sites has a slot of its own, which is new. A site whose symbol is declared is
bound to its place in the home of the definition, and the home is new too; every other site is
bound as the one that it mirrors. So the body keeps its meaning, and two definitions have nothing
in common, were they made of the same body a hundred times.

## Main results

* `Machine.mirrors_enclose` — a copy that is bound by a scope
* `encloses_makeProcedure` — procedures enclose their bodies
* `Aftermath.definitions_apart` — two definitions have nothing in common
-/

namespace Wordstream

/-! ## Mirrored items -/

namespace Item

mutual

/-- One item mirrors another: it is the same but for slots and identities, and the slots of its
sites are related to those of the other's. -/
inductive Mirrors (R : String → SlotId → SlotId → Prop) : Item → Item → Prop
  | word (kind : WordKind) {symbol : String} {slot slot' : SlotId} (h : R symbol slot slot') :
      Mirrors R (.word kind symbol slot) (.word kind symbol slot')
  | path (kind : WordKind) {head : String} (fields : List String) {slot slot' : SlotId}
      (h : R head slot slot') :
      Mirrors R (.path kind head fields slot) (.path kind head fields slot')
  | group (bracket : Bracket) (id id' : CodeId) {items items' : List Item}
      (h : MirrorsAll R items items') :
      Mirrors R (.group bracket id items) (.group bracket id' items')
  | literal (value : Literal) : Mirrors R (.literal value) (.literal value)
  | refinement (name : String) : Mirrors R (.refinement name) (.refinement name)

/-- The items of one list mirror those of another. -/
inductive MirrorsAll (R : String → SlotId → SlotId → Prop) : List Item → List Item → Prop
  | nil : MirrorsAll R [] []
  | cons {item item' : Item} {rest rest' : List Item} (first : Mirrors R item item')
      (others : MirrorsAll R rest rest') : MirrorsAll R (item :: rest) (item' :: rest')

end

variable {R S : String → SlotId → SlotId → Prop}

mutual

theorem Mirrors.imp {item item' : Item} (h : Mirrors R item item')
    (weaker : ∀ symbol slot slot', ⟨symbol, slot⟩ ∈ item.sites → ⟨symbol, slot'⟩ ∈ item'.sites →
      R symbol slot slot' → S symbol slot slot') : Mirrors S item item' := by
  cases h with
  | word kind h =>
    exact .word kind (weaker _ _ _ (List.mem_singleton.2 rfl) (List.mem_singleton.2 rfl) h)
  | path kind fields h =>
    exact .path kind fields (weaker _ _ _ (List.mem_singleton.2 rfl) (List.mem_singleton.2 rfl) h)
  | group bracket id id' h => exact .group bracket id id' (MirrorsAll.imp h weaker)
  | literal value => exact .literal value
  | refinement name => exact .refinement name

/-- What is known of the slots of sites may be replaced by what follows from it. -/
theorem MirrorsAll.imp {items items' : List Item} (h : MirrorsAll R items items')
    (weaker : ∀ symbol slot slot', ⟨symbol, slot⟩ ∈ sitesOf items →
      ⟨symbol, slot'⟩ ∈ sitesOf items' →
      R symbol slot slot' → S symbol slot slot') : MirrorsAll S items items' := by
  cases h with
  | nil => exact .nil
  | cons first others =>
    refine .cons (Mirrors.imp first fun symbol slot slot' mem mem' => ?_)
      (MirrorsAll.imp others fun symbol slot slot' mem mem' => ?_)
    · exact weaker symbol slot slot' (List.mem_append_left _ mem) (List.mem_append_left _ mem')
    · exact weaker symbol slot slot' (List.mem_append_right _ mem) (List.mem_append_right _ mem')

end

mutual

theorem Mirrors.forall_sites {P : SlotId → Prop}
    (known : ∀ symbol slot slot', R symbol slot slot' → P slot') {item item' : Item}
    (h : Mirrors R item item') : ∀ site ∈ item'.sites, P site.slot := by
  cases h with
  | word kind h => exact List.forall_mem_singleton.2 (known _ _ _ h)
  | path kind fields h => exact List.forall_mem_singleton.2 (known _ _ _ h)
  | group bracket id id' h => exact MirrorsAll.forall_sites known h
  | literal value => exact List.forall_mem_nil _
  | refinement name => exact List.forall_mem_nil _

/-- What is known of the slots of all sites that mirror others. -/
theorem MirrorsAll.forall_sites {P : SlotId → Prop}
    (known : ∀ symbol slot slot', R symbol slot slot' → P slot') {items items' : List Item}
    (h : MirrorsAll R items items') : ∀ site ∈ sitesOf items', P site.slot := by
  cases h with
  | nil => exact List.forall_mem_nil _
  | cons first others =>
    exact List.forall_mem_append.2
      ⟨Mirrors.forall_sites known first, MirrorsAll.forall_sites known others⟩

end

end Item

/-! ## Copies -/

namespace Machine

theorem AddsSlots.binding?_eq {m m' : Machine} (h : m.AddsSlots m') {slot : SlotId}
    (old : slot.index < m.slots.size) : m'.binding? slot = m.binding? slot := by
  rw [binding?, binding?, Array.getD_eq_getD_getElem?, Array.getD_eq_getD_getElem?, h _ old]

/-- The slot of a site and that of the site which mirrors it hold the same. -/
def SameBinding (m m' : Machine) : String → SlotId → SlotId → Prop :=
  fun _ slot slot' => slot'.index < m'.slots.size ∧ m'.binding? slot' = m.binding? slot

theorem sameBinding_newSlot (m : Machine) (symbol : String) (slot : SlotId) :
    SameBinding m (m.newSlot (m.binding? slot)).2 symbol slot (m.newSlot (m.binding? slot)).1 := by
  refine ⟨?_, ?_⟩
  · change m.slots.size < (m.slots.push _).size
    rw [Array.size_push]
    exact Nat.lt_succ_self _
  · change (m.slots.push _).getD m.slots.size none = _
    rw [Array.getD_eq_getD_getElem?, Array.getElem?_push_size]
    rfl

mutual

theorem mirrors_copyItem (m : Machine) : (item : Item) →
    (∀ site ∈ item.sites, site.slot.index < m.slots.size) →
      Item.Mirrors (SameBinding m (copyItem m item).2) item (copyItem m item).1
  | .word kind symbol slot, _ => by
    simp only [copyItem]
    exact .word kind (m.sameBinding_newSlot symbol slot)
  | .path kind head fields slot, _ => by
    simp only [copyItem]
    exact .path kind fields (m.sameBinding_newSlot head slot)
  | .group bracket id items, within => by
    simp only [copyItem]
    exact .group bracket id _ (mirrors_copyItems m items within)
  | .literal value, _ => by simp only [copyItem]; exact .literal value
  | .refinement name, _ => by simp only [copyItem]; exact .refinement name

/-- A copy mirrors what it is a copy of, and its sites are bound alike. -/
theorem mirrors_copyItems (m : Machine) : (items : List Item) →
    (∀ site ∈ Item.sitesOf items, site.slot.index < m.slots.size) →
      Item.MirrorsAll (SameBinding m (copyItems m items).2) items (copyItems m items).1
  | [], _ => by simp only [copyItems]; exact .nil
  | item :: rest, within => by
    simp only [copyItems]
    have here (site : Site) (mem : site ∈ item.sites) : site.slot.index < m.slots.size :=
      within site (List.mem_append_left _ mem)
    have there (site : Site) (mem : site ∈ Item.sitesOf rest) : site.slot.index < m.slots.size :=
      within site (List.mem_append_right _ mem)
    have adds := (builds_copyItem m item).lays.adds
    have more := (builds_copyItems (copyItem m item).2 rest).lays.adds
    refine .cons ((mirrors_copyItem m item here).imp fun symbol slot slot' _ _ same => ?_)
      ((mirrors_copyItems _ rest fun site mem => ?_).imp fun symbol slot slot' mem _ same => ?_)
    · exact ⟨Nat.lt_of_lt_of_le same.1 more.size_le, (more.binding?_eq same.1).trans same.2⟩
    · exact Nat.lt_of_lt_of_le (there site mem) adds.size_le
    · exact ⟨same.1, same.2.trans (adds.binding?_eq (there _ mem))⟩

end

/-- A copy that is bound by a scope has new slots; these are bound as the scope has it for their
symbols, and where it does not know these, as the slots of the code. -/
theorem mirrors_enclose {m : Machine} {code : Code}
    (within : ∀ site ∈ code.sites, site.slot.index < m.slots.size) (scope : Scope) :
    Item.MirrorsAll (fun symbol slot slot' => m.slots.size ≤ slot'.index ∧
        slot'.index < (m.enclose code scope).2.slots.size ∧
        (m.enclose code scope).2.binding? slot' = (scope symbol).or (m.binding? slot))
      code.items (m.enclose code scope).1.items := by
  refine (mirrors_copyItems m code.items within).imp fun symbol slot slot' _ mem same => ?_
  have bound := (m.houses_copy code).binding?_bind scope mem
  refine ⟨(m.builds_copy code).lays.new _ mem, ?_, bound.trans (congrArg _ same.2)⟩
  have size : (m.enclose code scope).2.slots.size = (m.copy code).2.slots.size := size_bind ..
  rw [size]
  exact same.1

end Machine

/-! ## Definitions -/

/-- Where a definition keeps the values of its names: in frames that are counted from its base, or
in the activation on its scene. -/
inductive Home where
  | frame (ref : Ref .frame)
  | scene (ref : Ref .scene)

namespace Home

/-- A machine has a home. -/
def In (m : Machine) : Home → Prop
  | frame ref => m.frames.Has ref
  | scene ref => m.scenes.Has ref

/-- A place in a home. -/
def slot : Home → Nat → Binding
  | frame ref, index => .frameSlot ref index
  | scene ref, index => .cell ref index

end Home

/-- How a definition binds a site that was bound in some way or not at all: a declared name to its
place in the home, `in` and `out` to the input and the output of the home if these are declared,
and any other symbol as it was. -/
structure Parameters.Resolves (declared : Parameters) (home : Home) (symbol : String)
    (before after : Option Binding) : Prop where
  name (index : Nat) (named : declared.names[index]? = some symbol) : after = some (home.slot index)
  input (takes : declared.input = true) (same : symbol = "in") :
    ∃ scene, home = .scene scene ∧ after = some (.input scene)
  output (gives : declared.output = true) (same : symbol = "out") :
    ∃ scene id, home = .scene scene ∧ after = some (.output (.leading id (.emit scene)))
  other (unnamed : symbol ∉ declared.names) (input : declared.input = true → symbol ≠ "in")
    (output : declared.output = true → symbol ≠ "out") : after = before

namespace Machine

/-- Calls of a procedure run a body whose names are kept in a home. -/
inductive Defines (m : Machine) : Procedure → Home → Code → Prop
  | frame (id : Nat) {ref : Ref .frame} {body : Code} (has : m.frames.Has ref)
      (runs : (m.frames.get ref).body = body) :
      Defines m (.leading id (.frame ref)) (.frame ref) body
  | streaming (id : Nat) (definition : StreamDefinition) (has : m.scenes.Has definition.scene) :
      Defines m (.leading id (.streaming definition)) (.scene definition.scene) definition.body

theorem Defines.has {m : Machine} {procedure : Procedure} {home : Home} {body : Code}
    (h : m.Defines procedure home body) : home.In m := by
  cases h with
  | frame id has _ => exact has
  | streaming id definition has => exact has

/-- A procedure is defined with some parameters: it runs a copy of the body whose names have a new
home. No site that there was is bound anew; the copy mirrors the body, its slots are new, and they
are bound as the parameters have it. -/
structure Encloses (m : Machine) (declared : Parameters) (body : Code) (procedure : Procedure)
    (home : Home) (copy : Code) (m' : Machine) : Prop where
  defines : m'.Defines procedure home copy
  new : ¬ home.In m
  adds : m.AddsSlots m'
  mirrors : Item.MirrorsAll (fun symbol slot slot' => m.slots.size ≤ slot'.index ∧
      slot'.index < m'.slots.size ∧
      declared.Resolves home symbol (m.binding? slot) (m'.binding? slot'))
    body.items copy.items

end Machine

theorem slotIndex?_of_getElem? {names : List String} (once : names.Nodup) {index : Nat}
    {symbol : String}
    (named : names[index]? = some symbol) : slotIndex? names symbol = some index := by
  obtain ⟨within, rfl⟩ := List.getElem?_eq_some_iff.1 named
  unfold slotIndex?
  refine List.findIdx?_eq_some_iff_getElem.2 ⟨within, decide_eq_true rfl, fun earlier before => ?_⟩
  simpa using fun same => Nat.ne_of_lt before (once.getElem_inj_iff.1 same)

theorem slotIndex?_of_not_mem {names : List String} {symbol : String} (unnamed : symbol ∉ names) :
    slotIndex? names symbol = none := by
  unfold slotIndex?
  refine List.findIdx?_eq_none_iff.2 fun name mem => decide_eq_false ?_
  rintro rfl
  exact unnamed mem

/-- The scope of a procedure with frames binds names to places of its frame, and nothing else. -/
theorem resolves_frameScope {declared : Parameters} (once : declared.names.Nodup)
    (steady : declared.isStreaming = false) (ref : Ref .frame) (symbol : String)
    (before : Option Binding) :
    declared.Resolves (.frame ref) symbol before
      ((frameScope ref declared.names symbol).or before) where
  name index named := by
    rw [frameScope, slotIndex?_of_getElem? once named]
    rfl
  input takes := by
    rw [Parameters.isStreaming, takes] at steady
    cases steady
  output gives := by
    rw [Parameters.isStreaming, gives, Bool.or_true] at steady
    cases steady
  other unnamed _ _ := by
    rw [frameScope, slotIndex?_of_not_mem unnamed]
    rfl

/-- The scope of a streaming procedure binds names to places of the activation on its scene, `in`
to its input and `out` to its output if it has them, and nothing else. -/
theorem resolves_streamScope {declared : Parameters} (once : declared.names.Nodup)
    (free : "in" ∉ declared.names ∧ "out" ∉ declared.names) (scene : Ref .scene) (id : Nat)
    (symbol : String) (before : Option Binding) :
    declared.Resolves (.scene scene) symbol before
      ((streamScope scene (.leading id (.emit scene)) declared symbol).or before) where
  name index named := by
    have mem := List.mem_of_getElem? named
    -- The two words that have a meaning of their own are not declared.
    have notIn : symbol ≠ "in" := fun same => free.1 (same ▸ mem)
    have notOut : symbol ≠ "out" := fun same => free.2 (same ▸ mem)
    simp only [streamScope, notIn, notOut, decide_false, Bool.and_false,
      slotIndex?_of_getElem? once named]
    rfl
  input takes same := by
    refine ⟨scene, rfl, ?_⟩
    subst same
    simp only [streamScope, takes]
    rfl
  output gives same := by
    refine ⟨scene, id, rfl, ?_⟩
    subst same
    simp [streamScope, gives]
  other unnamed input output := by
    have notIn : (declared.input && decide (symbol = "in")) = false := by
      cases takes : declared.input with
      | false => rfl
      | true => simpa using input takes
    have notOut : (declared.output && decide (symbol = "out")) = false := by
      cases gives : declared.output with
      | false => rfl
      | true => simpa using output gives
    simp only [streamScope, notIn, notOut, slotIndex?_of_not_mem unnamed]
    rfl

/-- A procedure with frames is made. -/
theorem makeFrameProcedure_apply (params : Parameters) (body : Code) (m : Machine) :
    makeFrameProcedure params body m =
      (some (.ok (.procedure (.leading
          (m.enclose body (frameScope m.frames.next params.names)).2.fresh
          (.frame m.frames.next)))),
        { (m.enclose body (frameScope m.frames.next params.names)).2 with
          frames := (m.enclose body (frameScope m.frames.next params.names)).2.frames.alloc
            ⟨params.positional.length, params.names,
              (m.enclose body (frameScope m.frames.next params.names)).1, 0⟩
          fresh := (m.enclose body (frameScope m.frames.next params.names)).2.fresh + 1 }) := rfl

theorem encloses_makeFrameProcedure {declared : Parameters} (once : declared.names.Nodup)
    (steady : declared.isStreaming = false) {body : Code} {m : Machine}
    (within : ∀ site ∈ body.sites, site.slot.index < m.slots.size) :
    ∃ procedure copy m', makeFrameProcedure declared body m =
      (some (.ok (.procedure procedure)), m') ∧
      m.Encloses declared body procedure (.frame m.frames.next) copy m' := by
  let enclosed := m.enclose body (frameScope m.frames.next declared.names)
  let cell : FrameDefinition := ⟨declared.positional.length, declared.names, enclosed.1, 0⟩
  -- Copying and binding concern no definitions, so the next one is still the same.
  have frames : enclosed.2.frames = m.frames :=
    congrArg Machine.Footing.frames (Machine.footing_of_bearings
      ((Machine.marginal_enclose body _).bearings_eq m))
  refine ⟨_, enclosed.1, _, makeFrameProcedure_apply declared body m, ?_, Nat.lt_irrefl _,
    (m.builds_copy body).lays.bind _, ?_⟩
  · have there : (enclosed.2.frames.alloc cell).Has m.frames.next := by
      rw [frames]
      exact Arena.has_alloc_next ..
    have body_eq : ((enclosed.2.frames.alloc cell).get m.frames.next).body = enclosed.1 := by
      rw [frames, Arena.get_alloc, if_pos rfl]
    exact .frame enclosed.2.fresh there body_eq
  · refine (Machine.mirrors_enclose within _).imp fun symbol slot slot' _ _ bound => ?_
    refine ⟨bound.1, bound.2.1, ?_⟩
    have resolved := resolves_frameScope once steady m.frames.next symbol (m.binding? slot)
    rwa [← bound.2.2] at resolved

/-- A streaming procedure is made. -/
theorem makeStreamProcedure_apply (params : Parameters) (body : Code) (m : Machine) :
    makeStreamProcedure params body m =
      (let enclosed := { m with scenes := m.scenes.alloc none, fresh := m.fresh + 1 }.enclose body
        (streamScope m.scenes.next (.leading m.fresh (.emit m.scenes.next)) params)
      (some (.ok (.procedure (.leading enclosed.2.fresh (.streaming
          ⟨params.positional.length, params.names.length, enclosed.1, params.input,
            m.scenes.next⟩)))),
        { enclosed.2 with fresh := enclosed.2.fresh + 1 })) := rfl

theorem encloses_makeStreamProcedure {declared : Parameters} (once : declared.names.Nodup)
    (free : "in" ∉ declared.names ∧ "out" ∉ declared.names) {body : Code} {m : Machine}
    (within : ∀ site ∈ body.sites, site.slot.index < m.slots.size) :
    ∃ procedure copy m', makeStreamProcedure declared body m =
      (some (.ok (.procedure procedure)), m') ∧
      m.Encloses declared body procedure (.scene m.scenes.next) copy m' := by
  let before : Machine := { m with scenes := m.scenes.alloc none, fresh := m.fresh + 1 }
  let enclosed := before.enclose body
    (streamScope m.scenes.next (.leading m.fresh (.emit m.scenes.next)) declared)
  have scenes : enclosed.2.scenes = before.scenes :=
    congrArg Machine.Footing.scenes (Machine.footing_of_bearings
      ((Machine.marginal_enclose body _).bearings_eq before))
  refine ⟨_, enclosed.1, _, makeStreamProcedure_apply declared body m, ?_, Nat.lt_irrefl _,
    (before.builds_copy body).lays.bind _, ?_⟩
  · have there : enclosed.2.scenes.Has m.scenes.next := by
      rw [scenes]
      exact Arena.has_alloc_next ..
    exact .streaming enclosed.2.fresh ⟨declared.positional.length, declared.names.length,
      enclosed.1, declared.input, m.scenes.next⟩ there
  · refine (Machine.mirrors_enclose (m := before) within _).imp
      fun symbol slot slot' _ _ bound => ?_
    refine ⟨bound.1, bound.2.1, ?_⟩
    have resolved := resolves_streamScope once free m.scenes.next m.fresh symbol (m.binding? slot)
    have bound_eq : enclosed.2.binding? slot' = _ := bound.2.2
    change declared.Resolves _ _ _ (enclosed.2.binding? slot')
    rw [bound_eq]
    exact resolved

/-- A parameter list that is accepted makes a procedure of every body, which encloses the body. -/
theorem encloses_makeProcedure {params body : Code} {streaming : Bool} {declared : Parameters}
    {m : Machine} (accepted : Parameters.scan params streaming = .ok declared)
    (within : ∀ site ∈ body.sites, site.slot.index < m.slots.size) :
    ∃ procedure home copy m',
      makeProcedure params body streaming m = (some (.ok (.procedure procedure)), m') ∧
      m.Encloses declared body procedure home copy m' := by
  have once := Parameters.nodup_of_scan accepted
  have opened : makeProcedure params body streaming m =
      (if declared.isStreaming then makeStreamProcedure declared body
        else makeFrameProcedure declared body) m := by
    rw [makeProcedure, Run.bind_apply, accepted]
    rfl
  rw [opened]
  cases streams : declared.isStreaming with
  | true =>
    obtain ⟨procedure, copy, m', made, encloses⟩ :=
      encloses_makeStreamProcedure once (Parameters.not_mem_of_scan accepted streams) within
    exact ⟨procedure, _, copy, m', made, encloses⟩
  | false =>
    obtain ⟨procedure, copy, m', made, encloses⟩ := encloses_makeFrameProcedure once streams within
    exact ⟨procedure, _, copy, m', made, encloses⟩

/-! ## What lasts -/

namespace Machine

/-- No slots, no definitions and no scenes are taken away, and definitions keep their bodies. -/
structure Endures (m m' : Machine) : Prop where
  size_le : m.slots.size ≤ m'.slots.size
  frame {ref : Ref .frame} (has : m.frames.Has ref) :
    m'.frames.Has ref ∧ (m'.frames.get ref).body = (m.frames.get ref).body
  scene {ref : Ref .scene} (has : m.scenes.Has ref) : m'.scenes.Has ref

namespace Endures

variable {m m' m'' : Machine}

theorem of_eq (size_le : m.slots.size ≤ m'.slots.size) (frames : m'.frames = m.frames)
    (scenes : m'.scenes = m.scenes) : m.Endures m' where
  size_le := size_le
  frame has := ⟨frames ▸ has, by rw [frames]⟩
  scene has := scenes ▸ has

theorem of_footing (size_le : m.slots.size ≤ m'.slots.size) (same : m'.footing = m.footing) :
    m.Endures m' := .of_eq size_le (congrArg Footing.frames same) (congrArg Footing.scenes same)

theorem trans (first : m.Endures m') (second : m'.Endures m'') : m.Endures m'' where
  size_le := Nat.le_trans first.size_le second.size_le
  frame has := ⟨(second.frame (first.frame has).1).1,
    (second.frame (first.frame has).1).2.trans (first.frame has).2⟩
  scene has := second.scene (first.scene has)

theorem of_surroundings (same : m'.surroundings = m.surroundings) : m.Endures m' :=
  .of_footing (Nat.le_of_eq (congrArg (·.2.1.1.size) same).symm) (congrArg Prod.fst same)

/-- The base of a definition is no part of what lasts. -/
theorem setBase (m : Machine) (ref : Ref .frame) (base : Nat) : m.Endures (m.setBase ref base) where
  size_le := Nat.le_refl _
  frame {other} has := by
    refine ⟨has.set ref _, ?_⟩
    rw [get_setBase]
    split
    · next same => rw [same]
    · rfl
  scene has := has

theorem home (h : m.Endures m') {home : Home} (has : home.In m) : home.In m' := by
  cases home with
  | frame ref => exact (h.frame has).1
  | scene ref => exact h.scene has

/-- What calls of a procedure run stays the same. -/
theorem defines (h : m.Endures m') {procedure : Procedure} {home : Home} {body : Code}
    (defined : m.Defines procedure home body) : m'.Defines procedure home body := by
  cases defined with
  | frame id has runs => exact .frame id (h.frame has).1 ((h.frame has).2.trans runs)
  | streaming id definition has => exact .streaming id definition (h.scene has)

end Endures

theorem Stirs.endures {strict : Prop} {m m' : Machine} (h : m.Stirs strict m') : m.Endures m' := by
  induction h with
  | aside bearings _ adds => exact .of_footing adds.size_le (footing_of_bearings bearings)
  | assign | cell | store => exact .of_eq (Nat.le_refl _) rfl rfl
  | dictionary m table slots _ binds =>
    have kept (slot : SlotId) (old : slot.index < m.slots.size) : slot.index < slots.size :=
      (Retains.newScope m table binds).slot old
    exact .of_eq (Nat.le_of_not_lt fun fewer => Nat.lt_irrefl _ (kept ⟨slots.size⟩ fewer)) rfl rfl
  | define m arity names body =>
    refine ⟨Nat.le_refl _, fun has => ⟨has.alloc _, ?_⟩, id⟩
    dsimp only
    rw [Arena.get_alloc, if_neg has.ne_next]
  | scene m => exact ⟨Nat.le_refl _, fun has => ⟨has, rfl⟩, fun has => has.alloc none⟩
  | trans _ _ first second => exact first.trans second

end Machine

/-- Slots and definitions last, wherever evaluation stops. -/
def enduring : Trend where
  Holds := Machine.Endures
  trans := .trans
  stir h := h.endures
  arrange same _ := .of_surroundings same
  enlist value m := .of_footing
    (Nat.le_of_eq (congrArg (·.1.size) (wording_autoResume value m)).symm)
    (footing_autoResume value m)
  enter m ref _ :=
    (Machine.Endures.setBase m ref m.stack.size).trans (.of_eq (Nat.le_refl _) rfl rfl)
  leave m := by
    unfold Machine.leave
    cases m.calls with
    | nil => exact .of_eq (Nat.le_refl _) rfl rfl
    | cons call calls =>
      exact (Machine.Endures.setBase m call.definition call.previous).trans
        (.of_eq (Nat.le_refl _) rfl rfl)
  mount m scene _ := ⟨Nat.le_refl _, fun has => ⟨has, rfl⟩, fun has => has.set scene _⟩
  dismount m scene _ _ := ⟨Nat.le_refl _, fun has => ⟨has, rfl⟩, fun has => has.set scene _⟩

/-- Nothing that leaves calls and words alone takes away slots and definitions. -/
def endurance : Plain where
  toModest := enduring.modest
  quiet h m := .of_surroundings (h m)

theorem tracks_endurance : endurance.discipline.Tracks where
  track _ _ _ := .of_eq (Nat.le_refl _) rfl rfl
  untrack _ _ := .of_eq (Nat.le_refl _) rfl rfl
  markStopped _ _ := .of_eq (Nat.le_refl _) rfl rfl

/-- What may happen to a machine later on: the host prepares something and takes nothing away, and
something is asked of the machine, whether that has ended or is interrupted. -/
inductive Aftermath (host : Host) (m : Machine) : Machine → Prop
  | refl : Aftermath host m m
  | prepare {m' m'' : Machine} (before : Aftermath host m m') (kept : m'.Endures m'') :
      Aftermath host m m''
  | demand {m' : Machine} {α : Type} (before : Aftermath host m m') (demand : Demand α)
      (stop : Machine → Bool) (fuel : Nat) :
      Aftermath host m (demand.run (.interrupted host stop fuel) fuel m').2

namespace Aftermath

variable {host : Host} {m m' : Machine}

/-- Whatever happens, slots and definitions last. -/
theorem endures (hosted : endurance.discipline.Admits host) (h : Aftermath host m m') :
    m.Endures m' := by
  induction h with
  | refl => exact .of_eq (Nat.le_refl _) rfl rfl
  | prepare _ kept ih => exact ih.trans kept
  | @demand m' _ _ demand stop fuel ih =>
    have asked := demand.fits (P := endurance) (Trend.relates_interrupted hosted stop fuel) fuel
      (fun _ => tracks_endurance) fun _ => .of_eq (Nat.le_refl _) rfl rfl
    exact ih.trans (asked m')

end Aftermath

/-! ## Definitions apart -/

/-- Two codes have no slot in common. -/
def Code.IsApart (code other : Code) : Prop :=
  ∀ site ∈ code.sites, ∀ site' ∈ other.sites, site.slot ≠ site'.slot

/-- Binding a code concerns none that has no slot in common with it. -/
theorem Code.IsApart.binding?_bind {code other : Code} (h : code.IsApart other) (m : Machine)
    (scope : Scope) {site : Site} (mem : site ∈ other.sites) :
    (m.bind code scope).binding? site.slot = m.binding? site.slot :=
  Machine.binding?_bind_of_ne (fun site' mem' => h site' mem' site mem) scope

theorem Code.IsApart.symm {code other : Code} (h : code.IsApart other) : other.IsApart code :=
  fun site mem site' mem' same => h site' mem' site mem same.symm

namespace Machine.Encloses

variable {m m' m'' m₃ : Machine} {declared declared' : Parameters} {body body' copy copy' : Code}
  {procedure procedure' : Procedure} {home home' : Home}

theorem home_ne (first : m.Encloses declared body procedure home copy m') (later : m'.Endures m'')
    (second : m''.Encloses declared' body' procedure' home' copy' m₃) : home' ≠ home := by
  rintro rfl
  exact second.new (later.home first.defines.has)

/-- The copies of bodies have no slot in common. -/
theorem isApart (first : m.Encloses declared body procedure home copy m') (later : m'.Endures m'')
    (second : m''.Encloses declared' body' procedure' home' copy' m₃) : copy.IsApart copy' := by
  intro site mem site' mem' same
  have early : site.slot.index < m'.slots.size :=
    first.mirrors.forall_sites (fun _ _ _ known => known.2.1) site mem
  have late : m''.slots.size ≤ site'.slot.index :=
    second.mirrors.forall_sites (fun _ _ _ known => known.1) site' mem'
  rw [← same] at late
  exact Nat.lt_irrefl _ (Nat.lt_of_lt_of_le early (Nat.le_trans later.size_le late))

end Machine.Encloses

/-- A parameter list that is accepted makes a procedure of every body: a copy of the body, all its
slots new, with declared names bound to places in a new home and everything else bound as in the
body, while no slot that there was is bound anew. When the same is defined once more, whatever has
happened meanwhile, the two definitions have neither a slot nor a home in common, the first still
runs its copy, and whoever binds one of the copies leaves the other as it is. -/
theorem Aftermath.definitions_apart {host : Host} (hosted : endurance.discipline.Admits host)
    {params body : Code} {streaming : Bool} {declared : Parameters} {m : Machine}
    (accepted : Parameters.scan params streaming = .ok declared)
    (within : ∀ site ∈ body.sites, site.slot.index < m.slots.size) :
    ∃ procedure home copy m₁,
      makeProcedure params body streaming m = (some (.ok (.procedure procedure)), m₁) ∧
      m.Encloses declared body procedure home copy m₁ ∧
      ∀ m₂, Aftermath host m₁ m₂ → ∃ procedure' home' copy' m₃,
        makeProcedure params body streaming m₂ = (some (.ok (.procedure procedure')), m₃) ∧
        m₂.Encloses declared body procedure' home' copy' m₃ ∧
        m₃.Defines procedure home copy ∧ home' ≠ home ∧ copy.IsApart copy' ∧
        ∀ (m₄ : Machine) (scope : Scope),
          (∀ site ∈ copy.sites, (m₄.bind copy' scope).binding? site.slot = m₄.binding? site.slot) ∧
          (∀ site ∈ copy'.sites, (m₄.bind copy scope).binding? site.slot =
            m₄.binding? site.slot) := by
  obtain ⟨procedure, home, copy, m₁, made, first⟩ := encloses_makeProcedure accepted within
  refine ⟨procedure, home, copy, m₁, made, first, fun m₂ happened => ?_⟩
  have later := happened.endures hosted
  have within' (site : Site) (mem : site ∈ body.sites) : site.slot.index < m₂.slots.size :=
    Nat.lt_of_lt_of_le (within site mem) (Nat.le_trans first.adds.size_le later.size_le)
  obtain ⟨procedure', home', copy', m₃, made', second⟩ := encloses_makeProcedure accepted within'
  have apart := first.isApart later second
  have lasts : m₂.Endures m₃ := by
    have made_endures := endurance.discipline.allows_makeProcedure params body streaming m₂
    rw [made'] at made_endures
    exact made_endures
  exact ⟨procedure', home', copy', m₃, made', second, (later.trans lasts).defines first.defines,
    first.home_ne later second, apart, fun m₄ scope =>
      ⟨fun site mem => apart.symm.binding?_bind m₄ scope mem,
        fun site mem => apart.binding?_bind m₄ scope mem⟩⟩

/-- A parameter list with a name, a local and an output. -/
def sampleParameters : Code :=
  ⟨⟨3⟩, [.word .plain "x" ⟨0⟩, .refinement "local", .word .plain "y" ⟨1⟩, .refinement "out"]⟩

/-- A body with words and a path at three depths is defined, then run where it stands, and then
defined once more. -/
theorem Aftermath.definitions_apart_of_nested :
    Parameters.scan sampleParameters true = .ok ⟨["x"], ["y"], false, true⟩ ∧
    (∀ site ∈ Machine.nestedCode.sites, site.slot.index < Machine.nestedHome.slots.size) ∧
    ∃ procedure home copy m₁,
      makeProcedure sampleParameters Machine.nestedCode true Machine.nestedHome =
        (some (.ok (.procedure procedure)), m₁) ∧
      Machine.nestedHome.Encloses ⟨["x"], ["y"], false, true⟩ Machine.nestedCode procedure home copy
        m₁ ∧
      ∃ procedure' home' copy' m₃,
        makeProcedure sampleParameters Machine.nestedCode true
          ((Demand.execute Machine.nestedCode).run (.interrupted .none (fun _ => false) 3) 3 m₁).2 =
            (some (.ok (.procedure procedure')), m₃) ∧
        m₃.Defines procedure home copy ∧ m₃.Defines procedure' home' copy' ∧ home' ≠ home ∧
        copy.IsApart copy' := by
  have accepted : Parameters.scan sampleParameters true = .ok ⟨["x"], ["y"], false, true⟩ := by rfl
  have within : ∀ site ∈ Machine.nestedCode.sites, site.slot.index <
      Machine.nestedHome.slots.size := by
    decide
  obtain ⟨procedure, home, copy, m₁, made, first, again⟩ :=
    definitions_apart endurance.discipline.admits_none accepted within
  obtain ⟨procedure', home', copy', m₃, made', second, lasts, homes, apart, -⟩ :=
    again _ (.demand .refl (.execute Machine.nestedCode) (fun _ => false) 3)
  exact ⟨accepted, within, procedure, home, copy, m₁, made, first, procedure', home', copy', m₃,
    made', lasts, second.defines, homes, apart⟩

end Wordstream
