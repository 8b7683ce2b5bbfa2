import Wordstream.Proofs.Declarations
import Wordstream.Proofs.Discipline

/-!
# Evaluation respects disciplines

Every part of evaluation is written against the record of the recursive calls. If the calls of two
engines are related by a discipline, then so is each part of evaluation, and with it one more unit
of fuel.

## Main results

* `Discipline.Relates.step` — the calls of related engines with one more unit of fuel are related
-/

namespace Wordstream

/-! ## Code -/

namespace Machine

/-- What an action gives depends on the slots of code and the next identity only, and it changes
nothing else. -/
def Marginal {α : Type} (action : Machine → α × Machine) : Prop :=
  ∃ act : Array (Option Binding) → Nat → α × Array (Option Binding) × Nat, ∀ m,
    action m = ((act m.slots m.fresh).1,
      { m with slots := (act m.slots m.fresh).2.1, fresh := (act m.slots m.fresh).2.2 })

namespace Marginal

variable {α β : Type} {action : Machine → α × Machine} {next : α → Machine → β × Machine}

theorem result (result : α) : Marginal fun m => (result, m) :=
  ⟨fun slots fresh => (result, slots, fresh), fun _ => rfl⟩

/-- One after the other. -/
theorem andThen (before : Marginal action) (after : ∀ result, Marginal (next result)) :
    Marginal fun m => next (action m).1 (action m).2 := by
  obtain ⟨act, act_eq⟩ := before
  refine ⟨fun slots fresh =>
    (after (act slots fresh).1).choose (act slots fresh).2.1 (act slots fresh).2.2, fun m => ?_⟩
  dsimp only
  rw [act_eq, (after (act m.slots m.fresh).1).choose_spec]

theorem newSlot (binding : Array (Option Binding) → Option Binding) :
    Marginal fun m => m.newSlot (binding m.slots) :=
  ⟨fun slots fresh => (⟨slots.size⟩, slots.push (binding slots), fresh), fun _ => rfl⟩

theorem newId : Marginal Machine.newId :=
  ⟨fun slots fresh => (fresh, slots, fresh + 1), fun _ => rfl⟩

theorem bearings_eq (h : Marginal action) (m : Machine) : (action m).2.bearings = m.bearings := by
  obtain ⟨act, act_eq⟩ := h
  rw [act_eq]
  rfl

theorem root_eq (h : Marginal action) (m : Machine) : (action m).2.root = m.root := by
  obtain ⟨act, act_eq⟩ := h
  rw [act_eq]

theorem stirs (h : Marginal action) (strict : Prop) {m : Machine}
    (adds : m.AddsSlots (action m).2) : m.Stirs strict (action m).2 := by
  obtain ⟨act, act_eq⟩ := h
  rw [act_eq] at adds ⊢
  exact .aside rfl rfl adds

/-- The limit on calls makes no difference. -/
theorem relimit (h : Marginal action) (limit : Nat → Nat) (m : Machine) :
    action (m.relimit limit) = ((action m).1, (action m).2.relimit limit) := by
  obtain ⟨act, act_eq⟩ := h
  rw [act_eq, act_eq]
  rfl

end Marginal

theorem marginal_bind (code : Code) (scope : Scope) :
    Marginal fun m => ((), m.bind code scope) := by
  unfold bind
  -- Site by site: a binding goes to a slot of the code, never to one of the stack.
  induction code.sites with
  | nil => exact .result ()
  | cons site rest ih =>
    have first : Marginal fun m => ((), bindSite scope m site) := by
      unfold bindSite
      cases scope site.symbol with
      | none => exact .result ()
      | some binding =>
        exact ⟨fun slots fresh =>
          ((), slots.setIfInBounds site.slot.index (some binding), fresh), fun _ => rfl⟩
    exact first.andThen fun _ => ih

mutual

theorem marginal_lowerNode : (node : Node) → Marginal (lowerNode · node)
  | .word .. => by
    simp only [lowerNode]
    exact (Marginal.newSlot fun _ => none).andThen fun _ => .result _
  | .path .. => by
    simp only [lowerNode]
    exact (Marginal.newSlot fun _ => none).andThen fun _ => .result _
  | .group bracket nodes _ => by
    simp only [lowerNode]
    exact (marginal_lowerNodes nodes).andThen fun items => Marginal.newId.andThen fun id =>
      .result (Item.group bracket ⟨id⟩ items)
  | .number .. => by simp only [lowerNode]; exact .result _
  | .text .. => by simp only [lowerNode]; exact .result _
  | .refinement .. => by simp only [lowerNode]; exact .result _

theorem marginal_lowerNodes : (nodes : List Node) → Marginal (lowerNodes · nodes)
  | [] => by simp only [lowerNodes]; exact .result _
  | node :: rest => by
    simp only [lowerNodes]
    exact (marginal_lowerNode node).andThen fun _ =>
      (marginal_lowerNodes rest).andThen fun _ => .result _

end

mutual

theorem marginal_copyItem : (item : Item) → Marginal (copyItem · item)
  | .word _ _ slot => by
    simp only [copyItem]
    exact (Marginal.newSlot fun slots => slots.getD slot.index none).andThen fun _ => .result _
  | .path _ _ _ slot => by
    simp only [copyItem]
    exact (Marginal.newSlot fun slots => slots.getD slot.index none).andThen fun _ => .result _
  | .group bracket _ items => by
    simp only [copyItem]
    exact (marginal_copyItems items).andThen fun items => Marginal.newId.andThen fun id =>
      .result (Item.group bracket ⟨id⟩ items)
  | .literal .. => by simp only [copyItem]; exact .result _
  | .refinement .. => by simp only [copyItem]; exact .result _

theorem marginal_copyItems : (items : List Item) → Marginal (copyItems · items)
  | [] => by simp only [copyItems]; exact .result _
  | item :: rest => by
    simp only [copyItems]
    exact (marginal_copyItem item).andThen fun _ =>
      (marginal_copyItems rest).andThen fun _ => .result _

end

theorem marginal_lower (nodes : List Node) : Marginal (lower · nodes) :=
  (marginal_lowerNodes nodes).andThen fun items => Marginal.newId.andThen fun id =>
    .result (Code.mk ⟨id⟩ items)

theorem marginal_copy (code : Code) : Marginal (copy · code) :=
  (marginal_copyItems code.items).andThen fun items => Marginal.newId.andThen fun id =>
    .result (Code.mk ⟨id⟩ items)

theorem bearings_bind (m : Machine) (code : Code) (scope : Scope) :
    (m.bind code scope).bearings = m.bearings := (marginal_bind code scope).bearings_eq m

theorem relimit_bind (limit : Nat → Nat) (m : Machine) (code : Code) (scope : Scope) :
    (m.relimit limit).bind code scope = (m.bind code scope).relimit limit :=
  congrArg Prod.snd ((marginal_bind code scope).relimit limit m)

/-- Binding changes nothing but slots. -/
theorem bind_eq (m : Machine) (code : Code) (scope : Scope) :
    m.bind code scope = { m with slots := (m.bind code scope).slots } := by
  have changed : ∃ slots, m.bind code scope = { m with slots := slots } := by
    unfold bind
    induction code.sites generalizing m with
    | nil => exact ⟨m.slots, rfl⟩
    | cons site rest ih =>
      rw [List.foldl_cons, bindSite]
      split
      · exact ih (m.bindSlot site.slot _)
      · exact ih m
  obtain ⟨slots, eq⟩ := changed
  rw [eq]

/-- A slot is bound as it was, or as the scope has it for the symbol of its site. -/
theorem slots_bindSites (m : Machine) (sites : List Site) (scope : Scope) (index : Nat) :
    (sites.foldl (bindSite scope) m).slots[index]? = m.slots[index]? ∨
      ∃ site ∈ sites, site.slot.index = index ∧ ∃ binding, scope site.symbol = some binding ∧
        (sites.foldl (bindSite scope) m).slots[index]? = some (some binding) := by
  induction sites generalizing m with
  | nil => exact .inl rfl
  | cons site rest ih =>
    rw [List.foldl_cons]
    rcases ih (bindSite scope m site) with kept | ⟨later, mem, bound⟩
    · rw [kept]
      unfold bindSite
      split
      · next binding resolved =>
        rw [bindSlot, Array.getElem?_setIfInBounds]
        split
        · next same =>
          split
          · exact .inr ⟨site, List.mem_cons_self, same, binding, resolved, rfl⟩
          · next beyond =>
              exact .inl (by rw [← same, Array.getElem?_eq_none (Nat.le_of_not_lt beyond)])
        · exact .inl rfl
      · exact .inl rfl
    · exact .inr ⟨later, List.mem_cons_of_mem _ mem, bound⟩

/-! ### New slots -/

/-- Sites are made, each with a new slot, and identities are taken; nothing else is done. -/
inductive Builds : Machine → List Site → Machine → Prop
  | nil (m : Machine) : Builds m [] m
  | newSlot (m : Machine) (symbol : String) (binding : Option Binding) :
      Builds m [⟨symbol, (m.newSlot binding).1⟩] (m.newSlot binding).2
  | newId {m m' : Machine} {sites : List Site} (before : Builds m sites m') :
      Builds m sites m'.newId.2
  | append {m m' m'' : Machine} {sites sites' : List Site} (first : Builds m sites m')
      (second : Builds m' sites' m'') : Builds m (sites ++ sites') m''

mutual

theorem builds_lowerNode (m : Machine) : (node : Node) →
    m.Builds (lowerNode m node).1.sites (lowerNode m node).2
  | .word _ symbol _ => by simp only [lowerNode, Item.sites]; exact .newSlot m symbol none
  | .path _ segments _ => by
    simp only [lowerNode, Item.sites]
    exact .newSlot m (segments.headD "") none
  | .group bracket nodes _ => by
    simp only [lowerNode, Item.sites]
    exact (builds_lowerNodes m nodes).newId
  | .number .. => by simp only [lowerNode, Item.sites]; exact .nil m
  | .text .. => by simp only [lowerNode, Item.sites]; exact .nil m
  | .refinement .. => by simp only [lowerNode, Item.sites]; exact .nil m

theorem builds_lowerNodes (m : Machine) : (nodes : List Node) →
    m.Builds (Item.sitesOf (lowerNodes m nodes).1) (lowerNodes m nodes).2
  | [] => by simp only [lowerNodes, Item.sitesOf]; exact .nil m
  | node :: rest => by
    simp only [lowerNodes, Item.sitesOf]
    exact (builds_lowerNode m node).append (builds_lowerNodes _ rest)

end

mutual

theorem builds_copyItem (m : Machine) : (item : Item) →
    m.Builds (copyItem m item).1.sites (copyItem m item).2
  | .word _ symbol slot => by
    simp only [copyItem, Item.sites]
    exact .newSlot m symbol (m.binding? slot)
  | .path _ head _ slot => by
    simp only [copyItem, Item.sites]
    exact .newSlot m head (m.binding? slot)
  | .group _ _ items => by
    simp only [copyItem, Item.sites]
    exact (builds_copyItems m items).newId
  | .literal .. => by simp only [copyItem, Item.sites]; exact .nil m
  | .refinement .. => by simp only [copyItem, Item.sites]; exact .nil m

theorem builds_copyItems (m : Machine) : (items : List Item) →
    m.Builds (Item.sitesOf (copyItems m items).1) (copyItems m items).2
  | [] => by simp only [copyItems, Item.sitesOf]; exact .nil m
  | item :: rest => by
    simp only [copyItems, Item.sitesOf]
    exact (builds_copyItem m item).append (builds_copyItems _ rest)

end

/-- Code is made of new sites. -/
theorem builds_lower (m : Machine) (nodes : List Node) :
    m.Builds (m.lower nodes).1.sites (m.lower nodes).2 := (builds_lowerNodes m nodes).newId

/-- The copy of a code is made of new sites. -/
theorem builds_copy (m : Machine) (code : Code) :
    m.Builds (m.copy code).1.sites (m.copy code).2 := (builds_copyItems m code.items).newId

/-- The slots of some sites are new, and nothing is done to those that there are. -/
structure Lays (m : Machine) (sites : List Site) (m' : Machine) : Prop where
  adds : m.AddsSlots m'
  new : ∀ site ∈ sites, m.slots.size ≤ site.slot.index

theorem AddsSlots.size_le {m m' : Machine} (h : m.AddsSlots m') : m.slots.size ≤ m'.slots.size := by
  refine Nat.le_of_not_lt fun fewer => ?_
  have lost := h m'.slots.size fewer
  rw [Array.getElem?_eq_none (Nat.le_refl _), Array.getElem?_eq_getElem fewer] at lost
  cases lost

theorem AddsSlots.trans {m m' m'' : Machine} (first : m.AddsSlots m') (second : m'.AddsSlots m'') :
    m.AddsSlots m'' := fun index old =>
  (second index (Nat.lt_of_lt_of_le old first.size_le)).trans (first index old)

/-- Sites that are made have new slots. -/
theorem Builds.lays {m m' : Machine} {sites : List Site} (h : m.Builds sites m') :
    m.Lays sites m' := by
  induction h with
  | nil m => exact ⟨fun _ _ => rfl, nofun⟩
  | newSlot m symbol binding =>
    refine ⟨fun index old => ?_, fun site mem => ?_⟩
    · change (m.slots.push binding)[index]? = _
      rw [Array.getElem?_push, if_neg (Nat.ne_of_lt old)]
    · obtain rfl := List.mem_singleton.1 mem
      exact Nat.le_refl _
  | newId _ ih => exact ⟨ih.adds, ih.new⟩
  | append _ _ first second =>
    refine ⟨first.adds.trans second.adds, fun site mem => ?_⟩
    rcases List.mem_append.1 mem with mem | mem
    · exact first.new site mem
    · exact Nat.le_trans first.adds.size_le (second.new site mem)

/-- Binding new sites concerns none that there were. -/
theorem Lays.bind {m m' : Machine} {code : Code} (h : m.Lays code.sites m') (scope : Scope) :
    m.AddsSlots (m'.bind code scope) := by
  refine fun index old => ?_
  rcases m'.slots_bindSites code.sites scope index with kept | ⟨site, mem, rfl, _⟩
  · exact kept.trans (h.adds index old)
  · exact absurd old (Nat.not_lt.2 (h.new site mem))

/-! ### Code that is bound -/

/-- Once the root dictionary is known, loading code looks at nothing but slots and identities. -/
theorem marginal_loadFrom (root : Ref .dictionary) (nodes : List Node) :
    Marginal fun m =>
      ((m.lower nodes).1, (m.lower nodes).2.bind (m.lower nodes).1 (.everything root)) :=
  (marginal_lower nodes).andThen fun code => (marginal_bind code _).andThen fun _ => .result code

theorem load_eq (m : Machine) (nodes : List Node) :
    m.load nodes =
      ((m.lower nodes).1, (m.lower nodes).2.bind (m.lower nodes).1 (.everything m.root)) := by
  have root : (m.lower nodes).2.root = m.root := (marginal_lower nodes).root_eq m
  rw [← root]
  rfl

theorem bearings_load (m : Machine) (nodes : List Node) :
    (m.load nodes).2.bearings = m.bearings := by
  rw [load_eq]
  exact (marginal_loadFrom m.root nodes).bearings_eq m

theorem stirs_load (strict : Prop) (m : Machine) (nodes : List Node) :
    m.Stirs strict (m.load nodes).2 := by
  rw [load_eq]
  exact (marginal_loadFrom m.root nodes).stirs strict ((m.builds_lower nodes).lays.bind _)

theorem relimit_load (limit : Nat → Nat) (m : Machine) (nodes : List Node) :
    (m.relimit limit).load nodes = ((m.load nodes).1, (m.load nodes).2.relimit limit) := by
  rw [load_eq, load_eq]
  exact (marginal_loadFrom m.root nodes).relimit limit m

theorem marginal_enclose (code : Code) (scope : Scope) : Marginal (enclose · code scope) :=
  (marginal_copy code).andThen fun copy => (marginal_bind copy scope).andThen fun _ => .result copy

theorem stirs_enclose (strict : Prop) (m : Machine) (code : Code) (scope : Scope) :
    m.Stirs strict (m.enclose code scope).2 :=
  (marginal_enclose code scope).stirs strict ((m.builds_copy code).lays.bind scope)

/-- A new dictionary is what the sites of a code are bound to, and no others. -/
theorem stirs_openScope (strict : Prop) (m : Machine) (code : Code) (entries : Dictionary)
    (free : strict → ∀ entry ∈ entries.entries, entry.2.isSuspension = false) :
    m.Stirs strict (m.openScope code entries).2 := by
  change m.Stirs strict ((m.newDictionary entries).2.bind code _)
  rw [bind_eq]
  refine .dictionary m entries _ free fun index => ?_
  rcases (m.newDictionary entries).2.slots_bindSites code.sites _ index with
    kept | ⟨site, _, _, _, named, bound⟩
  · exact .inl kept
  · refine .inr (bound.trans ?_)
    unfold Scope.symbols at named
    split at named
    · cases named
      rfl
    · cases named

theorem relimit_openScope (limit : Nat → Nat) (m : Machine) (code : Code) (entries : Dictionary) :
    (m.relimit limit).openScope code entries =
      ((m.openScope code entries).1, (m.openScope code entries).2.relimit limit) :=
  congrArg (Prod.mk _) (relimit_bind limit (m.newDictionary entries).2 code _)

theorem bearings_openScope (m : Machine) (code : Code) (entries : Dictionary) :
    (m.openScope code entries).2.bearings = m.bearings :=
  bearings_bind (m.newDictionary entries).2 code _

/-! ## Texts -/

/-- The text of a value depends on dictionaries only. -/
theorem displayWithin_congr {m m' : Machine} (same : m'.dictionaries = m.dictionaries)
    (depth : Nat) (value : Value) : m'.displayWithin depth value = m.displayWithin depth value := by
  induction depth generalizing value with
  | zero => cases value <;> simp only [displayWithin]
  | succ depth ih =>
    cases value with
    | object ref => simp only [displayWithin, ih, dictionary, same]
    | _ => simp only [displayWithin]

theorem display?_relimit (limit : Nat → Nat) (m : Machine) (value : Value) :
    (m.relimit limit).display? value = m.display? value := by
  have same : (m.relimit limit).dictionaries = m.dictionaries := rfl
  exact displayWithin_congr same _ value

theorem display_relimit (limit : Nat → Nat) (m : Machine) :
    (m.relimit limit).display = m.display :=
  funext fun value => congrArg (·.getD "") (display?_relimit limit m value)

/-- The limit on calls makes no difference to which values are equal. -/
theorem equalWithin?_relimit (limit : Nat → Nat) (m : Machine) (depth : Nat) (a b : Value) :
    (m.relimit limit).equalWithin? depth a b = m.equalWithin? depth a b := by
  induction depth generalizing a b with
  | zero =>
    cases a <;> cases b <;> simp only [equalWithin?]
    case task.task => rfl
  | succ depth ih =>
    have below : (m.relimit limit).equalWithin? depth = m.equalWithin? depth :=
      funext fun a => funext (ih a)
    cases a <;> cases b <;> simp only [equalWithin?, below]
    case task.task => rfl
    case object.object => rfl

theorem equal?_relimit (limit : Nat → Nat) (m : Machine) (a b : Value) :
    (m.relimit limit).equal? a b = m.equal? a b := equalWithin?_relimit limit m _ a b

end Machine

/-- A list that is no parameter list is refused for what is in it. -/
theorem Parameters.isOrdinary_of_scan {params : Code} {streaming : Bool} {failure : Failure}
    (h : scan params streaming = .error failure) : failure.isOrdinary := by
  rcases of_scan_refused h with ⟨name, rfl, -⟩ | ⟨⟨text, rfl⟩, -⟩
  · rfl
  · rfl

/-- A slot of the activation on scene gets a value, if there is such a slot. -/
theorem Binding.setCell_apply (scene : Ref .scene) (index : Nat) (symbol : String) (value : Value)
    (m : Machine) :
    (Binding.cell scene index).set symbol value m =
      match m.scenes.get scene with
      | none =>
        (some (.error (.malformedUse s!"{symbol} used outside its procedure body")), m)
      | some ref =>
        if index < (m.activations.get ref).slots.length then
          (some (.ok ()), { m with activations := m.activations.set ref { m.activations.get ref with
            slots := (m.activations.get ref).slots.set index value } })
        else (some (.error (.malformedUse s!"no slot for {symbol}")), m) := by
  change (onScene scene symbol >>= _ : Run Machine Unit) m = _
  rw [Run.bind_apply, onScene_apply]
  cases m.scenes.get scene with
  | none => rfl
  | some ref =>
    change (ite _ _ _ : Run Machine Unit) m = _
    dsimp only
    split <;> rfl

namespace Discipline

section Alone

variable (D : Discipline)

/-! ## Bindings -/

theorem allows_onScene (scene : Ref .scene) (symbol : String) :
    D.Allows (onScene scene symbol) := by
  refine D.read (fun _ => rfl) fun m _ => ?_
  split
  · exact D.allows_done _ fun _ => trivial
  · exact D.allows_throw fun _ => rfl

theorem allows_bindingGet (binding : Binding) (symbol : String) :
    D.Allows (binding.get symbol) := by
  refine D.read (fun _ => rfl) fun m stores => ?_
  cases binding with
  | dictionary ref =>
    dsimp only
    split
    · next found => exact D.allows_done _ fun strict => (stores strict).dictionary found
    · exact D.allows_throw fun _ => rfl
  | frameSlot frame index =>
    dsimp only
    split
    · next found => exact D.allows_done _ fun strict => (stores strict).stack found
    · exact D.allows_throw fun _ => rfl
  | cell scene index =>
    refine (D.allows_onScene scene symbol).andThen fun activation _ => ?_
    split
    · next found => exact D.allows_done _ fun strict => (stores strict).cell found
    · exact D.allows_throw fun _ => rfl
  | input scene =>
    exact (D.allows_onScene scene symbol).andThen fun activation _ =>
      D.allows_done _ fun strict => (stores strict).input activation
  | output procedure => exact D.allows_done _ fun _ => rfl

theorem allows_bindingSet (binding : Binding) (symbol : String) (value : Value)
    (free : D.Free value) : D.Allows (binding.set symbol value) := by
  cases binding with
  | dictionary ref =>
    exact D.read (fun _ => rfl) fun _ _ =>
      D.allows_change (fun m => .assign m ref symbol value free) fun _ => rfl
  | frameSlot frame index =>
    refine D.read (fun _ => rfl) fun m _ => ?_
    dsimp only
    split
    · exact D.allows_change (fun m => .store m _ value free) fun _ => rfl
    · exact D.allows_throw fun _ => rfl
  | cell scene index =>
    -- Between looking at the activation and writing to it nothing happens.
    refine D.stir (fun m => ?_) (fun m => ?_) (fun _ _ _ _ => trivial) fun _ m failure => ?_
    · rw [Binding.setCell_apply]
      cases on : m.scenes.get scene with
      | none => exact .refl _
      | some ref =>
        dsimp only
        split
        · exact .cell m on index value free
        · exact .refl _
    · rw [Binding.setCell_apply, Binding.setCell_apply]
      change (match m.scenes.get scene with | none => _ | some ref => _) = _
      cases m.scenes.get scene with
      | none => rfl
      | some ref =>
        change (if index < (m.activations.get ref).slots.length then _ else _) = _
        dsimp only
        split <;> rfl
    · rw [Binding.setCell_apply]
      cases m.scenes.get scene with
      | none => intro same; cases same; rfl
      | some ref =>
        dsimp only
        split <;> intro same <;> cases same
        rfl
  | input scene => exact D.read (fun _ => rfl) fun _ _ => D.allows_throw fun _ => rfl
  | output procedure => exact D.read (fun _ => rfl) fun _ _ => D.allows_throw fun _ => rfl

theorem allows_siteBinding (site : Site) : D.Allows site.binding := by
  refine D.read (fun _ => rfl) fun m _ => ?_
  split
  · exact D.allows_done _ fun _ => trivial
  · exact D.allows_throw fun _ => rfl

theorem allows_siteGet (site : Site) : D.Allows site.get :=
  (D.allows_siteBinding site).andThen fun binding _ => D.allows_bindingGet binding site.symbol

theorem allows_siteSet (site : Site) (value : Value) (free : D.Free value) :
    D.Allows (site.set value) :=
  (D.allows_siteBinding site).andThen fun binding _ =>
    D.allows_bindingSet binding site.symbol value free

/-! ## Procedures -/

theorem allows_enclose (code : Code) (scope : Scope) :
    D.Allows (allocate (·.enclose code scope)) :=
  D.allows_allocate (fun m => m.stirs_enclose _ code scope)
    ((Machine.marginal_enclose code scope).relimit _) fun _ _ => trivial

theorem allows_makeFrameProcedure (params : Parameters) (body : Code) :
    D.Allows (makeFrameProcedure params body) :=
  D.read (fun _ => rfl) fun _ _ => (D.allows_enclose body _).andThen fun _ _ =>
    (D.allows_change (fun m => .define m _ _ _) fun _ => rfl).andThen fun _ _ =>
      D.allows_allocate (fun _ => .aside rfl rfl fun _ _ => rfl) (fun _ => rfl) fun _ _ => rfl

theorem allows_makeStreamProcedure (params : Parameters) (body : Code) :
    D.Allows (makeStreamProcedure params body) :=
  D.read (fun _ => rfl) fun _ _ =>
    (D.allows_change (fun m => .scene m) fun _ => rfl).andThen fun _ _ =>
      (D.allows_allocate (fun _ => .aside rfl rfl fun _ _ => rfl) (fun _ => rfl)
        fun _ _ => trivial).andThen fun _ _ => (D.allows_enclose body _).andThen fun _ _ =>
          D.allows_allocate (fun _ => .aside rfl rfl fun _ _ => rfl) (fun _ => rfl) fun _ _ => rfl

theorem allows_scanParameters (params : Code) (streaming : Bool) :
    D.Allows (settleWith (Parameters.scan params streaming) : Run Machine Parameters) :=
  D.allows_settleWith _ (fun _ _ _ => trivial) fun _ _ => Parameters.isOrdinary_of_scan

theorem allows_makeProcedure (params body : Code) (streaming : Bool) :
    D.Allows (makeProcedure params body streaming) := by
  refine (D.allows_scanParameters params streaming).andThen fun declared _ => ?_
  split
  · exact D.allows_makeStreamProcedure declared body
  · exact D.allows_makeFrameProcedure declared body

theorem allows_load (nodes : List Node) : D.Allows (allocate (·.load nodes)) :=
  D.allows_allocate (fun m => m.stirs_load _ nodes) (fun m => m.relimit_load _ nodes)
    fun _ _ => trivial

theorem allows_expectBlock (what : String) (value : Value) : D.Allows (expectBlock what value) := by
  unfold expectBlock
  split
  · exact D.allows_done _ fun _ => trivial
  · exact D.allows_throw fun _ => rfl

theorem allows_expectNative (what : String) (value : Value) :
    D.Allows (expectNative what value) := by
  unfold expectNative
  split
  · exact D.allows_done _ fun _ => trivial
  · exact D.allows_throw fun _ => rfl

theorem allows_expectText (what : String) (value : Value) : D.Allows (expectText what value) := by
  unfold expectText
  split
  · exact D.allows_done _ fun _ => trivial
  · exact D.allows_throw fun _ => rfl

theorem allows_arityOf (what : String) (params : Code) : D.Allows (arityOf what params) := by
  refine (D.allows_scanParameters params false).andThen fun declared _ => ?_
  split
  · exact D.allows_done _ fun _ => trivial
  · exact D.allows_throw fun _ => rfl

/-! ## The core library -/

theorem allows_twoArgs (name : String) (args : List Value) (free : D.Free args) :
    D.Allows (twoArgs name args) := by
  unfold twoArgs
  split
  · exact D.allows_done _ fun strict => ⟨free strict _ (by simp), free strict _ (by simp)⟩
  · exact D.allows_throw fun _ => rfl

theorem allows_blockArg (name : String) (value : Value) : D.Allows (blockArg name value) := by
  unfold blockArg
  split
  · exact D.allows_done _ fun _ => trivial
  · exact D.allows_throw fun _ => rfl

theorem allows_numberArgs (name : String) (a b : Value) : D.Allows (numberArgs name a b) := by
  unfold numberArgs
  split
  · exact D.allows_done _ fun _ => trivial
  · exact D.allows_throw fun _ => rfl

theorem allows_shown (value : Value) : D.Allows (shown value) := by
  refine D.read (fun m => ?_) fun m _ => ?_
  · simp only [HasMachine.change, Machine.display?_relimit]
  · split
    · exact D.allows_done _ fun _ => trivial
    · exact D.allows_endless

theorem allows_compared (a b : Value) : D.Allows (compared a b) := by
  refine D.read (fun m => ?_) fun m _ => ?_
  · simp only [HasMachine.change, Machine.equal?_relimit]
  · split
    · exact D.allows_done _ fun _ => trivial
    · exact D.allows_endless

theorem allows_applyAdd (a b : Value) : D.Allows (CoreFunction.applyAdd a b) := by
  have joined : D.Allows (do
      let left ← shown a
      let right ← shown b
      pure (.text (left ++ right)) : Run Machine Value) :=
    (D.allows_shown _).andThen fun _ _ => (D.allows_shown _).andThen fun _ _ =>
      D.allows_done _ fun _ => rfl
  unfold CoreFunction.applyAdd
  dsimp only
  split
  · exact joined
  · exact joined
  · exact (D.allows_numberArgs _ _ _).andThen fun _ _ => D.allows_done _ fun _ => rfl

theorem allows_applyGt (a b : Value) : D.Allows (CoreFunction.applyGt a b) := by
  unfold CoreFunction.applyGt
  split
  · exact D.allows_done _ fun _ => rfl
  · exact (D.allows_numberArgs _ _ _).andThen fun _ _ => D.allows_done _ fun _ => rfl

theorem allows_applyProcedure (name : String) (streaming : Bool) (args : List Value)
    (free : D.Free args) : D.Allows (CoreFunction.applyProcedure name streaming args) :=
  (D.allows_twoArgs name args free).andThen fun pair _ =>
    (D.allows_blockArg name pair.1).andThen fun _ _ =>
      (D.allows_blockArg name pair.2).andThen fun _ _ => D.allows_makeProcedure _ _ streaming

theorem allows_openScope (code : Code) (entries : Dictionary)
    (free : D.strict → ∀ entry ∈ entries.entries, entry.2.isSuspension = false) :
    D.Allows (allocate (·.openScope code entries)) :=
  D.allows_allocate (fun m => m.stirs_openScope _ code entries free)
    (fun m => m.relimit_openScope _ code entries) fun _ _ => trivial

/-! ## Reading -/

theorem allows_step : D.Allows step :=
  D.stir (fun _ => .refl _) (fun _ => rfl) (fun _ _ _ _ => trivial) fun _ _ _ same => by cases same

theorem allows_projectFields (fields : List String) (seen : List String) (value : Value)
    (free : D.Free value) : D.Allows (projectFields seen fields value) := by
  induction fields generalizing seen value with
  | nil => exact D.allows_done _ free
  | cons field rest ih =>
    cases value with
    | object ref =>
      refine D.read (fun _ => rfl) fun m stores => ?_
      split
      · next found => exact ih _ _ fun strict => (stores strict).dictionary found
      · exact D.allows_throw fun _ => rfl
    | _ => exact D.allows_throw fun _ => rfl

theorem allows_project (head : Site) (fields : List String) : D.Allows (project head fields) :=
  (D.allows_siteGet head).andThen fun value free => D.allows_projectFields fields _ value free

theorem allows_assignField (head : Site) (fields : List String) (value : Value)
    (free : D.Free value) : D.Allows (assignField head fields value) := by
  unfold assignField
  split
  · exact D.allows_throw fun _ => rfl
  · refine (D.allows_project head _).andThen fun target _ => ?_
    split
    · exact D.allows_change (fun m => .assign m _ _ value free) fun _ => rfl
    · exact D.allows_throw fun _ => rfl

end Alone

/-! ## What uses the calls of an engine -/

namespace Relates

variable {D : Discipline} {engine engine' : Engine} (h : D.Relates engine engine')

include h

theorem whole : D.Fits (engine.read .whole) (engine'.read .whole) := h.read .whole nofun

theorem operand : D.Fits (engine.read .operand) (engine'.read .operand) := h.read .operand nofun

theorem readArgs (count : Nat) : D.Fits (readArgs engine count) (readArgs engine' count) := by
  induction count with
  | zero => exact D.allows_done _ fun _ => nofun
  | succ count ih =>
    exact h.whole.andThen fun _ free => ih.andThen fun _ frees =>
      D.allows_done _ fun strict => List.forall_mem_cons.2 ⟨free strict, frees strict⟩

theorem defineNative : D.Fits (defineNative engine) (defineNative engine') :=
  h.whole.andThen fun params _ =>
    (D.onMachine (D.allows_expectBlock _ params)).andThen fun params _ =>
      h.whole.andThen fun native _ =>
        (D.onMachine (D.allows_expectNative _ native)).andThen fun _ _ =>
          (D.onMachine (D.allows_arityOf _ params)).andThen fun _ _ => D.onMachine
            (D.allows_allocate (fun _ => .aside rfl rfl fun _ _ => rfl) (fun _ => rfl)
              fun _ _ => rfl)

theorem defineOperator : D.Fits (defineOperator engine) (defineOperator engine') := by
  refine h.whole.andThen fun params _ =>
    (D.onMachine (D.allows_expectBlock _ params)).andThen fun params _ =>
      h.whole.andThen fun native _ =>
        (D.onMachine (D.allows_expectNative _ native)).andThen fun native _ =>
          (D.onMachine (D.allows_arityOf _ params)).andThen fun arity _ => ?_
  dsimp only
  split
  · exact D.fits_refuse (fun _ => rfl) _ _
  · exact D.onMachine (D.allows_allocate (fun _ => .aside rfl rfl fun _ _ => rfl) (fun _ => rfl)
      fun _ _ => rfl)

theorem defineAsync : D.Fits (defineAsync engine) (defineAsync engine') :=
  h.whole.andThen fun params _ =>
    (D.onMachine (D.allows_expectBlock _ params)).andThen fun params _ =>
      h.whole.andThen fun mime _ =>
        (D.onMachine (D.allows_expectText _ mime)).andThen fun _ _ =>
          h.whole.andThen fun native _ =>
            (D.onMachine (D.allows_expectNative _ native)).andThen fun _ _ =>
              (D.onMachine (D.allows_arityOf _ params)).andThen fun _ _ => D.onMachine
                (D.allows_allocate (fun _ => .aside rfl rfl fun _ _ => rfl) (fun _ => rfl)
                  fun _ _ => rfl)

theorem callFrame (ref : Ref .frame) : D.Fits (callFrame engine ref) (callFrame engine' ref) :=
  D.read (fun _ => rfl) fun _ _ => (h.readArgs _).andThen fun args free =>
    D.onMachine (D.frame h.execute ref args free)

theorem callStreaming (definition : StreamDefinition) :
    D.Yields (callStreaming engine definition) (callStreaming engine' definition) :=
  (h.readArgs _).andYield fun args free =>
    D.yieldOnMachine (D.suspendBody definition args free)

theorem performEmit (scene : Ref .scene) :
    D.Fits (performEmit engine scene) (performEmit engine' scene) :=
  h.whole.andThen fun value free => D.onMachine (D.write h.deliver scene value free)

theorem perform (action : Action) : D.Yields (perform engine action) (perform engine' action) := by
  cases action with
  | defineNative => exact D.yield h.defineNative
  | defineOperator => exact D.yield h.defineOperator
  | defineAsync => exact D.yield h.defineAsync
  | pipe => exact D.pipe h.deliver h.deferred
  | native arity native =>
    exact D.yield
      ((h.readArgs arity).andThen fun args free => D.onMachine (h.call native args free))
  | async arity mime native =>
    exact (h.readArgs arity).andYield fun args free =>
      D.yieldOnMachine (D.suspend (.call native args) rfl free true _)
  | frame ref => exact D.yield (h.callFrame ref)
  | streaming definition => exact h.callStreaming definition
  | emit scene => exact D.yield (h.performEmit scene)
  | host name => exact h.hostAction name

theorem operate (left right : Value) (freeLeft : D.Free left) (freeRight : D.Free right)
    (action : OperatorAction) :
    D.Yields (operate engine left right action) (operate engine' left right action) := by
  cases action with
  | native native =>
    refine D.yield (D.onMachine (h.call native _ fun strict => ?_))
    simp [Graded.IsFree, show left.isSuspension = false from freeLeft strict,
      show right.isSuspension = false from freeRight strict]
  | host name => exact h.hostOperator name left right freeLeft freeRight

theorem executeInto (code : Code) (entries : Dictionary)
    (free : D.strict → ∀ entry ∈ entries.entries, entry.2.isSuspension = false) :
    D.Fits (executeInto engine code entries) (executeInto engine' code entries) :=
  .andThen (D.allows_openScope code entries free) fun _ _ =>
    (h.execute code).andThen fun _ _ => D.allows_done _ fun _ => trivial

theorem evaluateModule (description body : Code) :
    D.Fits (evaluateModule engine description body) (evaluateModule engine' description body) :=
  (h.executeInto description .empty fun _ => nofun).andThen fun _ _ =>
    h.executeInto body .empty fun _ => nofun

theorem applyEither (condition ifTrue ifFalse : Value) (freeTrue : D.Free ifTrue)
    (freeFalse : D.Free ifFalse) :
    D.Fits (CoreFunction.applyEither engine condition ifTrue ifFalse)
      (CoreFunction.applyEither engine' condition ifTrue ifFalse) := by
  have free : D.Free (if condition.isTruthy then ifTrue else ifFalse) := by
    split
    · exact freeTrue
    · exact freeFalse
  unfold CoreFunction.applyEither
  cases chosen : if condition.isTruthy then ifTrue else ifFalse with
  | block code => exact h.execute code
  | _ => exact D.allows_done _ (chosen ▸ free)

theorem apply (function : CoreFunction) (args : List Value) (free : D.Free args) :
    D.Fits (function.apply engine args) (function.apply engine' args) := by
  cases function with
  | add => exact (D.allows_twoArgs _ args free).andThen fun _ _ => D.allows_applyAdd _ _
  | sub | mul =>
    exact (D.allows_twoArgs _ args free).andThen fun _ _ =>
      (D.allows_numberArgs _ _ _).andThen fun _ _ => D.allows_done _ fun _ => rfl
  | gt => exact (D.allows_twoArgs _ args free).andThen fun _ _ => D.allows_applyGt _ _
  | eq =>
    exact (D.allows_twoArgs _ args free).andThen fun _ _ =>
      (D.allows_compared _ _).andThen fun _ _ => D.allows_done _ fun _ => rfl
  | either =>
    unfold CoreFunction.apply
    dsimp only
    split
    · exact h.applyEither _ _ _ (fun strict => free strict _ (by simp))
        fun strict => free strict _ (by simp)
    · exact D.allows_throw fun _ => rfl
  | proc | fn => exact D.allows_applyProcedure _ _ args free
  | module =>
    exact (D.allows_twoArgs _ args free).andThen fun _ _ => (D.allows_blockArg _ _).andThen
      fun _ _ => (D.allows_blockArg _ _).andThen fun _ _ =>
        (h.evaluateModule _ _).andThen fun _ _ => D.allows_done _ fun _ => rfl
  | throw =>
    exact (D.allows_shown _).andThen fun _ _ => D.allows_throw fun _ => rfl
  | print =>
    -- What is printed is the first argument, or the value for none, which is always free.
    have first : D.Free (args.headD .none) := fun strict => by
      cases args with
      | nil => rfl
      | cons value rest => exact free strict value List.mem_cons_self
    exact (D.allows_shown _).andThen fun _ _ =>
      .andThen (D.allows_change (fun _ => .aside rfl rfl fun _ _ => rfl) fun _ => rfl) fun _ _ =>
        D.allows_done _ first

theorem performProcedure (procedure : Procedure) :
    D.Yields (performProcedure engine procedure) (performProcedure engine' procedure) := by
  cases procedure with
  | leading _ action => exact h.perform action
  | operator _ action =>
    exact h.operand.andYield fun left freeLeft => h.operand.andYield fun right freeRight =>
      h.operate left right freeLeft freeRight action

theorem invoke (value : Value) (free : D.Free value) :
    D.Yields (invoke engine value) (invoke engine' value) := by
  cases value with
  | procedure procedure => exact h.performProcedure procedure
  | object ref =>
    refine D.readYield (fun _ => rfl) fun reader _ => ?_
    split
    · exact h.performProcedure _
    · exact D.yield (D.allows_done _ fun _ => rfl)
  | _ => exact D.yield (D.allows_done _ free)

theorem evaluateWord (kind : WordKind) (site : Site) :
    D.Yields (evaluateWord engine kind site) (evaluateWord engine' kind site) := by
  cases kind with
  | quote => exact D.yield (D.allows_done _ fun _ => rfl)
  | get => exact D.yield (D.onMachine (D.allows_siteGet site))
  | set =>
    exact D.yield (h.whole.andThen fun value free =>
      (D.onMachine (D.allows_siteSet site value free)).andThen fun _ _ => D.allows_done _ free)
  | plain =>
    exact (D.onMachine (D.allows_siteGet site)).andYield fun value free => h.invoke value free

theorem evaluatePath (kind : WordKind) (head : Site) (fields : List String) :
    D.Yields (evaluatePath engine kind head fields) (evaluatePath engine' kind head fields) := by
  cases kind with
  | quote => exact D.yield (D.allows_done _ fun _ => rfl)
  | get => exact D.yield (D.onMachine (D.allows_project head fields))
  | set =>
    exact D.yield (h.whole.andThen fun value free =>
      (D.onMachine (D.allows_assignField head fields value free)).andThen fun _ _ =>
        D.allows_done _ free)
  | plain =>
    exact (D.onMachine (D.allows_project head fields)).andYield fun value free =>
      h.invoke value free

theorem evaluateItem (item : Item) :
    D.Yields (evaluateItem engine item) (evaluateItem engine' item) := by
  cases item with
  | word kind symbol slot => exact h.evaluateWord kind _
  | path kind head fields slot => exact h.evaluatePath kind _ fields
  | group bracket id items =>
    cases bracket with
    | square => exact D.yield (D.allows_done _ fun _ => rfl)
    | round => exact D.yield (D.onMachine (h.execute _))
  | literal value => exact D.yield (D.allows_done _ fun _ => by cases value <;> rfl)
  | refinement name => exact D.yield (D.allows_throw fun _ => rfl)

theorem fetch : D.Yields (fetch engine) (fetch engine') := by
  refine D.readYield (fun _ => rfl) fun reader _ => ?_
  cases reader.cursor.rest with
  | nil => exact D.yield (D.allows_throw fun _ => rfl)
  | cons item rest => exact D.allows_step.andYield fun _ _ => h.evaluateItem item

theorem readOperand : D.Fits (readOperand engine) (readOperand engine') := D.use h.fetch

theorem readDeferred : D.Yields (readDeferred engine) (readDeferred engine') := D.keep h.fetch

theorem applyOperator (site : Site) (left : Value) (free : D.Free left) :
    D.Yields (applyOperator engine site left) (applyOperator engine' site left) := by
  refine (D.onMachine (D.allows_siteGet site)).andYield fun value _ => ?_
  split
  · exact h.operand.andYield fun right freeRight => h.operate left right free freeRight _
  · exact h.operand.andYield fun right freeRight =>
      h.operate left right free freeRight (.native _)
  · exact D.yield (D.allows_throw fun _ => rfl)

theorem readOperators (bound : List Item) (value : Value) (free : D.Free value) :
    D.Fits (readOperators engine bound value) (readOperators engine' bound value) := by
  induction bound generalizing value with
  | nil => exact D.allows_done _ free
  | cons item bound ih =>
    refine D.read (fun _ => rfl) fun reader _ => ?_
    split
    · split
      · exact D.allows_step.andThen fun _ _ => (h.applyOperator _ value free).used ih
      · exact D.allows_done _ free
    · exact D.allows_done _ free

theorem readWhole : D.Fits (readWhole engine) (readWhole engine') :=
  h.readOperand.andThen fun value free =>
    D.read (fun _ => rfl) fun _ _ => h.readOperators _ value free

theorem readToEnd (bound : Nat) (last : Value) (free : D.Free last) :
    D.Fits (readToEnd engine bound last) (readToEnd engine' bound last) := by
  induction bound generalizing last with
  | zero => exact D.allows_done _ free
  | succ bound ih =>
    refine D.read (fun _ => rfl) fun reader _ => ?_
    split
    · exact D.allows_done _ free
    · exact h.whole.andThen fun value free => ih value free

theorem executeCode (code : Code) : D.Fits (executeCode engine code) (executeCode engine' code) :=
  D.withCursor (h.readToEnd _ _ fun _ => rfl) _

theorem evaluate (text : String) : D.Fits (evaluate engine text) (evaluate engine' text) := by
  unfold Wordstream.evaluate
  split
  · exact D.allows_throw fun _ => rfl
  case h_2 nodes _ =>
    exact .andThen (D.allows_load nodes) fun code _ => h.execute code

theorem callNative {host : Host} (hosted : D.Admits host) (native : Native) (args : List Value)
    (free : D.Free args) :
    D.Fits (callNative host engine native args) (callNative host engine' native args) := by
  unfold Wordstream.callNative
  split
  · exact h.apply _ args free
  · exact hosted.native h _ args free

/-- One more unit of fuel leaves engines related, if it does so where signals are handed over. -/
theorem step {host : Host} (hosted : D.Admits host)
    (hands : ∀ ref, D.Hands ref (deliverAll engine ref) (deliverAll engine' ref)) :
    D.Relates (engine.step host) (engine'.step host) where
  execute code := h.executeCode code
  read reading use := by
    cases reading with
    | whole => exact h.readWhole
    | operand => exact h.readOperand
    | deferred => exact absurd rfl use
  deferred := h.readDeferred
  deliver ref := hands ref
  call native args free := h.callNative hosted native args free
  hostAction name := hosted.action h name
  hostOperator name left right freeLeft freeRight :=
    hosted.operator h name left right freeLeft freeRight

end Relates

end Discipline

end Wordstream
