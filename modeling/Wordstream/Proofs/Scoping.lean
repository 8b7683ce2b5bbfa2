import Mathlib.Data.List.Nodup
import Wordstream.Proofs.Evaluation

/-!
# Binding by scopes

Binding goes over a whole code and writes to the slots of those sites whose symbols a scope
resolves. So what a site is bound to afterwards depends on its own symbol and on what it was bound
to before, and on nothing else. A chain of scopes does in one go what its scopes do one after the
other, the innermost last.

## Main results

* `Item.sitesOf_eq` — the sites of a code are those of its words and paths at any depth
* `Machine.Houses.binding?_bind` — what a site is bound to when its code has been bound
* `Machine.houses_lower`, `Machine.houses_copy` — code that was made or copied has slots of its own
* `Machine.Houses.bind_chain` — a chain of scopes binds as its scopes do one after the other
-/

namespace Wordstream

/-! ## Sites -/

namespace Item

mutual

theorem sites_eq (depth : Nat) : (item : Item) →
    item.sites = (preorder depth item).filterMap fun entry => entry.2.site?
  | .word .. => rfl
  | .path .. => rfl
  | .group _ _ items => by
    rw [sites, preorder, sitesOf_eq (depth + 1) items]
    rfl
  | .literal _ => rfl
  | .refinement _ => rfl

/-- The sites of a list of items are those of all words and paths within, at any depth. -/
theorem sitesOf_eq (depth : Nat) : (items : List Item) →
    sitesOf items = (preorders depth items).filterMap fun entry => entry.2.site?
  | [] => rfl
  | item :: rest => by
    rw [sitesOf, preorders, List.filterMap_append, sites_eq depth item, sitesOf_eq depth rest]

end

end Item

/-- A site is its symbol and its slot. -/
theorem Site.eq_of {site other : Site} (symbol : site.symbol = other.symbol)
    (slot : site.slot = other.slot) : site = other := by
  obtain ⟨_, _⟩ := site
  cases symbol
  cases slot
  rfl

/-- The words and paths of a code, at any depth, are its sites. -/
theorem Code.mem_sites {code : Code} {depth : Nat} {item : Item} {site : Site}
    (mem : (depth, item) ∈ Item.preorders 0 code.items) (there : item.site? = some site) :
    site ∈ code.sites := by
  rw [sites, Item.sitesOf_eq 0]
  exact List.mem_filterMap.2 ⟨(depth, item), mem, there⟩

/-! ## Scopes -/

namespace Scope

/-- The first scope of a list that knows a symbol binds it so. -/
def Decides (scopes : List Scope) (symbol : String) (binding : Binding) : Prop :=
  ∃ (inner : List Scope) (scope : Scope) (outer : List Scope), scopes = inner ++ scope :: outer ∧
    (∀ other ∈ inner, other symbol = none) ∧ scope symbol = some binding

theorem chain_nil (symbol : String) : chain [] symbol = none := rfl

/-- The innermost scope has the first say. -/
theorem chain_cons (scope : Scope) (outer : List Scope) (symbol : String) :
    chain (scope :: outer) symbol = (scope symbol).or (chain outer symbol) := by
  unfold chain
  rw [List.findSome?_cons]
  cases scope symbol <;> rfl

theorem Decides.chain_eq {scopes : List Scope} {symbol : String} {binding : Binding}
    (h : Decides scopes symbol binding) : chain scopes symbol = some binding := by
  obtain ⟨inner, scope, outer, rfl, silent, known⟩ := h
  induction inner with
  | nil => rw [List.nil_append, chain_cons, known, Option.some_or]
  | cons first inner ih =>
    rw [List.cons_append, chain_cons, silent first List.mem_cons_self, Option.none_or]
    exact ih fun other mem => silent other (List.mem_cons_of_mem _ mem)

theorem chain_eq_none {scopes : List Scope} {symbol : String}
    (unknown : ∀ scope ∈ scopes, scope symbol = none) : chain scopes symbol = none :=
  List.findSome?_eq_none_iff.2 unknown

end Scope

/-! ## Binding -/

namespace Machine

/-- The sites of a code have slots in a machine, and sites that share a slot have one symbol. -/
structure Houses (m : Machine) (code : Code) : Prop where
  within : ∀ site ∈ code.sites, site.slot.index < m.slots.size
  apart : ∀ site ∈ code.sites, ∀ other ∈ code.sites, site.slot = other.slot →
    site.symbol = other.symbol

/-- Bind a code by several scopes one after the other, beginning with the last of them. -/
def bindEach (m : Machine) (code : Code) (scopes : List Scope) : Machine :=
  scopes.foldr (fun scope m => m.bind code scope) m

theorem binding?_bindSlot {m : Machine} {slot : SlotId} (within : slot.index < m.slots.size)
    (binding : Binding) (other : SlotId) :
    (m.bindSlot slot binding).binding? other =
      if other = slot then some binding else m.binding? other := by
  obtain ⟨i⟩ := slot
  obtain ⟨j⟩ := other
  simp only [binding?, bindSlot, Array.getD_eq_getD_getElem?, SlotId.mk.injEq]
  grind

theorem size_bindSite (scope : Scope) (m : Machine) (site : Site) :
    (bindSite scope m site).slots.size = m.slots.size := by
  unfold bindSite
  split
  · exact Array.size_setIfInBounds
  · rfl

theorem size_bind (m : Machine) (code : Code) (scope : Scope) :
    (m.bind code scope).slots.size = m.slots.size := by
  unfold bind
  induction code.sites generalizing m with
  | nil => rfl
  | cons site rest ih => rw [List.foldl_cons, ih, size_bindSite]

/-- Binding one site concerns its slot only. -/
theorem binding?_bindSite {m : Machine} {site : Site} (within : site.slot.index < m.slots.size)
    (scope : Scope) (slot : SlotId) :
    (bindSite scope m site).binding? slot =
      if slot = site.slot then (scope site.symbol).or (m.binding? slot) else m.binding? slot := by
  unfold bindSite
  cases scope site.symbol with
  | none => simp
  | some binding => rw [binding?_bindSlot within, Option.some_or]

/-- A slot that none of the sites has is left alone. -/
theorem binding?_bindSites_of_ne {m : Machine} {sites : List Site} {slot : SlotId}
    (foreign : ∀ site ∈ sites, site.slot ≠ slot) (scope : Scope) :
    (sites.foldl (bindSite scope) m).binding? slot = m.binding? slot := by
  rcases m.slots_bindSites sites scope slot.index with kept | ⟨site, mem, same, _⟩
  · rw [binding?, binding?, Array.getD_eq_getD_getElem?, Array.getD_eq_getD_getElem?, kept]
  · exact absurd (congrArg SlotId.mk same) (foreign site mem)

/-- A site is bound as the scope has it for its symbol, and if the scope does not know that, as it
was. -/
theorem binding?_bindSites {m : Machine} {sites : List Site}
    (within : ∀ site ∈ sites, site.slot.index < m.slots.size)
    (apart : ∀ site ∈ sites, ∀ other ∈ sites, site.slot = other.slot → site.symbol = other.symbol)
    (scope : Scope) {site : Site} (mem : site ∈ sites) :
    (sites.foldl (bindSite scope) m).binding? site.slot =
      (scope site.symbol).or (m.binding? site.slot) := by
  induction sites generalizing m with
  | nil => cases mem
  | cons first rest ih =>
    rw [List.foldl_cons]
    have step := binding?_bindSite (within first List.mem_cons_self) scope site.slot
    by_cases later : site ∈ rest
    · -- The slot is bound once more further on, and to the same.
      rw [ih (fun site mem => ?_) (fun site mem other mem' => ?_) later, step]
      · split
        · next own =>
          rw [apart site mem first List.mem_cons_self own]
          cases scope first.symbol <;> rfl
        · rfl
      · rw [size_bindSite]
        exact within site (List.mem_cons_of_mem _ mem)
      · exact apart site (List.mem_cons_of_mem _ mem) other (List.mem_cons_of_mem _ mem')
    · obtain rfl : site = first := (List.mem_cons.1 mem).resolve_right later
      have foreign : ∀ other ∈ rest, other.slot ≠ site.slot := fun other there same =>
        later (Site.eq_of (apart other (List.mem_cons_of_mem _ there) site mem same) same ▸ there)
      rw [binding?_bindSites_of_ne foreign, step, if_pos rfl]

/-- A slot that no site of a code has is left alone. -/
theorem binding?_bind_of_ne {m : Machine} {code : Code} {slot : SlotId}
    (foreign : ∀ site ∈ code.sites, site.slot ≠ slot) (scope : Scope) :
    (m.bind code scope).binding? slot = m.binding? slot := binding?_bindSites_of_ne foreign scope

/-- Machines with as many slots that are bound alike have the same slots. -/
theorem slots_eq_of_binding? {m m' : Machine} (size : m'.slots.size = m.slots.size)
    (same : ∀ slot, m'.binding? slot = m.binding? slot) : m'.slots = m.slots := by
  refine Array.ext size fun index old old' => ?_
  simpa [binding?, Array.getD_eq_getD_getElem?, old, old'] using same ⟨index⟩

section BindEach

variable (m : Machine) (code : Code) (scopes : List Scope)

theorem size_bindEach : (m.bindEach code scopes).slots.size = m.slots.size := by
  induction scopes with
  | nil => rfl
  | cons scope outer ih => exact (size_bind ..).trans ih

variable {m code} in
theorem binding?_bindEach_of_ne {slot : SlotId} (foreign : ∀ site ∈ code.sites, site.slot ≠ slot) :
    (m.bindEach code scopes).binding? slot = m.binding? slot := by
  induction scopes with
  | nil => rfl
  | cons scope outer ih => exact (binding?_bind_of_ne foreign scope).trans ih

/-- Binding by several scopes changes nothing but slots. -/
theorem bindEach_eq :
    m.bindEach code scopes = { m with slots := (m.bindEach code scopes).slots } := by
  induction scopes with
  | nil => rfl
  | cons scope outer ih =>
    have opened : m.bindEach code (scope :: outer) = (m.bindEach code outer).bind code scope := rfl
    rw [opened, bind_eq, ih]

end BindEach

namespace Houses

variable {m : Machine} {code : Code}

/-- A site is bound as the scope has it for its symbol, and if the scope does not know that, as it
was. -/
theorem binding?_bind (h : m.Houses code) (scope : Scope) {site : Site} (mem : site ∈ code.sites) :
    (m.bind code scope).binding? site.slot = (scope site.symbol).or (m.binding? site.slot) :=
  binding?_bindSites h.within h.apart scope mem

/-- Binding moves nothing. -/
theorem bind (h : m.Houses code) (scope : Scope) : (m.bind code scope).Houses code where
  within site mem := by
    rw [size_bind]
    exact h.within site mem
  apart := h.apart

theorem bindEach (h : m.Houses code) (scopes : List Scope) :
    (m.bindEach code scopes).Houses code := by
  induction scopes with
  | nil => exact h
  | cons scope outer ih => exact ih.bind scope

/-- A site is bound as the innermost scope that knows its symbol has it. -/
theorem binding?_bindEach (h : m.Houses code) (scopes : List Scope) {site : Site}
    (mem : site ∈ code.sites) :
    (m.bindEach code scopes).binding? site.slot =
      (Scope.chain scopes site.symbol).or (m.binding? site.slot) := by
  induction scopes with
  | nil => rw [Scope.chain_nil, Option.none_or]; rfl
  | cons scope outer ih =>
    rw [Scope.chain_cons, Option.or_assoc, ← ih]
    exact (h.bindEach outer).binding?_bind scope mem

/-- A chain of scopes leaves the slots that its scopes leave one after the other. -/
theorem slots_bind_chain (h : m.Houses code) (scopes : List Scope) :
    (m.bind code (.chain scopes)).slots = (m.bindEach code scopes).slots := by
  refine slots_eq_of_binding? ?_ fun slot => ?_
  · rw [size_bind, size_bindEach]
  · by_cases own : ∃ site ∈ code.sites, site.slot = slot
    · obtain ⟨site, mem, rfl⟩ := own
      rw [h.binding?_bind _ mem, h.binding?_bindEach _ mem]
    · have foreign : ∀ site ∈ code.sites, site.slot ≠ slot :=
        fun site mem same => own ⟨site, mem, same⟩
      rw [binding?_bind_of_ne foreign, binding?_bindEach_of_ne scopes foreign]

end Houses

/-! ## New code -/

/-- The slots of some sites are new, one behind the other. -/
structure Rows (m : Machine) (sites : List Site) (m' : Machine) : Prop where
  indices : sites.map (fun site => site.slot.index) = List.range' m.slots.size sites.length
  size : m'.slots.size = m.slots.size + sites.length

/-- Sites that are made have their slots one behind the other. -/
theorem Builds.rows {m m' : Machine} {sites : List Site} (h : m.Builds sites m') :
    m.Rows sites m' := by
  induction h with
  | nil m => exact ⟨rfl, rfl⟩
  | newSlot m symbol binding => exact ⟨rfl, Array.size_push ..⟩
  | newId _ ih => exact ⟨ih.indices, ih.size⟩
  | append _ _ first second =>
    refine ⟨?_, ?_⟩
    · rw [List.map_append, first.indices, second.indices, first.size, List.length_append,
        List.range'_append_1]
    · rw [second.size, first.size, List.length_append, Nat.add_assoc]

/-- A code with new slots has each of its sites in a slot of its own. -/
theorem Rows.houses {m m' : Machine} {code : Code} (h : m.Rows code.sites m') : m'.Houses code where
  within site mem := by
    have listed : site.slot.index ∈ code.sites.map fun site => site.slot.index :=
      List.mem_map_of_mem mem
    rw [h.indices, List.mem_range'_1] at listed
    rw [h.size]
    exact listed.2
  apart site mem other mem' same := by
    have once : (code.sites.map fun site => site.slot.index).Nodup := by
      rw [h.indices]
      exact List.nodup_range'
    exact congrArg Site.symbol
      (List.inj_on_of_nodup_map once mem mem' (congrArg SlotId.index same))

/-- The code of a list of nodes is housed in its machine. -/
theorem houses_lower (m : Machine) (nodes : List Node) :
    (m.lower nodes).2.Houses (m.lower nodes).1 := (m.builds_lower nodes).rows.houses

/-- The copy of a code is housed in its machine. -/
theorem houses_copy (m : Machine) (code : Code) : (m.copy code).2.Houses (m.copy code).1 :=
  (m.builds_copy code).rows.houses

/-- A chain of scopes binds a code as its scopes do one after the other, beginning with the
outermost. Either way every word and every path, at any depth, is bound as the first scope that
knows its symbol has it, and if none does, as it was. Nothing else is changed: not the slots of
other sites, and no other part of the machine. -/
theorem Houses.bind_chain {m : Machine} {code : Code} (h : m.Houses code) (scopes : List Scope) :
    m.bind code (.chain scopes) = m.bindEach code scopes ∧
    (∀ depth item site, (depth, item) ∈ Item.preorders 0 code.items → item.site? = some site →
      (∀ binding, Scope.Decides scopes site.symbol binding →
        (m.bindEach code scopes).binding? site.slot = some binding) ∧
      ((∀ scope ∈ scopes, scope site.symbol = none) →
        (m.bindEach code scopes).binding? site.slot = m.binding? site.slot)) ∧
    (∀ slot, (∀ site ∈ code.sites, site.slot ≠ slot) →
      (m.bindEach code scopes).binding? slot = m.binding? slot) ∧
    m.bindEach code scopes = { m with slots := (m.bindEach code scopes).slots } := by
  refine ⟨?_, fun depth item site mem there => ⟨fun binding decided => ?_, fun unknown => ?_⟩,
    fun slot foreign => binding?_bindEach_of_ne scopes foreign, m.bindEach_eq code scopes⟩
  · rw [bind_eq, bindEach_eq, h.slots_bind_chain]
  · rw [h.binding?_bindEach scopes (Code.mem_sites mem there), decided.chain_eq, Option.some_or]
  · rw [h.binding?_bindEach scopes (Code.mem_sites mem there), Scope.chain_eq_none unknown,
      Option.none_or]

/-- A code with words and a path at three depths, each with a slot of its own. -/
def nestedCode : Code :=
  ⟨⟨0⟩, [.word .plain "x" ⟨0⟩,
    .group .square ⟨1⟩ [.word .get "y" ⟨1⟩, .group .round ⟨2⟩ [.path .set "x" ["field"] ⟨2⟩]],
    .word .quote "z" ⟨3⟩, .literal (.text "x"), .refinement "x"]⟩

/-- A machine with the slots of that code, two of which are bound. -/
def nestedHome : Machine :=
  { ofConfig .standard with slots := #[none, some (.dictionary ⟨0⟩), none, some (.input ⟨0⟩)] }

/-- Of two scopes that both know `x`, and one of which knows `y`, the inner one has `x` at all
depths, the outer one has `y`, and `z` stays as it was. -/
theorem Houses.bind_chain_nested :
    nestedHome.Houses nestedCode ∧
    nestedHome.bind nestedCode (.chain [.symbols ["x"] ⟨1⟩, .symbols ["x", "y"] ⟨2⟩]) =
      (nestedHome.bind nestedCode (.symbols ["x", "y"] ⟨2⟩)).bind nestedCode (.symbols ["x"] ⟨1⟩) ∧
    ((nestedHome.bindEach nestedCode [.symbols ["x"] ⟨1⟩, .symbols ["x", "y"] ⟨2⟩]).binding? ⟨2⟩ =
        some (.dictionary ⟨1⟩) ∧
      (nestedHome.bindEach nestedCode [.symbols ["x"] ⟨1⟩, .symbols ["x", "y"] ⟨2⟩]).binding? ⟨1⟩ =
        some (.dictionary ⟨2⟩) ∧
      (nestedHome.bindEach nestedCode [.symbols ["x"] ⟨1⟩, .symbols ["x", "y"] ⟨2⟩]).binding? ⟨3⟩ =
        some (.input ⟨0⟩)) := by
  have housed : nestedHome.Houses nestedCode := ⟨by decide, by decide⟩
  obtain ⟨same, bound, -⟩ :=
    housed.bind_chain [.symbols ["x"] ⟨1⟩, .symbols ["x", "y"] ⟨2⟩]
  have path := bound 2 (.path .set "x" ["field"] ⟨2⟩) ⟨"x", ⟨2⟩⟩
    (by simp [nestedCode, Item.preorders, Item.preorder]) rfl
  have word := bound 1 (.word .get "y" ⟨1⟩) ⟨"y", ⟨1⟩⟩
    (by simp [nestedCode, Item.preorders, Item.preorder]) rfl
  have quote := bound 0 (.word .quote "z" ⟨3⟩) ⟨"z", ⟨3⟩⟩
    (by simp [nestedCode, Item.preorders, Item.preorder]) rfl
  refine ⟨housed, same, path.1 _ ⟨[], _, _, rfl, nofun, rfl⟩,
    word.1 _ ⟨[_], _, _, rfl, fun other mem => ?_, rfl⟩, quote.2 fun scope mem => ?_⟩
  · obtain rfl := List.mem_singleton.1 mem
    rfl
  · rcases List.mem_pair.1 mem with rfl | rfl <;> rfl

end Machine

end Wordstream
