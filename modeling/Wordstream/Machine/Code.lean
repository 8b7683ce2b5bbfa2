import Wordstream.Machine.Basic

/-!
# Code in a machine

Nodes become code with fresh slots and identities; code is copied with its bindings; and the sites
of a code are bound to what a scope resolves their symbols to. Sites that a scope does not resolve
keep what they were bound to.
-/

namespace Wordstream

/-- What symbols stand for; nothing for those that a scope does not know. -/
abbrev Scope := String → Option Binding

namespace Scope

/-- The first of several scopes that resolves a symbol. -/
def chain (scopes : List Scope) : Scope := fun symbol => scopes.findSome? fun scope => scope symbol

/-- Every symbol is an entry of one dictionary. -/
def everything (dictionary : Ref .dictionary) : Scope := fun _ => some (.dictionary dictionary)

/-- The symbols of a list are entries of one dictionary. -/
def symbols (names : List String) (dictionary : Ref .dictionary) : Scope :=
  fun symbol => if names.contains symbol then some (.dictionary dictionary) else none

end Scope

namespace Machine

/-- A new slot with a binding. -/
def newSlot (m : Machine) (binding : Option Binding) : SlotId × Machine :=
  (⟨m.slots.size⟩, { m with slots := m.slots.push binding })

/-- What a slot holds. -/
def binding? (m : Machine) (slot : SlotId) : Option Binding := m.slots.getD slot.index none

/-- Bind a slot. -/
def bindSlot (m : Machine) (slot : SlotId) (binding : Binding) : Machine :=
  { m with slots := m.slots.setIfInBounds slot.index (some binding) }

mutual

/-- The item of a node. -/
def lowerNode (m : Machine) : Node → Item × Machine
  | .word kind symbol _ =>
    let (slot, m) := m.newSlot none
    (.word kind symbol slot, m)
  | .path kind segments _ =>
    let (slot, m) := m.newSlot none
    (.path kind (segments.headD "") segments.tail slot, m)
  | .group bracket nodes _ =>
    let (items, m) := lowerNodes m nodes
    let (id, m) := m.newId
    (.group bracket ⟨id⟩ items, m)
  | .number value _ => (.literal (.number value), m)
  | .text value _ => (.literal (.text value), m)
  | .refinement name _ => (.refinement name, m)

/-- The items of a list of nodes. -/
def lowerNodes (m : Machine) : List Node → List Item × Machine
  | [] => ([], m)
  | node :: rest =>
    let (item, m) := lowerNode m node
    let (items, m) := lowerNodes m rest
    (item :: items, m)

end

/-- The code of a list of nodes, with unbound sites. -/
def lower (m : Machine) (nodes : List Node) : Code × Machine :=
  let (items, m) := m.lowerNodes nodes
  let (id, m) := m.newId
  (⟨⟨id⟩, items⟩, m)

mutual

/-- A copy of an item with slots of its own. -/
def copyItem (m : Machine) : Item → Item × Machine
  | .word kind symbol slot =>
    let (slot, m) := m.newSlot (m.binding? slot)
    (.word kind symbol slot, m)
  | .path kind head fields slot =>
    let (slot, m) := m.newSlot (m.binding? slot)
    (.path kind head fields slot, m)
  | .group bracket _ items =>
    let (items, m) := copyItems m items
    let (id, m) := m.newId
    (.group bracket ⟨id⟩ items, m)
  | .literal value => (.literal value, m)
  | .refinement name => (.refinement name, m)

/-- Copies of the items of a list. -/
def copyItems (m : Machine) : List Item → List Item × Machine
  | [] => ([], m)
  | item :: rest =>
    let (item, m) := copyItem m item
    let (items, m) := copyItems m rest
    (item :: items, m)

end

/-- A copy of a code that shares no slot with it; its sites are bound as those of the code are. -/
def copy (m : Machine) (code : Code) : Code × Machine :=
  let (items, m) := m.copyItems code.items
  let (id, m) := m.newId
  (⟨⟨id⟩, items⟩, m)

/-- Bind one site, if a scope resolves its symbol. -/
def bindSite (scope : Scope) (m : Machine) (site : Site) : Machine :=
  match scope site.symbol with
  | some binding => m.bindSlot site.slot binding
  | none => m

/-- Bind every site of a code whose symbol a scope resolves. -/
def bind (m : Machine) (code : Code) (scope : Scope) : Machine :=
  code.sites.foldl (bindSite scope) m

/-- Bind every site of a code to the root dictionary. -/
def bindRoot (m : Machine) (code : Code) : Machine := m.bind code (.everything m.root)

/-- Bind the symbols that a code assigns to a dictionary. -/
def bindAssigned (m : Machine) (code : Code) (dictionary : Ref .dictionary) : Machine :=
  m.bind code (.symbols code.assigned dictionary)

/-- The scope of the names that a dictionary has now. -/
def scopeOf (m : Machine) (dictionary : Ref .dictionary) : Scope :=
  .symbols (m.dictionary dictionary).keys dictionary

/-- Bind the names that a dictionary has to it. -/
def bindKnown (m : Machine) (code : Code) (dictionary : Ref .dictionary) : Machine :=
  m.bind code (m.scopeOf dictionary)

/-- The code of a list of nodes, with its sites bound to the root dictionary. -/
def load (m : Machine) (nodes : List Node) : Code × Machine :=
  let (code, m) := m.lower nodes
  (code, m.bindRoot code)

/-- A copy of a code that shares no slot with it, with its sites bound by a scope. -/
def enclose (m : Machine) (code : Code) (scope : Scope) : Code × Machine :=
  let (code, m) := m.copy code
  (code, m.bind code scope)

/-- A new dictionary with some entries for a code: the sites whose symbols are names of entries, or
are assigned by the code, are bound to it. -/
def openScope (m : Machine) (code : Code) (entries : Dictionary) : Ref .dictionary × Machine :=
  let (ref, m) := m.newDictionary entries
  (ref, m.bind code (.symbols (entries.keys ++ code.assigned) ref))

end Machine

end Wordstream
