import Wordstream.Node.Basic
import Wordstream.Table

/-!
# Code

Code is what nodes become before they run: a fixed sequence of items. Each word and each path head
is a *site*, which has a slot of its own; what a site is bound to is kept in its slot, apart from
the code. Code has an identity, so that two blocks that look alike can be told apart.
-/

namespace Wordstream

/-- The identity of a code. -/
structure CodeId where
  index : Nat
  deriving DecidableEq, Repr

/-- The slot of a site. -/
structure SlotId where
  index : Nat
  deriving DecidableEq, Repr

/-- A constant that stands in code. -/
inductive Literal where
  | number (value : Float)
  | text (value : String)

/-- One item of code. A square group is a block, which stands for itself; a round one is evaluated
where it stands. -/
inductive Item where
  | word (kind : WordKind) (symbol : String) (slot : SlotId)
  | path (kind : WordKind) (head : String) (fields : List String) (slot : SlotId)
  | group (bracket : Bracket) (id : CodeId) (items : List Item)
  | literal (value : Literal)
  | refinement (name : String)

/-- A sequence of items with an identity. -/
structure Code where
  id : CodeId
  items : List Item

/-- Where a binding goes: the symbol to be resolved, and the slot. -/
structure Site where
  symbol : String
  slot : SlotId
  deriving DecidableEq, Repr

/-- The first characters of operators. -/
def operatorChars : List Char := ['+', '-', '|', '*', '>', '=']

/-- A plain word is an operator when its first character says so. -/
def isOperator (kind : WordKind) (symbol : String) : Bool :=
  kind = .plain && symbol.toList.head?.any operatorChars.contains

/-- A number as values and code show it: without a fraction, and below ten to the fifteenth, as an
integer. -/
def numberText (x : Float) : String :=
  match Decimal.whole? x with
  | some n => if n.natAbs < Nat.pow 10 15 then toString n else Decimal.text Decimal.plain x
  | none => Decimal.text Decimal.plain x

/-- A constant in source notation. -/
def Literal.display : Literal → String
  | number value => numberText value
  | text value => Text.quoted value

namespace Item

mutual

/-- An item in source notation. -/
def display : Item → String
  | word kind symbol _ => kind.decorate symbol
  | path kind head fields _ => kind.decorate (Node.joinPath (head :: fields))
  | group bracket _ items => bracket.opening ++ " ".intercalate (displays items) ++ bracket.closing
  | literal value => value.display
  | refinement name => "/" ++ name

/-- Each item of a list in source notation. -/
def displays : List Item → List String
  | [] => []
  | item :: rest => item.display :: displays rest

end

mutual

/-- The sites of an item. -/
def sites : Item → List Site
  | word _ symbol slot => [⟨symbol, slot⟩]
  | path _ head _ slot => [⟨head, slot⟩]
  | group _ _ items => sitesOf items
  | literal _ => []
  | refinement _ => []

/-- The sites of the items of a list. -/
def sitesOf : List Item → List Site
  | [] => []
  | item :: rest => item.sites ++ sitesOf rest

end

mutual

/-- The symbols that an item assigns: those of set-words, nested ones included. -/
def assigned : Item → List String
  | word .set symbol _ => [symbol]
  | group _ _ items => assignedBy items
  | _ => []

/-- The symbols that the items of a list assign. -/
def assignedBy : List Item → List String
  | [] => []
  | item :: rest => item.assigned ++ assignedBy rest

end

mutual

/-- An item and all within it, each before what is within it and with its depth. -/
def preorder (depth : Nat) : Item → List (Nat × Item)
  | item@(group _ _ items) => (depth, item) :: preorders (depth + 1) items
  | item => [(depth, item)]

/-- The items of a list and all within them, each with its depth. -/
def preorders (depth : Nat) : List Item → List (Nat × Item)
  | [] => []
  | item :: rest => preorder depth item ++ preorders depth rest

end

/-- The site of a word or a path. -/
def site? : Item → Option Site
  | word _ symbol slot => some ⟨symbol, slot⟩
  | path _ head _ slot => some ⟨head, slot⟩
  | _ => none

end Item

namespace Code

/-- Code in source notation. -/
def display (code : Code) : String := " ".intercalate (Item.displays code.items)

/-- The text of code, marked as such. -/
def debug (code : Code) : String := "Code[" ++ code.display ++ "]"

/-- The sites of a code, nested ones included, in the order in which they stand. -/
def sites (code : Code) : List Site := Item.sitesOf code.items

/-- The symbols that a code assigns, nested code included. -/
def assigned (code : Code) : List String := Item.assignedBy code.items

/-- The symbols that a code assigns, each once and in order. -/
def assignedNames (code : Code) : List String :=
  (Table.ofList (code.assigned.map fun name => (name, ()))).keys

end Code

end Wordstream
