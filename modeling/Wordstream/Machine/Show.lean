import Wordstream.Machine.Basic

/-!
# Values as text, and their equality

Objects show their fields, so showing and comparing values follows references through the store. The
number of dictionaries bounds how deep objects can be nested without one being within itself.
-/

namespace Wordstream.Machine

/-- The text of an object, from the texts of its fields. -/
def objectText (fields : List (String × String)) : String :=
  "\x7b" ++ ", ".intercalate (fields.map fun field => field.1 ++ ": " ++ field.2) ++ "\x7d"

/-- The text of a value, objects being followed at most `depth` deep. -/
def displayWithin (m : Machine) : (depth : Nat) → Value → Option String
  | _, .none => some "none"
  | _, .bool value => some (if value then "true" else "false")
  | _, .number value => some (numberText value)
  | _, .text value => some value
  | _, .block code => some ("[" ++ code.display ++ "]")
  | _, .native _ => some "<native>"
  | _, .procedure _ => some "<proc>"
  | _, .suspension _ => some "<suspend>"
  | _, .task _ => some "<task>"
  | 0, .object _ => none
  | depth + 1, .object ref => do
    let fields ← (m.dictionary ref).entries.mapM fun (name, value) => do
      let text ← m.displayWithin depth value
      some (name, text)
    some (objectText fields)

/-- How deep objects can be nested without one being within itself. -/
def objectDepth (m : Machine) : Nat := m.dictionaries.cells.size

/-- The text of a value, unless it holds an object that is within itself. -/
def display? (m : Machine) (value : Value) : Option String := m.displayWithin m.objectDepth value

/-- The text of a value; nothing for one that has none. -/
def display (m : Machine) (value : Value) : String := (m.display? value).getD ""

/-- The text of a value with its type, unless it holds an object that is within itself. -/
def debug? (m : Machine) (value : Value) : Option String :=
  match value with
  | .none => some "None"
  | .bool value => some (if value then "Bool(true)" else "Bool(false)")
  | .number value => some ("Number(" ++ Decimal.text Decimal.exact value ++ ")")
  | .text value => some ("String(" ++ Text.quoted value ++ ")")
  | .block code => some ("Block([" ++ code.display ++ "])")
  | .object ref => (m.display? (.object ref)).map fun text => "Object(" ++ text ++ ")"
  | value => m.display? value

/-- Whether two entry lists have the same names and values that `same?` relates. Nothing behind the
first difference is looked at. -/
def sameEntries? (same? : Value → Value → Option Bool) :
    List (String × Value) → List (String × Value) → Option Bool
  | [], [] => some true
  | (name, value) :: rest, (name', value') :: rest' =>
    if name = name' then do
      if ← same? value value' then sameEntries? same? rest rest' else some false
    else some false
  | _, _ => some false

/-- Equality of values, objects being followed at most `depth` deep. -/
def equalWithin? (m : Machine) : (depth : Nat) → Value → Value → Option Bool
  | _, .none, .none => some true
  | _, .bool a, .bool b => some (a = b)
  | _, .number a, .number b => some (a == b)
  | _, .text a, .text b => some (a = b)
  | _, .block a, .block b => some (a.id = b.id)
  | _, .native a, .native b => some (a.id = b.id)
  | _, .procedure a, .procedure b => some (a.same b)
  | _, .suspension a, .suspension b => some (a = b)
  | _, .task a, .task b => some ((m.task a).out = (m.task b).out)
  | 0, .object a, .object b => if a = b then some true else none
  | depth + 1, .object a, .object b =>
    if a = b then some true
    else if (m.dictionary a).size ≠ (m.dictionary b).size then some false
    else sameEntries? (m.equalWithin? depth) (m.dictionary a).entries (m.dictionary b).entries
  | _, _, _ => some false

/-- Equality of values: plain ones and objects by what they hold, all others by identity. Comparing
objects that are within themselves can lead from a pair of them back to that pair; then there is no
answer. There are no more pairs than the square of the number of objects. -/
def equal? (m : Machine) (a b : Value) : Option Bool :=
  m.equalWithin? (m.objectDepth * m.objectDepth) a b

/-- A value as it is seen now, below the objects of a path. -/
def snapshotWithin (m : Machine) :
    (depth : Nat) → (path : List (Ref .dictionary)) → Value → Snapshot
  | _, _, .number value => .number value (numberText value)
  | _, _, .procedure procedure => .procedure procedure.isOperator
  | _, _, .suspension ref => .suspension (m.suspension ref).phase
  | _, _, .task ref => .task (m.task ref).result?
  | 0, _, .object _ => .cycle
  | depth + 1, path, .object ref =>
    if path.contains ref then .cycle
    else
      .object
        ((m.dictionary ref).entries.map fun (name, value) =>
          (name, m.snapshotWithin depth (ref :: path) value))
        (m.display? (.object ref))
  | _, _, value => .plain value.typeName (m.display value)

/-- A value as it is seen now. -/
def snapshot (m : Machine) (value : Value) : Snapshot :=
  m.snapshotWithin (m.objectDepth + 1) [] value

end Wordstream.Machine
