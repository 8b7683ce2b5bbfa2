import Wordstream.Json

/-!
# Settings

What can be set about a machine: whether it is traced, how deep procedure calls may be nested, and
where relative module paths start. Settings are read from a JSON object, in which every field may be
left out and unknown fields are passed over, or from an array of the fields in order.
-/

namespace Wordstream

/-- The settings of a machine. -/
structure Config where
  trace : Bool
  maxCallDepth : Nat
  moduleRoot : Option String
  deriving DecidableEq, Repr

namespace Config

/-- Not traced, sixty-four calls deep, and no root for modules. -/
def standard : Config := ⟨false, 64, none⟩

/-- The fields of the settings. -/
inductive Field where
  | trace
  | maxCallDepth
  | moduleRoot
  deriving DecidableEq, Repr

/-- All fields, in the order in which an array gives them. -/
def fields : List Field := [.trace, .maxCallDepth, .moduleRoot]

/-- The name of a field. -/
def Field.name : Field → String
  | trace => "trace"
  | maxCallDepth => "max_call_depth"
  | moduleRoot => "module_root"

/-- The greatest call depth that can be set. -/
def maxDepthLimit : Nat := Nat.pow 2 64 - 1

/-- Set a field to a JSON value, if it is of the right kind. -/
def set? (config : Config) (field : Field) (value : Json) : Option Config :=
  match field, value with
  | .trace, .bool trace => some { config with trace }
  | .maxCallDepth, .number numeral => do
    let depth ← numeral.toNat?
    if depth ≤ maxDepthLimit then some { config with maxCallDepth := depth } else none
  | .moduleRoot, .null => some { config with moduleRoot := none }
  | .moduleRoot, .text root => some { config with moduleRoot := some root }
  | _, _ => none

/-- Set the fields that an object names, none of them twice. Every member must have a name. -/
def ofMembers? : List (Option String × Json) → (seen : List Field) → Config → Option Config
  | [], _, config => some config
  | (none, _) :: _, _, _ => none
  | (some name, value) :: rest, seen, config =>
    match fields.find? fun field => field.name = name with
    | none => ofMembers? rest seen config
    | some field =>
      if seen.contains field then none
      else do
        let config ← config.set? field value
        ofMembers? rest (field :: seen) config

/-- Set the fields in order, as far as there are values; there may not be more of them. -/
def ofItems? : List Json → List Field → Config → Option Config
  | [], _, config => some config
  | _ :: _, [], _ => none
  | value :: values, field :: rest, config => do
    let config ← config.set? field value
    ofItems? values rest config

/-- The settings that a JSON value gives. -/
def ofJson? : Json → Option Config
  | .object members => ofMembers? members [] standard
  | .array items => ofItems? items fields standard
  | _ => none

/-- The settings that a JSON text gives. -/
def read? (text : String) : Option Config := do
  ofJson? (← Json.read? text)

end Config

end Wordstream
