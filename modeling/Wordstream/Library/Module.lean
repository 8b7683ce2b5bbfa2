import Wordstream.Eval.Engine
import Wordstream.Files

/-!
# Loading modules

A module text is the word `module` with a description and a body. The description may name a native
backing: it is started, tracked under the id of the module, and what it exports is `Impl` within the
body. Loading gives what the body assigned.
-/

namespace Wordstream

/-- The entry of a description that names a backing. -/
def backingKey : String := "Impl-Native"

/-- The name under which a module sees what its backing exports. -/
def backingName : String := "Impl"

/-- Note an event. -/
def noteEvent (event : String) : Run Machine Unit :=
  modify fun m => { m with events := m.events ++ [event] }

/-- The description and the body of a module, if a code is one. -/
def moduleParts? (code : Code) : Option (Code × Code) :=
  match code.items with
  | [.word .plain "module" _, .group .square descriptionId description,
      .group .square bodyId body] => some (⟨descriptionId, description⟩, ⟨bodyId, body⟩)
  | _ => none

/-- Start the backing with a name and track it under an id. -/
def startBacking (id name : String) : Run Machine Backing := do
  match (← get).backings.get? name with
  | none => throw (.module s!"no native backing named {name}")
  | some backing =>
    noteEvent s!"start {backing.name}"
    if let some reason := backing.startFailure then throw (.hostTaskFailure reason)
    modify (·.track id backing)
    pure backing

/-- Start the backing that a description asks for, if it does, and offer what it exports to the
body: the entries that the body finds when it begins. -/
def offerBacking (id name : String) (description : Ref .dictionary) : Run Machine Dictionary := do
  match ((← get).dictionary description).get? backingKey with
  | none => pure .empty
  | some (.text wanted) =>
    let backing ← startBacking id wanted
    pure (Table.empty.insert backingName (.object backing.exports))
  | some _ => throw (.module s!"{name}: {backingKey} must be a string")

/-- Load a module from a text and give what its body assigned. -/
def loadText (engine : Engine) (id name text : String) : Run Machine (Ref .dictionary) := do
  match Node.parse (.ofString name text) with
  | .error found => throw (.unreadable found)
  | .ok nodes =>
    let code ← allocate (·.load nodes)
    match moduleParts? code with
    | none => throw (.module (name ++ ": expected `module [description] [body]`"))
    | some (description, body) =>
      let meta_ ← executeInto engine description
      let offer ← offerBacking id name meta_
      executeInto engine body offer

/-- Where a module path leads: below the root for modules, if there is one. -/
def modulePath (config : Config) (path : String) : String :=
  match config.moduleRoot with
  | some root => joinPaths root path
  | none => path

/-- Load a module from a file. -/
def loadFile (engine : Engine) (files : FileTree) (id path : String) :
    Run Machine (Ref .dictionary) := do
  let path := modulePath (← get).config path
  match files.read path with
  | .error reason => throw (.module s!"cannot read {path}: {reason.message}")
  | .ok text => loadText engine id path text

/-- Stop a backing that is tracked under an id. It is no longer tracked, even if stopping fails. -/
def stopTracked (id : String) (ref : Ref .implementation) : Run Machine Unit := do
  let backing := ((← get).implementations.get ref).backing
  modify fun m => { m with running := m.running.erase id }
  noteEvent s!"stop {backing.name}"
  match backing.stopFailure with
  | some reason => throw (.module reason)
  | none => modify (·.markStopped ref)

/-- Stop the backing of a module. -/
def stopModule (id : String) : Run Machine Unit := do
  match (← get).running.get? id with
  | none => throw (.module s!"module not found: {id}")
  | some ref => stopTracked id ref

end Wordstream
