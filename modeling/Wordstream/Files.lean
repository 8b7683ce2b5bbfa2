/-!
# Files

The files that modules can be loaded from: a tree below a working directory. A path is followed
component by component, and reading it fails in the ways in which reading files fails.
-/

namespace Wordstream

/-- A file with its bytes, or a directory. -/
inductive FileEntry where
  | file (bytes : ByteArray)
  | directory

/-- Files and directories by the components of their paths. -/
structure FileTree where
  entries : List (List String × FileEntry)

/-- Why a file cannot be read. -/
inductive ReadError where
  | notFound
  | notDirectory
  | isDirectory
  | nameTooLong
  | nullCharacter
  | notText
  deriving DecidableEq, Repr

namespace ReadError

/-- The wording of a read error. -/
def message : ReadError → String
  | notFound => "No such file or directory (os error 2)"
  | notDirectory => "Not a directory (os error 20)"
  | isDirectory => "Is a directory (os error 21)"
  | nameTooLong => "File name too long (os error 36)"
  | nullCharacter => "file name contained an unexpected NUL byte"
  | notText => "stream did not contain valid UTF-8"

end ReadError

/-- Whether a path starts at the root of all files. -/
def isAbsolute (path : String) : Bool := path.startsWith "/"

/-- A path below a root; an absolute path stays as it is. -/
def joinPaths (root path : String) : String :=
  if isAbsolute path then path
  else if root.isEmpty || root.endsWith "/" then root ++ path
  else root ++ "/" ++ path

namespace FileTree

/-- No files. -/
def empty : FileTree := ⟨[]⟩

/-- The components of a path; empty ones and single dots are left out. -/
def components (path : String) : List String :=
  (path.splitOn "/").filter fun part => !part.isEmpty && part ≠ "."

/-- Add an entry at a path. -/
def add (tree : FileTree) (path : String) (entry : FileEntry) : FileTree :=
  ⟨tree.entries ++ [(components path, entry)]⟩

/-- What stands at a place: the last entry that was put there, or a directory if something stands
below it. -/
def at? (tree : FileTree) (place : List String) : Option FileEntry :=
  if place.isEmpty then some .directory
  else
    match tree.entries.reverse.find? fun entry => entry.1 = place with
    | some (_, entry) => some entry
    | none =>
      if tree.entries.any fun entry => place.isPrefixOf entry.1 then some .directory else none

/-- A place that a path leads to: so many levels above the working directory, and the components
below that. -/
structure Place where
  above : Nat
  below : List String

/-- Where a path starts: at the working directory, or, if it is absolute, somewhere above. -/
def startOf (path : String) : Place := ⟨if isAbsolute path then 1 else 0, []⟩

/-- What stands at a place. Of what is above the working directory only the directories on the way
are known. -/
def entryAt (tree : FileTree) (place : Place) : Option FileEntry :=
  if place.above = 0 then tree.at? place.below
  else if place.below.isEmpty then some .directory
  else none

/-- Go from a directory by one component. -/
def enter (tree : FileTree) (place : Place) (part : String) : Except ReadError Place :=
  match tree.entryAt place with
  | none => .error .notFound
  | some (.file _) => .error .notDirectory
  | some .directory =>
    if 255 < part.utf8ByteSize then .error .nameTooLong
    else if part = ".." then
      if place.below.isEmpty then .ok ⟨place.above + 1, []⟩
      else .ok ⟨place.above, place.below.dropLast⟩
    else .ok ⟨place.above, place.below ++ [part]⟩

/-- What a path leads to, component by component. -/
def follow (tree : FileTree) (path : String) : Except ReadError FileEntry := do
  if path.contains '\x00' then .error .nullCharacter
  else if path.isEmpty then .error .notFound
  else if 4095 < path.utf8ByteSize then .error .nameTooLong
  else
    let place ← (components path).foldlM tree.enter (startOf path)
    match tree.entryAt place with
    | none => .error .notFound
    | some .directory => .ok .directory
    | some (.file bytes) =>
      if path.endsWith "/" || path.endsWith "/." then .error .notDirectory else .ok (.file bytes)

/-- The text of the file at a path. -/
def read (tree : FileTree) (path : String) : Except ReadError String := do
  match ← tree.follow path with
  | .directory => .error .isDirectory
  | .file bytes =>
    match String.fromUTF8? bytes with
    | some text => .ok text
    | none => .error .notText

end FileTree

end Wordstream
