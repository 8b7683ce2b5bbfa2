/-!
# Tables

A table holds values under names, each name at most once and in the order of code points.

## Main results

* `Table.get?_insert` — what is under a name after an insertion
-/

namespace Wordstream

/-- Values under names. -/
structure Table (α : Type) where
  entries : List (String × α)

namespace Table

variable {α : Type}

/-- The table without entries. -/
def empty : Table α := ⟨[]⟩

instance : Inhabited (Table α) := ⟨empty⟩

/-- The value of the first entry with a name. -/
def findValue? (name : String) : List (String × α) → Option α
  | [] => none
  | (other, value) :: rest => if name = other then some value else findValue? name rest

/-- What stands under a name. -/
def get? (table : Table α) (name : String) : Option α := findValue? name table.entries

/-- Whether something stands under a name. -/
def contains (table : Table α) (name : String) : Bool := (table.get? name).isSome

/-- Put an entry where its name belongs, in place of one with the same name. -/
def insertEntry (name : String) (value : α) : List (String × α) → List (String × α)
  | [] => [(name, value)]
  | (other, old) :: rest =>
    if name = other then (name, value) :: rest
    else if name < other then (name, value) :: (other, old) :: rest
    else (other, old) :: insertEntry name value rest

/-- Put a value under a name. -/
def insert (table : Table α) (name : String) (value : α) : Table α :=
  ⟨insertEntry name value table.entries⟩

/-- Remove what stands under a name. -/
def erase (table : Table α) (name : String) : Table α :=
  ⟨table.entries.filter fun entry => entry.1 ≠ name⟩

/-- The table with given entries; of two under one name the later counts. -/
def ofList (entries : List (String × α)) : Table α :=
  entries.foldl (fun table entry => table.insert entry.1 entry.2) empty

/-- The names in order. -/
def keys (table : Table α) : List String := table.entries.map Prod.fst

/-- The number of entries. -/
def size (table : Table α) : Nat := table.entries.length

/-- An entry is found under its name, and the others as before. -/
theorem findValue?_insertEntry (name other : String) (value : α) (entries : List (String × α)) :
    findValue? other (insertEntry name value entries) =
      if other = name then some value else findValue? other entries := by
  induction entries with
  | nil => rfl
  | cons entry rest ih => grind [insertEntry, findValue?]

/-- What is put under a name is there, and the rest is as it was. -/
@[simp]
theorem get?_insert (table : Table α) (name other : String) (value : α) :
    (table.insert name value).get? other = if other = name then some value else table.get? other :=
  findValue?_insertEntry name other value table.entries

end Table

end Wordstream
