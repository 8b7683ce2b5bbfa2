/-!
# Source texts and their lines

A source text has a name and is cut into lines at its line feeds. An index holds the offsets, in
bytes, at which the lines start; a line is what stands between its own offset and the line feed
before the next one. The carriage returns at the end of a line do not belong to it.
-/

namespace Wordstream

/-- A text to be read, with the name that diagnostics give it. -/
structure SourceText where
  name : String
  chars : List Char

namespace SourceText

/-- A named text. -/
def ofString (name text : String) : SourceText := ⟨name, text.toList⟩

/-- How many bytes a text takes. -/
def byteLength : List Char → Nat
  | [] => 0
  | c :: rest => c.utf8Size + byteLength rest

/-- The offsets one behind each line feed of a text that starts at an offset. -/
def behindLineFeeds (offset : Nat) : List Char → List Nat
  | [] => []
  | c :: rest =>
    if c = '\n' then (offset + 1) :: behindLineFeeds (offset + 1) rest
    else behindLineFeeds (offset + c.utf8Size) rest

/-- The offsets at which the lines of a text start. -/
def lineStarts (source : SourceText) : List Nat := 0 :: behindLineFeeds 0 source.chars

/-- What stands before an offset and what stands behind it. There is no answer for an offset
within a character or behind the end. -/
def cut? : List Char → (offset : Nat) → Option (List Char × List Char)
  | cs, 0 => some ([], cs)
  | [], _ + 1 => none
  | c :: rest, offset + 1 =>
    if c.utf8Size ≤ offset + 1 then
      (cut? rest (offset + 1 - c.utf8Size)).map fun parts => (c :: parts.1, parts.2)
    else none

/-- What stands between two offsets, the first of which must not lie behind the second. -/
def slice? (cs : List Char) (start stop : Nat) : Option (List Char) := do
  let (_, rear) ← cut? cs start
  if stop < start then none
  else
    let (inner, _) ← cut? rear (stop - start)
    some inner

/-- The offsets between which the line with a number stands. It ends before the line feed that the
next line is behind, and the last line ends with the text. -/
def extent? (source : SourceText) (number : Nat) : Option (Nat × Nat) :=
  if number = 0 then none
  else
    source.lineStarts[number - 1]?.map fun start =>
      (start, (source.lineStarts[number]?.map (· - 1)).getD (byteLength source.chars))

/-- A line without the carriage returns at its end. -/
def trimEnd (line : List Char) : List Char := (line.reverse.dropWhile (· = '\r')).reverse

/-- The line with a number, counted from one. -/
def line? (source : SourceText) (number : Nat) : Option String := do
  let (start, stop) ← source.extent? number
  let line ← slice? source.chars start stop
  some (String.ofList (trimEnd line))

end SourceText

end Wordstream
