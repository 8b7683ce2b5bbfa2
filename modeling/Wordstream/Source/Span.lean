/-!
# Positions and spans

A position is a line and a column, both counted from one. Columns count characters and a line feed
starts a new line. A span runs from the position of a first character to that of a last one.

Lines and columns are natural numbers, without a bound of their own. Neither runs ahead of the
characters that were passed, so in a text of less than `UInt32.size - 1` characters both fit
thirty-two bits.

## Main results

* `Position.after_le` — lines and columns grow by no more than one with each character
-/

namespace Wordstream

/-- A place in a text: line and column, both from one. -/
structure Position where
  line : Nat
  column : Nat
  deriving DecidableEq, Repr, Inhabited

namespace Position

/-- The first place of a text. -/
def start : Position := ⟨1, 1⟩

/-- The place behind a character that stands at a given place. -/
def advance (here : Position) (c : Char) : Position :=
  if c = '\n' then ⟨here.line + 1, 1⟩ else ⟨here.line, here.column + 1⟩

/-- The place behind a text that starts at a given place. -/
def after (here : Position) (text : List Char) : Position := text.foldl advance here

/-- The column to the left on the same line, or the first column when there is none. -/
def left (here : Position) : Position := ⟨here.line, max (here.column - 1) 1⟩

/-- Reading order: by line, then by column. -/
def before (a b : Position) : Bool := a.line < b.line || (a.line = b.line && a.column < b.column)

/-- Nothing was passed. -/
@[simp]
theorem after_nil (here : Position) : here.after [] = here := rfl

/-- Passing a text is passing its first character and then the rest. -/
@[simp]
theorem after_cons (here : Position) (c : Char) (text : List Char) :
    here.after (c :: text) = (here.advance c).after text := rfl

/-- Passing two texts is passing one after the other. -/
theorem after_append (here : Position) (a b : List Char) :
    here.after (a ++ b) = (here.after a).after b := by
  simp [after]

/-- Neither line nor column runs ahead of the characters that were passed. -/
theorem after_le (here : Position) (text : List Char) :
    (here.after text).line ≤ here.line + text.length ∧
      (here.after text).column ≤ here.column + text.length := by
  induction text generalizing here with
  | nil => exact ⟨Nat.le_refl _, Nat.le_refl _⟩
  | cons c rest ih =>
    have step : (here.advance c).line ≤ here.line + 1 ∧
        (here.advance c).column ≤ here.column + 1 := by
      unfold advance
      split <;> constructor <;> dsimp only <;> omega
    have more := ih (here.advance c)
    rw [after_cons, List.length_cons]
    omega

end Position

/-- A stretch of text, from its first character to its last. -/
structure Span where
  first : Position
  last : Position
  deriving DecidableEq, Repr, Inhabited

namespace Span

/-- The span of one place. -/
def point (here : Position) : Span := ⟨here, here⟩

/-- The span of a text that starts at `first` and ends just before `behind`. -/
def upTo (first behind : Position) : Span := ⟨first, behind.left⟩

/-- The least span that covers both. -/
def merge (a b : Span) : Span :=
  ⟨if b.first.before a.first then b.first else a.first,
    if a.last.before b.last then b.last else a.last⟩

/-- Where a span starts, as `line:column`. -/
def text (span : Span) : String := s!"{span.first.line}:{span.first.column}"

end Span

end Wordstream
