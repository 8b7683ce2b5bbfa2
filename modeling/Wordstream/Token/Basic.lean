import Wordstream.Decimal.Text
import Wordstream.Source.Span

/-!
# Tokens

A source text is a sequence of brackets, numbers, texts, words and refinements. A word carries its
sigil as a kind: `w` names a thing, `:w` fetches it, `w:` assigns it and `'w` is the bare name.
-/

namespace Wordstream

/-- The two pairs of brackets. -/
inductive Bracket where
  | square
  | round
  deriving DecidableEq, Repr

namespace Bracket

/-- The bracket that opens a group. -/
def opening : Bracket → String
  | square => "["
  | round => "("

/-- The bracket that closes a group. -/
def closing : Bracket → String
  | square => "]"
  | round => ")"

end Bracket

/-- What a word asks for, as its sigil says. -/
inductive WordKind where
  | plain
  | get
  | set
  | quote
  deriving DecidableEq, Repr

namespace WordKind

/-- The name of a kind of word. -/
def name : WordKind → String
  | plain => "word"
  | get => "get-word"
  | set => "set-word"
  | quote => "quote"

/-- A symbol with the sigil of a kind. -/
def decorate (kind : WordKind) (symbol : String) : String :=
  match kind with
  | plain => symbol
  | get => ":" ++ symbol
  | set => symbol ++ ":"
  | quote => "'" ++ symbol

end WordKind

/-- A number in source notation: as an integer within sixty-four bits when it has no fraction. -/
def numeral (x : Float) : String :=
  match Decimal.whole? x with
  | some n => toString (Decimal.clamp64 n)
  | none => Decimal.text Decimal.plain x

/-- What a token is. -/
inductive TokenKind where
  | opening (bracket : Bracket)
  | closing (bracket : Bracket)
  | number (value : Float)
  | text (value : String)
  | word (kind : WordKind) (symbol : String)
  | refinement (name : String)
  | endOfText

namespace TokenKind

/-- How a token reads. A text stands between quotes as it is. -/
def display : TokenKind → String
  | opening bracket => bracket.opening
  | closing bracket => bracket.closing
  | number value => numeral value
  | text value => "\"" ++ value ++ "\""
  | word kind symbol => kind.decorate symbol
  | refinement name => "/" ++ name
  | endOfText => "end of file"

/-- Whether a token marks the end. -/
def isEnd : TokenKind → Bool
  | endOfText => true
  | _ => false

theorem isEnd_iff {kind : TokenKind} : kind.isEnd ↔ kind = endOfText := by
  cases kind <;> simp [isEnd]

theorem isEnd_eq_false_iff {kind : TokenKind} : kind.isEnd = false ↔ kind ≠ endOfText := by
  rw [Ne, ← isEnd_iff, Bool.not_eq_true]

end TokenKind

/-- A token and where it stands. -/
structure Token where
  kind : TokenKind
  span : Span

end Wordstream
