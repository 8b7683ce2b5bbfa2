import Wordstream.Text.Quoted
import Wordstream.Token.Basic

/-!
# Nodes

The tree that a source text stands for: words, paths, groups, numbers, texts and refinements, each
with its span. A square group is a block and a round one a parenthesis.
-/

namespace Wordstream

/-- A piece of source. -/
inductive Node where
  | word (kind : WordKind) (symbol : String) (span : Span)
  | path (kind : WordKind) (segments : List String) (span : Span)
  | group (bracket : Bracket) (items : List Node) (span : Span)
  | number (value : Float) (span : Span)
  | text (value : String) (span : Span)
  | refinement (name : String) (span : Span)

namespace Node

/-- Where a node stands. -/
def span : Node → Span
  | word _ _ span => span
  | path _ _ span => span
  | group _ _ span => span
  | number _ span => span
  | text _ span => span
  | refinement _ span => span

/-- The segments of a path with a slash between them. -/
def joinPath (segments : List String) : String := "/".intercalate segments

mutual

/-- A node in source notation. -/
def display : Node → String
  | word kind symbol _ => kind.decorate symbol
  | path kind segments _ => kind.decorate (joinPath segments)
  | group bracket items _ => bracket.opening ++ " ".intercalate (displays items) ++ bracket.closing
  | number value _ => numeral value
  | text value _ => Text.quoted value
  | refinement name _ => "/" ++ name

/-- Each node of a list in source notation. -/
def displays : List Node → List String
  | [] => []
  | node :: rest => node.display :: displays rest

end

mutual

/-- A node and all below it, each before what is below it and with its depth. -/
def preorder (depth : Nat) : Node → List (Nat × Node)
  | node@(group _ items _) => (depth, node) :: preorders (depth + 1) items
  | node => [(depth, node)]

/-- The nodes of a list and all below them, each with its depth. -/
def preorders (depth : Nat) : List Node → List (Nat × Node)
  | [] => []
  | node :: rest => preorder depth node ++ preorders depth rest

end

end Node

end Wordstream
