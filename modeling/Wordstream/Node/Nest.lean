import Wordstream.Node.Basic
import Wordstream.Source.Diagnostic
import Wordstream.Token.Scan

/-!
# Nesting tokens

A list of tokens becomes a forest of nodes. A sequence of items is read up to the bracket that
closes it, and a group within it is read as a sequence of its own. A closing bracket of the wrong
kind, a group nested too deep and a path with an empty segment are reported and left out; a group
that is never closed is reported and ends with the text.
-/

namespace Wordstream.Node

/-- How deep groups may be nested. -/
def maxDepth : Nat := 64

/-- The characters that divide a path. -/
def isSeparator (c : Char) : Bool := c = '/' || c = '.'

/-- A text cut at each separator. -/
def segments : List Char → List (List Char)
  | [] => [[]]
  | c :: rest =>
    if isSeparator c then [] :: segments rest
    else
      match segments rest with
      | [] => [[c]]
      | segment :: more => (c :: segment) :: more

/-- A word is a path when it has a separator behind its first character. -/
def isPath (symbol : String) : Bool := (symbol.toList.drop 1).any isSeparator

/-- The node of a word: a path is cut into its segments, none of which may be empty. -/
def ofWord (kind : WordKind) (symbol : String) (span : Span) : Except Problem Node :=
  if isPath symbol then
    let parts := segments symbol.toList
    if parts.any List.isEmpty then .error (.emptySegment symbol)
    else .ok (.path kind (parts.map String.ofList) span)
  else .ok (.word kind symbol span)

/-- What a token is in a sequence: a bracket, the mark of the end, or an item. A path with an empty
segment is an item that stands for no node. -/
inductive Role where
  | opening (bracket : Bracket)
  | closing (bracket : Bracket)
  | ended
  | item (node : Except Problem Node)

/-- What a token is in a sequence. -/
def role (token : Token) : Role :=
  match token.kind with
  | .opening bracket => .opening bracket
  | .closing bracket => .closing bracket
  | .endOfText => .ended
  | .number value => .item (.ok (.number value token.span))
  | .text value => .item (.ok (.text value token.span))
  | .refinement name => .item (.ok (.refinement name token.span))
  | .word kind symbol => .item (ofWord kind symbol token.span)

/-- The tokens behind a group in which `opened` brackets are open. The mark of the end ends the
group, and what comes behind the mark is left. -/
def behindGroup : (opened : Nat) → List Token → List Token
  | _, [] => []
  | opened, token :: rest =>
    match role token with
    | .opening _ => behindGroup (opened + 1) rest
    | .closing _ => if opened ≤ 1 then rest else behindGroup (opened - 1) rest
    | .ended => rest
    | .item _ => behindGroup opened rest

theorem length_behindGroup (opened : Nat) (tokens : List Token) :
    (behindGroup opened tokens).length ≤ tokens.length := by
  fun_induction behindGroup opened tokens with
  | case1 => exact Nat.le_refl _
  | case2 | case4 | case6 => exact Nat.le_succ_of_le ‹_›
  | case3 | case5 => exact Nat.le_succ _

/-- Where a parser stands: the tokens that are left, how many groups are open, and what was found
wrong so far. -/
structure Parser where
  rest : List Token
  depth : Nat
  found : Diagnostics

/-- What reading a sequence gives: its nodes, where it was closed, and the parser behind it. -/
structure Parsed where
  nodes : List Node
  close : Span
  behind : Parser

namespace Parser

/-- Report a problem at a span. -/
def report (source : SourceText) (p : Parser) (problem : Problem) (span : Span) : Parser :=
  { p with found := p.found.push (Diagnostic.ofProblem source problem span) }

/-- Report that the bracket which closes a sequence is missing, if the sequence has one. -/
def reportMissing (source : SourceText) (p : Parser) (closer : Option Bracket) (opened : Span) :
    Parser :=
  match closer with
  | some bracket => p.report source (.missingClose bracket.closing) opened
  | none => p

@[simp]
theorem rest_reportMissing (source : SourceText) (p : Parser) (closer : Option Bracket)
    (opened : Span) : (p.reportMissing source closer opened).rest = p.rest := by
  cases closer <;> rfl

/-- Read a sequence up to the bracket that closes it, or to the end of the text, which stands at
`last` if no token says so. The sequence was opened at `opened`, and `items` are the nodes read so
far, the last first. When too much is wrong already, it ends where it was opened. -/
def sequence (source : SourceText) (last : Span) (closer : Option Bracket) (opened : Span)
    (items : List Node) (p : Parser) :
    { r : Parsed // r.behind.rest.length ≤ p.rest.length } :=
  if p.found.full then ⟨⟨items.reverse, opened, p⟩, Nat.le_refl _⟩
  else
    match p with
    | ⟨[], depth, found⟩ =>
      ⟨⟨items.reverse, last, reportMissing source ⟨[], depth, found⟩ closer opened⟩, by simp⟩
    | ⟨token :: rest, depth, found⟩ =>
      match role token with
      | .ended =>
        ⟨⟨items.reverse, token.span,
          reportMissing source ⟨token :: rest, depth, found⟩ closer opened⟩, by simp⟩
      | .closing bracket =>
        if closer = some bracket then
          ⟨⟨items.reverse, token.span, ⟨rest, depth, found⟩⟩, Nat.le_succ _⟩
        else
          let more := sequence source last closer opened items
            (report source ⟨rest, depth, found⟩ (.unexpectedClose bracket.closing) token.span)
          ⟨more.1, Nat.le_succ_of_le more.2⟩
      | .opening bracket =>
        if maxDepth ≤ depth then
          -- The group is left out with all that is in it; counting brackets finds its end.
          let more := sequence source last closer opened items
            (report source ⟨behindGroup 1 rest, depth, found⟩ (.nestedTooDeep maxDepth) token.span)
          ⟨more.1, Nat.le_succ_of_le (Nat.le_trans more.2 (length_behindGroup 1 rest))⟩
        else
          let inside := sequence source last (some bracket) token.span [] ⟨rest, depth + 1, found⟩
          let node := Node.group bracket inside.1.nodes (token.span.merge inside.1.close)
          let more := sequence source last closer opened (node :: items)
            ⟨inside.1.behind.rest, inside.1.behind.depth - 1, inside.1.behind.found⟩
          ⟨more.1, Nat.le_succ_of_le (Nat.le_trans more.2 inside.2)⟩
      | .item (.ok node) =>
        let more := sequence source last closer opened (node :: items) ⟨rest, depth, found⟩
        ⟨more.1, Nat.le_succ_of_le more.2⟩
      | .item (.error problem) =>
        let more := sequence source last closer opened items
          (report source ⟨rest, depth, found⟩ problem token.span)
        ⟨more.1, Nat.le_succ_of_le more.2⟩
termination_by p.rest.length
decreasing_by
  all_goals simp only [report, List.length_cons]
  · exact Nat.lt_succ_self _
  · exact Nat.lt_succ_of_le (length_behindGroup 1 rest)
  · exact Nat.lt_succ_self _
  · exact Nat.lt_succ_of_le inside.2
  · exact Nat.lt_succ_self _
  · exact Nat.lt_succ_self _

/-- Read a list of tokens as the sequence at the top level. -/
def parse (source : SourceText) (tokens : List Token) : Parsed :=
  let last := match tokens.getLast? with
    | some token => token.span
    | none => Span.point Position.start
  sequence source last none (Span.point Position.start) [] ⟨tokens, 0, Diagnostics.empty⟩

end Parser

/-- The nodes of a token list, and what is wrong with its nesting. -/
def ofTokens (source : SourceText) (tokens : List Token) : List Node × Diagnostics :=
  let parsed := Parser.parse source tokens
  (parsed.nodes, parsed.behind.found)

/-- The nodes of a source text, or everything that is wrong with it. -/
def parse (source : SourceText) : Except Diagnostics (List Node) :=
  let (tokens, scanned) := Token.scan source
  let (nodes, nested) := ofTokens source tokens
  let found := scanned.extend nested
  if found.any then .error found else .ok nodes

end Wordstream.Node
