import Wordstream.Source.Line
import Wordstream.Source.Span

/-!
# Diagnostics

What is wrong with a source text. Each problem has a code and a wording. A collection of diagnostics
keeps the first twenty and counts them all.
-/

namespace Wordstream

/-- The ways in which a source text can be wrong. -/
inductive Problem where
  | unexpectedCharacter (c : Char)
  | missingClose (bracket : String)
  | unterminatedText
  | unexpectedClose (bracket : String)
  | emptySymbol
  | emptySegment (path : String)
  | invalidEscape (c : Char)
  | malformedNumber (numeral : String)
  | nestedTooDeep (limit : Nat)
  deriving DecidableEq, Repr

namespace Problem

/-- The number by which a kind of problem is known. -/
def code : Problem → Nat
  | unexpectedCharacter _ => 100
  | missingClose _ => 101
  | unterminatedText => 102
  | unexpectedClose _ => 103
  | emptySymbol => 104
  | emptySegment _ => 104
  | invalidEscape _ => 105
  | malformedNumber _ => 106
  | nestedTooDeep _ => 107

/-- The wording of a problem. -/
def message : Problem → String
  | unexpectedCharacter c => s!"unexpected character '{c}'"
  | missingClose bracket => s!"missing '{bracket}' for bracket opened here"
  | unterminatedText => "unterminated string literal"
  | unexpectedClose bracket => s!"unexpected '{bracket}'"
  | emptySymbol => "expected a symbol after sigil"
  | emptySegment path => s!"empty segment in path '{path}'"
  | invalidEscape c => s!"invalid escape sequence '\\{c}'"
  | malformedNumber numeral => s!"malformed number '{numeral}'"
  | nestedTooDeep limit => s!"nesting deeper than {limit} levels"

end Problem

/-- A problem at a place of a text, with the line it stands on. -/
structure Diagnostic where
  file : String
  code : Nat
  message : String
  span : Span
  sourceLine : String
  deriving DecidableEq, Repr

namespace Diagnostic

/-- The diagnostic of a problem at a span of a source text. -/
def ofProblem (source : SourceText) (problem : Problem) (span : Span) : Diagnostic :=
  ⟨source.name, problem.code, problem.message, span, (source.line? span.first.line).getD ""⟩

/-- The short form of a code. -/
def codeText (code : Nat) : String := s!"E{code}"

/-- A diagnostic on one line: file, place, code and wording. -/
def text (d : Diagnostic) : String := s!"{d.file}:{d.span.text}: {codeText d.code} {d.message}"

end Diagnostic

/-- Diagnostics in the order in which they were found: the first ones, and the number of all. -/
structure Diagnostics where
  stored : List Diagnostic
  total : Nat
  deriving DecidableEq, Repr

namespace Diagnostics

/-- How many diagnostics are kept. -/
def capacity : Nat := 20

/-- No diagnostics. -/
def empty : Diagnostics := ⟨[], 0⟩

/-- Whether anything was found. -/
def any (found : Diagnostics) : Bool := 0 < found.total

/-- Whether so many were found that reading stops. -/
def full (found : Diagnostics) : Bool := capacity ≤ found.total

/-- Reading goes on as long as nothing was found. -/
theorem full_eq_false_of_total {found : Diagnostics} (none : found.total = 0) :
    found.full = false := by
  simp [full, none, capacity]

/-- Add a diagnostic: it is counted, and kept while there is room. -/
def push (found : Diagnostics) (d : Diagnostic) : Diagnostics :=
  ⟨if found.stored.length < capacity then found.stored ++ [d] else found.stored, found.total + 1⟩

/-- Every diagnostic that is added is counted. -/
theorem total_foldl_push (found : Diagnostics) (more : List Diagnostic) :
    (more.foldl push found).total = found.total + more.length := by
  induction more generalizing found with
  | nil => rfl
  | cons d more ih =>
    rw [List.foldl_cons, ih, List.length_cons, push]
    dsimp only
    omega

/-- Add a later collection, those it only counted included. -/
def extend (found later : Diagnostics) : Diagnostics :=
  let all := later.stored.foldl push found
  ⟨all.stored, all.total + (later.total - later.stored.length)⟩

/-- How many diagnostics there are, and the first of them. -/
def text (found : Diagnostics) : String :=
  let first := match found.stored.head? with
    | some d => s!", first: {d.text}"
    | none => ""
  s!"{found.total} syntax error(s){first}"

end Diagnostics

end Wordstream
