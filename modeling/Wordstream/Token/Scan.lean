import Wordstream.Token.Lexeme

/-!
# Scanning

A source text becomes a list of tokens that ends with the mark of the end. Blanks and comments,
which run from a semicolon to the end of the line, are skipped. Scanning goes on behind a flaw until
so many were found that it stops.

Scanning goes in rounds. A round passes a gap and reads one lexeme, so it takes at least one
character unless it comes to the end.
-/

namespace Wordstream.Token

/-- The characters at the start of a text that are skipped: blanks, and comments up to the end of
their line. The flag says whether the text starts within a comment. -/
def skipped : (comment : Bool) → List Char → List Char
  | _, [] => []
  | true, c :: rest => if c = '\n' then c :: skipped false rest else c :: skipped true rest
  | false, c :: rest =>
    if Text.isBlank c then c :: skipped false rest
    else if c = ';' then c :: skipped true rest
    else []

/-- The diagnostics of a lexeme that starts at a position. -/
def report (source : SourceText) (start : Position) (lexeme : List Char) (flaws : List Flaw)
    (found : Diagnostics) : Diagnostics :=
  flaws.foldl (fun found flaw =>
    let span := Span.upTo (start.after (lexeme.take flaw.first))
      (start.after (lexeme.take flaw.behind))
    found.push (Diagnostic.ofProblem source flaw.problem span)) found

/-- The mark of the end at a position. -/
def endAt (here : Position) : Token := ⟨.endOfText, Span.point here⟩

/-- Where scanning stands: what is left of the text, the place where that starts, and what was found
wrong so far. -/
structure Scanner where
  rest : List Char
  here : Position
  found : Diagnostics

/-- What a round of scanning comes to: the end, a token, or a lexeme that gave no token. -/
inductive Round where
  | ended
  | token (token : Token)
  | nothing

namespace Scanner

/-- The scanner behind the blanks and comments that come next. -/
def skip (s : Scanner) : Scanner :=
  let gap := skipped false s.rest
  { s with rest := s.rest.drop gap.length, here := s.here.after gap }

/-- One round of scanning: what is skipped, and then one lexeme unless too much is wrong already. -/
def round (source : SourceText) (s : Scanner) : Round × Scanner :=
  if s.found.full then (.ended, s.skip)
  else
    match s.skip.rest with
    | [] => (.ended, s.skip)
    | c :: rest =>
      let start := s.skip.here
      let lexeme := Lexeme.read c rest
      let behind := start.after (c :: lexeme.tail)
      let found := report source start (c :: lexeme.tail) lexeme.flaws s.found
      let next : Scanner := ⟨rest.drop lexeme.tail.length, behind, found⟩
      match lexeme.token with
      | none => (.nothing, next)
      | some kind => (.token ⟨kind, Span.upTo start behind⟩, next)

/-- A round that does not come to the end takes at least one character. -/
theorem length_round (source : SourceText) (s : Scanner) (goes : (s.round source).1 ≠ .ended) :
    (s.round source).2.rest.length < s.rest.length := by
  cases full : s.found.full with
  | true => simp [round, full] at goes
  | false =>
    cases left : s.skip.rest with
    | nil => simp [round, full, left] at goes
    | cons c rest =>
      have length_eq := congrArg List.length left
      simp only [skip, List.length_drop, List.length_cons] at length_eq
      simp only [round, full, left]
      cases (Lexeme.read c rest).token <;> simp [List.length_drop] <;> omega

/-- The next token, which may be the mark of the end, and the scanner behind it. A lexeme that
gives no token is passed over. -/
def next (source : SourceText) (s : Scanner) : Token × Scanner :=
  match _round : s.round source with
  | (.ended, behind) => (endAt behind.here, behind)
  | (.token token, behind) => (token, behind)
  | (.nothing, behind) => next source behind
termination_by s.rest.length
decreasing_by
  have shorter := length_round source s
  rw [_round] at shorter
  exact shorter (by simp)

/-- A token other than the mark of the end takes at least one character. -/
theorem length_next (source : SourceText) (s : Scanner)
    (goes : (s.next source).1.kind.isEnd = false) :
    (s.next source).2.rest.length < s.rest.length := by
  fun_induction next source s with
  | case1 s behind round => cases goes
  | case2 s token behind round =>
    have shorter := length_round source s
    rw [round] at shorter
    exact shorter (by simp)
  | case3 s behind round ih =>
    have shorter := length_round source s
    rw [round] at shorter
    exact Nat.lt_trans (ih goes) (shorter (by simp))

/-- All tokens that are left, up to the mark of the end. It is set at once when too much was found
wrong. -/
def tokens (source : SourceText) (s : Scanner) : List Token × Diagnostics :=
  if s.found.full then ([endAt s.here], s.found)
  else
    match _next : s.next source with
    | (token, behind) =>
      if _goes : token.kind.isEnd then ([token], behind.found)
      else
        let (more, found) := tokens source behind
        (token :: more, found)
termination_by s.rest.length
decreasing_by
  have shorter := length_next source s
  rw [_next] at shorter
  exact shorter (Bool.eq_false_iff.2 _goes)

end Scanner

/-- The tokens of a source text, the mark of the end last, and what is wrong with it. -/
def scan (source : SourceText) : List Token × Diagnostics :=
  Scanner.tokens source ⟨source.chars, Position.start, Diagnostics.empty⟩

end Wordstream.Token
