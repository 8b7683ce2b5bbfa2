import Wordstream.Proofs.Lines
import Wordstream.Proofs.Nesting
import Wordstream.Proofs.Progress

/-!
# Faults and where they are

A diagnostic has a place, which comes from counting lines and columns while the text is scanned,
and a line of the text, which is looked up by its number. The two agree: what is at the column, in
the line that is quoted, is the first character of what is wrong.

A diagnostic is justified when its problem is about characters that stand at its place. Scanning and
nesting store nothing else, and a place where characters stand is one that can be looked up.

## Main results

* `Position.exists_piece` — counting lines and columns is splitting the text at its line feeds
* `Token.Scanner.Accurate.round` — a round of scanning stores what is justified
* `Node.Parser.Reads.justified` — and so does reading a sequence
* `Node.parse_points` — every diagnostic of a text points at its cause
-/

namespace Wordstream

/-! ### Places in a text -/

/-- A character is, in the piece between line feeds that the line of its place says, at the column
of its place. Counting may start anywhere, and the first piece goes on from the column where it
starts. -/
theorem Position.exists_piece (here : Position) (before : List Char) {c : Char} (visible : c ≠ '\n')
    (after : List Char) :
    ∃ i piece j, ((before ++ c :: after).splitOn '\n')[i]? = some piece ∧ piece[j]? = some c ∧
      (here.after before).line = here.line + i ∧
      (here.after before).column = (if i = 0 then here.column else 1) + j := by
  induction before generalizing here with
  | nil =>
    obtain ⟨piece, more, split⟩ := List.exists_cons_of_ne_nil (List.splitOn_ne_nil '\n' after)
    exact ⟨0, c :: piece, 0, by simp [SourceText.splitOn_cons visible, split], rfl, rfl, rfl⟩
  | cons d before ih =>
    -- A line feed in front makes one more piece; any other character makes the first one longer.
    obtain ⟨i, piece, j, found, char, line, column⟩ := ih (here.advance d)
    by_cases feed : d = '\n'
    · subst feed
      refine ⟨i + 1, piece, j, by simpa [SourceText.splitOn_lineFeed] using found, char, ?_, ?_⟩
      · simpa [advance, Nat.add_assoc, Nat.add_comm 1] using line
      · simpa [advance] using column
    · have split := SourceText.splitOn_cons feed (before ++ c :: after)
      cases i with
      | zero =>
        refine ⟨0, d :: piece, j + 1, by simp [split, found], char, ?_, ?_⟩
        · simpa [advance, feed] using line
        · simpa [advance, feed, Nat.add_assoc, Nat.add_comm 1] using column
      | succ i =>
        refine ⟨i + 1, piece, j, by simpa [split] using found, char, ?_, ?_⟩
        · simpa [advance, feed] using line
        · simpa using column

/-- Characters stand at a place of a text. -/
def SourceText.Shows (source : SourceText) (place : Position) (stretch : List Char) : Prop :=
  ∃ before after, source.chars = before ++ stretch ++ after ∧ place = Position.start.after before

/-- What is within characters stands behind those in front of it. -/
theorem SourceText.Shows.within {source : SourceText} {place : Position}
    {before stretch after : List Char} (shows : source.Shows place (before ++ stretch ++ after)) :
    source.Shows (place.after before) stretch := by
  obtain ⟨front, rear, split, rfl⟩ := shows
  exact ⟨front ++ before, after ++ rear, by simp [split], (Position.after_append _ _ _).symm⟩

/-- Trimming leaves every character but carriage returns where it is. -/
theorem SourceText.getElem?_trimEnd {piece : List Char} {j : Nat} {c : Char}
    (char : piece[j]? = some c) (visible : c ≠ '\r') : (trimEnd piece)[j]? = some c := by
  obtain ⟨⟨returns, split⟩, -⟩ := exists_trimEnd piece
  rw [split, List.getElem?_append] at char
  split at char
  · exact char
  · obtain rfl := List.eq_of_mem_replicate (List.mem_of_getElem? char)
    exact absurd rfl visible

/-! ### What diagnostics point at -/

/-- The characters that what is wrong can start with, for each code. -/
def Problem.opens (code : Nat) (c : Char) : Bool :=
  match code with
  | 101 | 107 => c = '[' || c = '('
  | 102 => c = '"'
  | 103 => c = ']' || c = ')'
  | 104 => c = '\'' || c = ':' || Lexeme.isSymbolChar c
  | 105 => c = '\\'
  | 106 => c.isDigit || c = '-'
  | _ => false

/-- What a problem is about starts with a character that its code allows. -/
theorem Problem.Concerns.exists_opens {problem : Problem} {stretch : List Char}
    (about : problem.Concerns stretch) :
    ∃ c tail, stretch = c :: tail ∧ Problem.opens problem.code c := by
  cases about with
  | missingClose bracket | nestedTooDeep bracket =>
    cases bracket <;> exact ⟨_, [], rfl, rfl⟩
  | unexpectedClose bracket => cases bracket <;> exact ⟨_, [], rfl, rfl⟩
  | unterminatedText body => exact ⟨_, body, rfl, rfl⟩
  | emptySymbol known => exact ⟨_, [], rfl, by rcases known with rfl | rfl <;> rfl⟩
  | @emptySegment kind c rest symbol =>
    cases kind with
    | plain => exact ⟨c, rest, by simp [WordKind.decorate], by simp [Problem.opens, code, symbol]⟩
    | get => exact ⟨':', c :: rest, by simp [WordKind.decorate], rfl⟩
    | set =>
      exact ⟨c, rest ++ [':'], by simp [WordKind.decorate], by simp [Problem.opens, code, symbol]⟩
    | quote => exact ⟨'\'', c :: rest, by simp [WordKind.decorate], rfl⟩
  | invalidEscape c => exact ⟨_, [c], rfl, rfl⟩
  | @malformedNumber c rest number =>
    exact ⟨c, rest, rfl, by rcases number with digit | rfl <;> simp [Problem.opens, code, *]⟩

/-- Nothing that is wrong starts with a line feed or a carriage return. -/
theorem Problem.visible_of_opens {code : Nat} {c : Char} (opens : Problem.opens code c) :
    c ≠ '\n' ∧ c ≠ '\r' := by
  unfold Problem.opens at opens
  constructor <;> rintro rfl <;> split at opens <;> revert opens <;> decide

namespace Diagnostic

/-- What a diagnostic is about stands at its place. -/
def Justified (source : SourceText) (d : Diagnostic) : Prop :=
  ∃ problem stretch, d = ofProblem source problem d.span ∧ problem.Concerns stretch ∧
    source.Shows d.span.first stretch

/-- A diagnostic points at a character. It quotes the line on which its span starts, less the
carriage returns at the end, and the character is at the column in the quoted line. -/
structure PointsAt (source : SourceText) (d : Diagnostic) (c : Char) : Prop where
  line_pos : 1 ≤ d.span.first.line
  line : ∃ returns, (source.chars.splitOn '\n')[d.span.first.line - 1]? =
    some (d.sourceLine.toList ++ List.replicate returns '\r')
  trimmed : d.sourceLine.toList.getLast? ≠ some '\r'
  column_pos : 1 ≤ d.span.first.column
  column_le : d.span.first.column ≤ d.sourceLine.length
  char : d.sourceLine.toList[d.span.first.column - 1]? = some c

/-- A diagnostic at a place where characters stand points at the first of them. -/
theorem pointsAt_of_shows {source : SourceText} {problem : Problem} {span : Span} {c : Char}
    {tail : List Char} (shows : source.Shows span.first (c :: tail))
    (visible : c ≠ '\n' ∧ c ≠ '\r') : (ofProblem source problem span).PointsAt source c := by
  obtain ⟨before, after, split, place⟩ := shows
  obtain ⟨i, piece, j, found, char, line, column⟩ :=
    Position.start.exists_piece before visible.1 (tail ++ after)
  rw [← List.cons_append, ← List.append_assoc, ← split] at found
  -- The line that was counted is the number of the piece, so looking it up gives this piece.
  rw [← place] at line column
  simp only [Position.start, ite_self] at line column
  have number : span.first.line - 1 = i := by omega
  have counted : 0 < span.first.line := by omega
  rw [← number] at found
  obtain ⟨⟨returns, whole⟩, trimmed⟩ := SourceText.exists_trimEnd piece
  have quoted : (ofProblem source problem span).sourceLine =
      String.ofList (SourceText.trimEnd piece) := by
    simp [ofProblem, SourceText.line?_of_piece counted found]
  have kept := SourceText.getElem?_trimEnd char visible.2
  have within := (List.getElem?_eq_some_iff.1 kept).1
  have index : span.first.column - 1 = j := by omega
  refine ⟨counted, ⟨returns, ?_⟩, ?_, ?_, ?_, ?_⟩
  · rw [quoted, String.toList_ofList, ← whole]
    exact found
  · rwa [quoted, String.toList_ofList]
  · exact column ▸ Nat.le_add_right 1 j
  · rw [quoted, String.length_ofList]
    exact column ▸ Nat.add_comm j 1 ▸ within
  · rw [quoted, String.toList_ofList]
    exact index ▸ kept

end Diagnostic

/-! ### Scanning -/

namespace Token

/-- A token is written at the place of its span, unless it is the mark of the end. -/
def Shown (source : SourceText) (token : Token) : Prop :=
  token.kind ≠ .endOfText → ∃ lexeme, source.Shows token.span.first lexeme ∧
    token.kind.Written lexeme

/-- A scanner that knows where in the text it stands, and has stored what is justified. -/
structure Scanner.Accurate (source : SourceText) (s : Scanner) : Prop where
  place : ∃ passed, source.chars = passed ++ s.rest ∧ s.here = Position.start.after passed
  stored : ∀ d ∈ s.found.stored, d.Justified source
  kept : s.found.Kept

namespace Scanner

variable {source : SourceText} {s : Scanner} (accurate : s.Accurate source)
include accurate

/-- In a text that thirty-two bits can count, a scanner comes to no line or column beyond them. -/
theorem Accurate.fits (short : source.chars.length + 1 < UInt32.size) :
    s.here.line < UInt32.size ∧ s.here.column < UInt32.size := by
  obtain ⟨passed, split, here⟩ := accurate.place
  obtain ⟨line, column⟩ := Position.start.after_le passed
  have part : passed.length ≤ source.chars.length := by
    rw [split, List.length_append]
    exact Nat.le_add_right _ _
  rw [← here] at line column
  change _ ≤ 1 + _ at line column
  omega

/-- The lexeme behind a gap stands where the gap ends. -/
theorem Accurate.shows {gap tail rest : List Char} {c : Char} (passes : s.Passes gap c tail rest) :
    source.Shows (s.here.after gap) (c :: tail) := by
  obtain ⟨passed, split, here⟩ := accurate.place
  refine ⟨passed ++ gap, rest, by simp [split, passes.split], ?_⟩
  rw [here, Position.after_append]

/-- A round of scanning stores what is justified. -/
theorem Accurate.round : (s.round source).2.Accurate source := by
  obtain ⟨passed, split, here⟩ := accurate.place
  rcases s.round_cases source with ⟨-, round⟩ | ⟨gap, c, tail, rest, passes, -, round⟩
  · -- The round ends behind the gap, and nothing is reported.
    rw [round]
    have front := List.prefix_iff_eq_append.1 (skipped_isPrefix false s.rest)
    refine ⟨⟨passed ++ skipped false s.rest, ?_, ?_⟩, accurate.stored, accurate.kept⟩
    · rw [split, List.append_assoc]
      exact congrArg _ front.symm
    · rw [Position.after_append, ← here]
      rfl
  · rw [round]
    refine ⟨⟨passed ++ gap ++ c :: tail, ?_, ?_⟩, fun d mem => ?_, ?_⟩
    · simp [split, passes.split, behind]
    · simp [behind, here, Position.after_append]
    · rcases mem_stored_report mem with earlier | ⟨flaw, among, rfl⟩
      · exact accurate.stored d earlier
      · -- The flaw is about a stretch of the lexeme, and the lexeme stands behind the gap.
        obtain ⟨notBlank, notComment⟩ := start_of_skip passes.skip_rest
        obtain ⟨before, stretch, after, lexeme, first, about⟩ :=
          Lexeme.concerns_of_mem_flaws notBlank notComment among
        rw [passes.lexeme] at lexeme
        refine ⟨flaw.problem, stretch, rfl, about, ?_⟩
        have shown := (lexeme ▸ accurate.shows passes).within
        simpa [Diagnostic.ofProblem, Span.upTo, ← first, lexeme] using shown
    · dsimp only [behind]
      rw [report_eq]
      exact accurate.kept.foldl_push _

/-- The tokens that rounds make are written where they stand. -/
theorem Accurate.shown {token : Token} (made : (s.round source).1 = .token token) :
    token.Shown source := by
  intro _
  rcases s.round_cases source with ⟨-, round⟩ | ⟨gap, c, tail, rest, passes, -, round⟩
  · rw [round] at made
    cases made
  · rw [round] at made
    unfold outcome at made
    split at made
    · cases made
    · rename_i kind read
      cases made
      refine ⟨c :: tail, accurate.shows passes, ?_⟩
      have written := Lexeme.written_of_token read
      rwa [passes.lexeme] at written

end Scanner

/-- Scanning stores what is justified, and its tokens are written where they stand. -/
theorem scan_justified (source : SourceText) :
    (∀ token ∈ (scan source).1, token.Shown source) ∧
      (∀ d ∈ (scan source).2.stored, d.Justified source) ∧ (scan source).2.Kept := by
  have start : Scanner.Accurate source ⟨source.chars, Position.start, .empty⟩ :=
    ⟨⟨[], rfl, rfl⟩, by simp [Diagnostics.empty], rfl⟩
  obtain ⟨lexed, mark, last, result, accurate, ends, all, -⟩ :=
    Scanner.tokens_induction (fun _ => Scanner.Accurate.round)
      (fun _ _ accurate => accurate.shown) start
  have scanned : scan source = (lexed ++ [mark], last.found) := result
  rw [scanned]
  refine ⟨?_, accurate.stored, accurate.kept⟩
  intro token mem
  rcases List.mem_append.1 mem with among | isMark
  · exact (all token among).2
  · rw [List.mem_singleton.1 isMark]
    exact fun notEnd => absurd ends notEnd

end Token

/-! ### Nesting -/

namespace Node

section Shown

variable {source : SourceText} {token : Token} (shown : token.Shown source)
include shown

theorem shows_of_opening {bracket : Bracket} (opens : role token = .opening bracket) :
    source.Shows token.span.first bracket.opening.toList := by
  obtain ⟨kind, span⟩ := token
  obtain rfl := role_eq_opening_iff.1 opens
  obtain ⟨lexeme, shows, rfl⟩ := shown (by simp)
  exact shows

theorem shows_of_closing {bracket : Bracket} (closes : role token = .closing bracket) :
    source.Shows token.span.first bracket.closing.toList := by
  obtain ⟨kind, span⟩ := token
  obtain rfl := role_eq_closing_iff.1 closes
  obtain ⟨lexeme, shows, rfl⟩ := shown (by simp)
  exact shows

/-- What is wrong with an item that stands for no node is the token as a whole. -/
theorem concerns_of_item {problem : Problem} (fails : role token = .item (.error problem)) :
    ∃ lexeme, problem.Concerns lexeme ∧ source.Shows token.span.first lexeme := by
  obtain ⟨tokenKind, span⟩ := token
  obtain ⟨kind, symbol, rfl, rfl⟩ := eq_emptySegment_of_role fails
  obtain ⟨lexeme, shows, rfl, c, rest, rfl, first⟩ := shown (by simp)
  exact ⟨_, .emptySegment kind first, shows⟩

end Shown

namespace Parser

variable {source : SourceText} {last : Span}

/-- To report a problem that is about what stands at a place is to store what is justified. -/
theorem justified_report {p : Parser} (stored : ∀ d ∈ p.found.stored, d.Justified source)
    {problem : Problem} {span : Span} {stretch : List Char} (about : problem.Concerns stretch)
    (shows : source.Shows span.first stretch) :
    ∀ d ∈ (p.report source problem span).found.stored, d.Justified source := by
  intro d mem
  rcases Diagnostics.mem_stored_push mem with earlier | rfl
  · exact stored d earlier
  · exact ⟨problem, stretch, rfl, about, shows⟩

/-- Reading a sequence stores what is justified, if its tokens are written where they stand, and the
bracket that opened it is written where it was opened. -/
theorem Reads.justified {closer : Option Bracket} {opened : Span} {items : List Node} {p : Parser}
    {r : Parsed} (reads : Reads source last closer opened items p r)
    (shown : ∀ token ∈ p.rest, token.Shown source)
    (opening : ∀ bracket ∈ closer, source.Shows opened.first bracket.opening.toList)
    (stored : ∀ d ∈ p.found.stored, d.Justified source) :
    ∀ d ∈ r.behind.found.stored, d.Justified source := by
  induction reads with
  | full | closed => exact stored
  | @ended closer opened items p place room atEnd =>
    cases closer with
    | none => exact stored
    | some bracket => exact justified_report stored (.missingClose bracket) (opening bracket rfl)
  | stray _ closes _ _ ih =>
    obtain ⟨here, behind⟩ := List.forall_mem_cons.1 shown
    exact ih behind opening
      (justified_report stored (.unexpectedClose _) (shows_of_closing here closes))
  | deep _ opens _ _ ih =>
    obtain ⟨here, behind⟩ := List.forall_mem_cons.1 shown
    exact ih (fun token mem => behind token ((behindGroup_isSuffix _ _).mem mem)) opening
      (justified_report stored (.nestedTooDeep _ _) (shows_of_opening here opens))
  | group _ opens _ inner _ innerIh furtherIh =>
    obtain ⟨here, behind⟩ := List.forall_mem_cons.1 shown
    -- If the group is not closed, its own opening bracket is what is reported.
    have inside := innerIh behind (by simpa using shows_of_opening here opens) stored
    exact furtherIh (fun token mem => behind token (inner.isSuffix.mem mem)) opening inside
  | item _ _ _ ih => exact ih (List.forall_mem_cons.1 shown).2 opening stored
  | flawed _ fails _ ih =>
    obtain ⟨here, behind⟩ := List.forall_mem_cons.1 shown
    obtain ⟨lexeme, about, shows⟩ := concerns_of_item here fails
    exact ih behind opening (justified_report stored about shows)

end Parser

/-- Nesting the tokens of a text stores what is justified. -/
theorem ofTokens_justified {source : SourceText} {tokens : List Token}
    (shown : ∀ token ∈ tokens, token.Shown source) :
    (∀ d ∈ (ofTokens source tokens).2.stored, d.Justified source) ∧
      (ofTokens source tokens).2.Kept := by
  obtain ⟨last, reads⟩ : ∃ last, Parser.Reads source last none (Span.point Position.start) []
      ⟨tokens, 0, .empty⟩ (Parser.parse source tokens) := ⟨_, Parser.reads_sequence ..⟩
  have complete := reads.complete ⟨rfl, Nat.zero_le _⟩
  refine ⟨reads.justified shown (by simp) (by simp [Diagnostics.empty]), ?_⟩
  exact complete.stored.trans (Nat.min_eq_left complete.few).symm

/-- Every diagnostic of a text points at its cause. When a text cannot be read, there are
diagnostics, and all of them are stored as long as there is room. For each there is a problem, of
which it has the code and the wording, and the characters that the problem is about stand in the
text where its span starts. It quotes the line on which they start, and at its column in that
line, which is one of the line, is the first of them. Which characters these can be depends on the
code. -/
theorem parse_points (source : SourceText) (found : Diagnostics)
    (fails : parse source = .error found) :
    found.stored ≠ [] ∧ found.stored.length = min found.total 20 ∧
      ∀ d ∈ found.stored, ∃ problem before c tail after,
        d = Diagnostic.ofProblem source problem d.span ∧ problem.Concerns (c :: tail) ∧
        source.chars = before ++ c :: tail ++ after ∧
        d.span.first = Position.start.after before ∧
        d.PointsAt source c ∧ Problem.opens d.code c := by
  obtain ⟨shown, scanned, scanKept⟩ := Token.scan_justified source
  obtain ⟨nested, nestKept⟩ := ofTokens_justified shown
  obtain ⟨rfl, wrong⟩ : (Token.scan source).2.extend (ofTokens source (Token.scan source).1).2 =
      found ∧ found.any := by
    unfold parse at fails
    dsimp only at fails
    split at fails
    · cases fails
      exact ⟨rfl, ‹_›⟩
    · cases fails
  have kept := scanKept.extend nestKept
  refine ⟨?_, kept, fun d mem => ?_⟩
  · -- Something was found, and the first of what was found is always kept.
    intro empty
    have total : 0 < _ := of_decide_eq_true wrong
    simp only [Diagnostics.Kept, empty, Diagnostics.capacity, List.length_nil] at kept
    omega
  · obtain ⟨problem, stretch, same, about, shows⟩ :=
      (Diagnostics.mem_stored_extend mem).elim (scanned d) (nested d)
    obtain ⟨c, tail, rfl, opens⟩ := about.exists_opens
    have points :=
      @Diagnostic.pointsAt_of_shows _ problem _ _ _ shows (Problem.visible_of_opens opens)
    rw [← same] at points
    obtain ⟨before, after, split, place⟩ := shows
    refine ⟨problem, before, c, tail, after, same, about, split, place, points, ?_⟩
    rw [same]
    exact opens

/-- A text with a fault for all but one of the codes, on lines that end with carriage returns or
within a quoted text, and behind characters of several bytes. -/
def garbled : SourceText := .ofString "garbled" "é [1x\r\n \"ä\\q\n𝄞\" a//b: ) '\r\n\"zß"

theorem parse_points_of_garbled :
    ∃ found, parse garbled = .error found ∧
      (found.stored.map fun d => (d.code, d.span.first, d.sourceLine)) =
        [(106, ⟨1, 4⟩, "é [1x"), (105, ⟨2, 4⟩, " \"ä\\q"), (104, ⟨3, 12⟩, "𝄞\" a//b: ) '"),
          (102, ⟨4, 1⟩, "\"zß"), (104, ⟨3, 4⟩, "𝄞\" a//b: ) '"), (103, ⟨3, 10⟩, "𝄞\" a//b: ) '"),
          (101, ⟨1, 3⟩, "é [1x")] ∧
      ∀ d ∈ found.stored, ∃ c, d.PointsAt garbled c ∧ Problem.opens d.code c := by
  have fails : parse garbled = .error ((Token.scan garbled).2.extend
      (ofTokens garbled (Token.scan garbled).1).2) := by
    have wrong : ((Token.scan garbled).2.extend
      (ofTokens garbled (Token.scan garbled).1).2).any = true := by decide +kernel
    simp [parse, wrong]
  refine ⟨_, fails, by decide +kernel, fun d mem => ?_⟩
  obtain ⟨-, -, points⟩ := parse_points garbled _ fails
  obtain ⟨_, _, c, _, _, _, _, _, _, point, opens⟩ := points d mem
  exact ⟨c, point, opens⟩

end Node

end Wordstream
