import Mathlib.Data.List.Basic
import Wordstream.Proofs.Lexing
import Wordstream.Token.Scan

/-!
# Scanning loses nothing

A text that scans without errors is cut into gaps and lexemes. Each token stands for one lexeme,
from the place of its first character to that of its last, and scans the same on its own. The gaps
hold blanks and comments only.

## Main results

* `Token.scan_clean_iff` — scanning without errors is cutting into gaps and lexemes
* `Token.scan_faithful` — the tokens and their spans account for the whole text
-/

namespace Wordstream

/-! ### Reading order -/

namespace Position

theorem before_iff {a b : Position} :
    a.before b ↔ a.line < b.line ∨ a.line = b.line ∧ a.column < b.column := by
  simp [before]

theorem before_irrefl (a : Position) : ¬ a.before a := by
  simp [before_iff]

theorem before_trans {a b c : Position} (ab : a.before b) (bc : b.before c) : a.before c := by
  rw [before_iff] at *
  omega

theorem before_of_before_of_not_before {a b c : Position} (ab : a.before b) (cb : ¬ c.before b) :
    a.before c := by
  rw [before_iff] at *
  omega

theorem before_advance (here : Position) (c : Char) : here.before (here.advance c) := by
  rw [before_iff]
  unfold advance
  split <;> simp

/-- Every text moves on. -/
theorem before_after (here : Position) {cs : List Char} (some : cs ≠ []) :
    here.before (here.after cs) := by
  induction cs generalizing here with
  | nil => exact absurd rfl some
  | cons c rest ih =>
    cases rest with
    | nil => exact before_advance here c
    | cons d rest => exact before_trans (before_advance here c) (ih _ (List.cons_ne_nil d rest))

theorem not_after_before (here : Position) (cs : List Char) : ¬ (here.after cs).before here := by
  cases cs with
  | nil => exact before_irrefl here
  | cons c rest =>
    exact fun back => before_irrefl here
      (before_trans (before_after here (List.cons_ne_nil c rest)) back)

/-- Columns are counted from one. -/
theorem column_pos_after {here : Position} (pos : 0 < here.column) (cs : List Char) :
    0 < (here.after cs).column := by
  induction cs generalizing here with
  | nil => exact pos
  | cons c rest ih =>
    refine ih ?_
    unfold advance
    split <;> simp

/-- Behind anything but a line feed, the column to the left is where one came from. -/
theorem left_advance {here : Position} (pos : 0 < here.column) {c : Char} (line : c ≠ '\n') :
    (here.advance c).left = here := by
  have column : max here.column 1 = here.column := max_eq_left pos
  simp [advance, line, left, column]

end Position

/-! ### What a span covers -/

namespace Span

/-- Whether a place lies within a span. -/
def covers (span : Span) (place : Position) : Bool :=
  !place.before span.first && !span.last.before place

/-- The characters of a text with their places. -/
def placed (here : Position) : List Char → List (Position × Char)
  | [] => []
  | c :: rest => (here, c) :: placed (here.advance c) rest

/-- What stands in a text at the places of a span. -/
def slice (span : Span) (cs : List Char) : List Char :=
  ((placed Position.start cs).filter fun entry => span.covers entry.1).map Prod.snd

theorem placed_append (here : Position) (a b : List Char) :
    placed here (a ++ b) = placed here a ++ placed (here.after a) b := by
  induction a generalizing here with
  | nil => rfl
  | cons c rest ih => simp [placed, ih]

theorem map_snd_placed (here : Position) (cs : List Char) : (placed here cs).map Prod.snd = cs := by
  induction cs generalizing here with
  | nil => rfl
  | cons c rest ih => simp [placed, ih]

theorem mem_placed (here : Position) (before : List Char) (c : Char) (after : List Char) :
    (here.after before, c) ∈ placed here (before ++ c :: after) := by
  rw [placed_append]
  exact List.mem_append_right _ List.mem_cons_self

/-- The places of a text lie between its two ends. -/
theorem bounds_of_mem_placed {here : Position} {cs : List Char} {entry : Position × Char}
    (mem : entry ∈ placed here cs) :
    ¬ entry.1.before here ∧ entry.1.before (here.after cs) := by
  induction cs generalizing here with
  | nil => cases mem
  | cons c rest ih =>
    rcases List.mem_cons.1 mem with rfl | mem
    · exact ⟨Position.before_irrefl here, Position.before_after here (List.cons_ne_nil c rest)⟩
    · obtain ⟨lower, upper⟩ := ih mem
      refine ⟨fun back => lower ?_, upper⟩
      exact Position.before_trans back (Position.before_advance here c)

theorem covers_iff {span : Span} {place : Position} :
    span.covers place ↔ ¬ place.before span.first ∧ ¬ span.last.before place := by
  simp [covers]

/-- The span of a lexeme: from the place of its first character to that of its last. -/
theorem upTo_eq {here : Position} (pos : 0 < here.column) {lexeme : List Char}
    (nonempty : lexeme ≠ []) (last : lexeme.getLast? ≠ some '\n') :
    upTo here (here.after lexeme) = ⟨here, here.after lexeme.dropLast⟩ := by
  obtain ⟨body, c, rfl⟩ := (List.eq_nil_or_concat' lexeme).resolve_left nonempty
  have line : c ≠ '\n' := by simpa using last
  have place := Position.left_advance (Position.column_pos_after pos body) line
  simp [upTo, Position.after_append, place]

section Lexeme

variable {here : Position} (pos : 0 < here.column) {lexeme : List Char} (nonempty : lexeme ≠ [])
  (last : lexeme.getLast? ≠ some '\n')
include pos nonempty last

theorem last_upTo_before : (upTo here (here.after lexeme)).last.before (here.after lexeme) := by
  rw [upTo_eq pos nonempty last]
  conv => arg 1; arg 2; rw [← List.dropLast_append_getLast nonempty, Position.after_append]
  exact Position.before_advance _ _

/-- Every character of a lexeme lies within its span. -/
theorem covers_of_mem_placed {entry : Position × Char} (mem : entry ∈ placed here lexeme) :
    (upTo here (here.after lexeme)).covers entry.1 := by
  refine covers_iff.2 ⟨(bounds_of_mem_placed mem).1, ?_⟩
  rw [upTo_eq pos nonempty last]
  rw [← List.dropLast_append_getLast nonempty, placed_append] at mem
  rcases List.mem_append.1 mem with mem | mem
  · exact fun back => Position.before_irrefl _
      (Position.before_trans back (bounds_of_mem_placed mem).2)
  · rw [List.mem_singleton.1 mem]
    exact Position.before_irrefl _

/-- What a text has within the span of one of its lexemes is that lexeme. -/
theorem slice_placed {before after : List Char} {origin : Position}
    (origin_eq : origin.after before = here) :
    (((placed origin (before ++ lexeme ++ after)).filter fun entry =>
      (upTo here (here.after lexeme)).covers entry.1).map Prod.snd) = lexeme := by
  have front : ∀ entry ∈ placed origin before,
      ¬ (upTo here (here.after lexeme)).covers entry.1 := fun entry mem cover =>
    (covers_iff.1 cover).1 (origin_eq ▸ (bounds_of_mem_placed mem).2)
  have rear : ∀ entry ∈ placed (here.after lexeme) after,
      ¬ (upTo here (here.after lexeme)).covers entry.1 := fun entry mem cover =>
    (covers_iff.1 cover).2 (Position.before_of_before_of_not_before
      (last_upTo_before pos nonempty last) (bounds_of_mem_placed mem).1)
  have middle : ∀ entry ∈ placed here lexeme, (upTo here (here.after lexeme)).covers entry.1 :=
    fun entry mem => covers_of_mem_placed pos nonempty last mem
  rw [placed_append, placed_append, origin_eq, Position.after_append, origin_eq,
    List.filter_append, List.filter_append, List.filter_eq_nil_iff.2 front,
    List.filter_eq_nil_iff.2 rear, List.filter_eq_self.2 middle]
  simp [map_snd_placed]

end Lexeme

end Span

/-! ### Gaps and lexemes -/

namespace Token

/-- A text from a place on is cut into gaps and lexemes, and the tokens are those of the
lexemes. -/
inductive Tiles : Position → List Char → List Token → Prop
  | gap {here : Position} {gap : List Char} (skips : skipped false gap = gap) : Tiles here gap []
  | lexeme {here : Position} {gap tail rest : List Char} {c : Char} {kind : TokenKind}
      {lexed : List Token} (skips : skipped false (gap ++ (c :: tail ++ rest)) = gap)
      (reads : Lexeme.read c (tail ++ rest) = Lexeme.sound tail kind) (notEnd : kind ≠ .endOfText)
      (more : Tiles ((here.after gap).after (c :: tail)) rest lexed) :
      Tiles here (gap ++ (c :: tail ++ rest))
        (⟨kind, Span.upTo (here.after gap) ((here.after gap).after (c :: tail))⟩ :: lexed)

/-- What is skipped is a stretch at the start. -/
theorem skipped_isPrefix (comment : Bool) (cs : List Char) : skipped comment cs <+: cs := by
  fun_induction skipped comment cs with
  | case1 => exact List.nil_prefix
  | case2 _ ih | case3 _ _ _ ih | case4 _ _ _ ih | case5 _ _ ih =>
    exact List.cons_prefix_cons.2 ⟨rfl, ih⟩
  | case6 => exact List.nil_prefix

theorem report_eq (source : SourceText) (start : Position) (lexeme : List Char) (flaws : List Flaw)
    (found : Diagnostics) :
    report source start lexeme flaws found = (flaws.map fun flaw =>
      Diagnostic.ofProblem source flaw.problem (Span.upTo (start.after (lexeme.take flaw.first))
        (start.after (lexeme.take flaw.behind)))).foldl Diagnostics.push found := by
  rw [List.foldl_map]
  rfl

theorem report_total (source : SourceText) (start : Position) (lexeme : List Char)
    (flaws : List Flaw) (found : Diagnostics) :
    (report source start lexeme flaws found).total = found.total + flaws.length := by
  rw [report_eq, Diagnostics.total_foldl_push, List.length_map]

/-! ### Rounds -/

namespace Scanner

/-- A scanner stands before a gap and then a lexeme. -/
structure Passes (s : Scanner) (gap : List Char) (c : Char) (tail rest : List Char) : Prop where
  split : s.rest = gap ++ (c :: tail ++ rest)
  skips : skipped false (gap ++ (c :: tail ++ rest)) = gap
  lexeme : (Lexeme.read c (tail ++ rest)).tail = tail

/-- The scanner behind a gap and a lexeme, with the flaws of the lexeme reported. -/
def behind (source : SourceText) (s : Scanner) (gap : List Char) (c : Char)
    (tail rest : List Char) : Scanner :=
  ⟨rest, (s.here.after gap).after (c :: tail), report source (s.here.after gap) (c :: tail)
    (Lexeme.read c (tail ++ rest)).flaws s.found⟩

/-- What a lexeme at a place comes to. -/
def outcome (start : Position) (c : Char) (tail rest : List Char) : Round :=
  match (Lexeme.read c (tail ++ rest)).token with
  | none => .nothing
  | some kind => .token ⟨kind, Span.upTo start (start.after (c :: tail))⟩

/-- All that is left is skipped, or there is a lexeme behind a gap. -/
theorem exists_passes (s : Scanner) :
    skipped false s.rest = s.rest ∨ ∃ gap c tail rest, s.Passes gap c tail rest := by
  have front := List.prefix_iff_eq_append.1 (skipped_isPrefix false s.rest)
  cases left : s.rest.drop (skipped false s.rest).length with
  | nil => exact Or.inl (by rwa [left, List.append_nil] at front)
  | cons c rest =>
    rw [left] at front
    have rear := List.prefix_iff_eq_append.1 (Lexeme.tail_isPrefix c rest)
    have split : s.rest = skipped false s.rest ++ (c :: (Lexeme.read c rest).tail ++
        rest.drop (Lexeme.read c rest).tail.length) := by
      rw [List.cons_append, rear, front]
    exact Or.inr ⟨_, c, _, _, split, by rw [← split], by rw [rear]⟩

theorem round_of_full {s : Scanner} (full : s.found.full) (source : SourceText) :
    s.round source = (.ended, s.skip) := by
  simp [round, full]

theorem round_of_skipped {s : Scanner} (skips : skipped false s.rest = s.rest)
    (source : SourceText) : s.round source = (.ended, s.skip) := by
  have left : s.skip.rest = [] := by simp [skip, skips]
  unfold round
  rw [left]
  split <;> rfl

theorem Passes.skip_rest {s : Scanner} {gap tail rest : List Char} {c : Char}
    (passes : s.Passes gap c tail rest) : s.skip.rest = c :: (tail ++ rest) := by
  simp only [skip, passes.split, passes.skips]
  rw [List.drop_left, List.cons_append]

/-- A round reads the lexeme behind the gap. -/
theorem Passes.round {s : Scanner} {gap tail rest : List Char} {c : Char}
    (passes : s.Passes gap c tail rest) (room : s.found.full = false) (source : SourceText) :
    s.round source = (outcome (s.here.after gap) c tail rest, s.behind source gap c tail rest) := by
  have start : s.skip.here = s.here.after gap := by simp only [skip, passes.split, passes.skips]
  simp only [Scanner.round, room, passes.skip_rest, start, passes.lexeme, List.drop_left, behind,
    outcome]
  cases (Lexeme.read c (tail ++ rest)).token <;> rfl

/-- Every round comes to the end, because too much is wrong or nothing but a gap is left, or it
reads a lexeme. -/
theorem round_cases (source : SourceText) (s : Scanner) :
    ((s.found.full ∨ skipped false s.rest = s.rest) ∧ s.round source = (.ended, s.skip)) ∨
      ∃ gap c tail rest, s.Passes gap c tail rest ∧ s.found.full = false ∧
        s.round source =
          (outcome (s.here.after gap) c tail rest, s.behind source gap c tail rest) := by
  cases full : s.found.full with
  | true => exact Or.inl ⟨Or.inl rfl, round_of_full full source⟩
  | false =>
    rcases s.exists_passes with skips | ⟨gap, c, tail, rest, passes⟩
    · exact Or.inl ⟨Or.inr skips, round_of_skipped skips source⟩
    · exact Or.inr ⟨gap, c, tail, rest, passes, rfl, passes.round full source⟩

theorem next_of_ended {source : SourceText} {s behind : Scanner}
    (round : s.round source = (.ended, behind)) : s.next source = (endAt behind.here, behind) := by
  rw [next]
  split <;> simp_all

theorem next_of_token {source : SourceText} {s behind : Scanner} {token : Token}
    (round : s.round source = (.token token, behind)) : s.next source = (token, behind) := by
  rw [next]
  split <;> simp_all

theorem next_of_nothing {source : SourceText} {s behind : Scanner}
    (round : s.round source = (.nothing, behind)) : s.next source = behind.next source := by
  rw [next]
  split <;> simp_all

theorem tokens_of_end {source : SourceText} {s behind : Scanner} {token : Token}
    (room : s.found.full = false) (next : s.next source = (token, behind))
    (ends : token.kind.isEnd) : s.tokens source = ([token], behind.found) := by
  rw [tokens]
  simp [room, next, ends]

theorem tokens_of_next {source : SourceText} {s behind : Scanner} {token : Token}
    (room : s.found.full = false) (next : s.next source = (token, behind))
    (goes : token.kind.isEnd = false) :
    s.tokens source = (token :: (behind.tokens source).1, (behind.tokens source).2) := by
  rw [tokens]
  simp [room, next, goes]

/-- A round only adds to what was found. -/
theorem total_le_round (source : SourceText) (s : Scanner) :
    s.found.total ≤ (s.round source).2.found.total := by
  rcases s.round_cases source with ⟨-, round⟩ | ⟨gap, c, tail, rest, -, -, round⟩
  · rw [round]
    exact Nat.le_refl _
  · rw [round]
    exact (Nat.le_add_right _ _).trans_eq (report_total ..).symm

theorem total_le_next (source : SourceText) (s : Scanner) :
    s.found.total ≤ (s.next source).2.found.total := by
  fun_induction next source s with
  | case1 s behind round | case2 s token behind round => simpa [round] using s.total_le_round source
  | case3 s behind round ih =>
    exact Nat.le_trans (by simpa [round] using s.total_le_round source) ih

/-- Scanning only adds to what was found. -/
theorem total_le_tokens (source : SourceText) (s : Scanner) :
    s.found.total ≤ (s.tokens source).2.total := by
  fun_induction tokens source s with
  | case1 s full => exact Nat.le_refl _
  | case2 s room token behind next ends => simpa [next] using s.total_le_next source
  | case3 s room token behind next goes more found tokens ih =>
    rw [tokens] at ih
    exact Nat.le_trans (by simpa [next] using s.total_le_next source) ih

/-- A lexeme without flaws gives its token and is passed. -/
theorem Passes.next_of_sound {s : Scanner} {gap tail rest : List Char} {c : Char} {kind : TokenKind}
    (passes : s.Passes gap c tail rest) (room : s.found.full = false)
    (reads : Lexeme.read c (tail ++ rest) = Lexeme.sound tail kind) (source : SourceText) :
    s.next source =
      (⟨kind, Span.upTo (s.here.after gap) ((s.here.after gap).after (c :: tail))⟩,
        ⟨rest, (s.here.after gap).after (c :: tail), s.found⟩) := by
  have round := passes.round room source
  simp only [outcome, behind, reads, Lexeme.sound] at round
  exact next_of_token round

/-- As long as nothing is wrong, the next token is the mark of the end behind a gap or that of a
lexeme without flaws. -/
theorem next_cases_of_clean {source : SourceText} {s : Scanner} (room : s.found.full = false)
    (clean : (s.next source).2.found.total = 0) :
    (skipped false s.rest = s.rest ∧
      s.next source = (endAt (s.here.after s.rest), ⟨[], s.here.after s.rest, s.found⟩)) ∨
    ∃ gap c tail rest kind, s.Passes gap c tail rest ∧ kind ≠ .endOfText ∧
      Lexeme.read c (tail ++ rest) = Lexeme.sound tail kind := by
  rcases s.round_cases source with ⟨full | skips, round⟩ | ⟨gap, c, tail, rest, passes, -, round⟩
  · simp [room] at full
  · refine Or.inl ⟨skips, ?_⟩
    rw [next_of_ended round]
    simp [skip, skips]
  · have flawless : (Lexeme.read c (tail ++ rest)).flaws = [] := by
      -- A flaw is counted, and scanning on does not take it back.
      have counted : (s.behind source gap c tail rest).found.total =
          s.found.total + (Lexeme.read c (tail ++ rest)).flaws.length := report_total ..
      have kept : (s.behind source gap c tail rest).found.total ≤
          (s.next source).2.found.total := by
        cases token : (Lexeme.read c (tail ++ rest)).token with
        | none =>
          simp only [outcome, token] at round
          rw [next_of_nothing round]
          exact total_le_next source _
        | some kind =>
          simp only [outcome, token] at round
          rw [next_of_token round]
      exact List.length_eq_zero_iff.1 (by omega)
    obtain ⟨kind, reads, notEnd⟩ := Lexeme.exists_sound flawless
    rw [passes.lexeme] at reads
    exact Or.inr ⟨gap, c, tail, rest, kind, passes, notEnd, reads⟩

/-- A text that scans without errors is cut into gaps and lexemes. -/
theorem exists_tiles (source : SourceText) (s : Scanner) (clean : (s.tokens source).2.total = 0) :
    ∃ lexed, Tiles s.here s.rest lexed ∧
      s.tokens source = (lexed ++ [endAt (s.here.after s.rest)], s.found) := by
  fun_induction tokens source s with
  -- With no error found, scanning is never cut short by too many of them.
  | case1 s full => simp [Diagnostics.full_eq_false_of_total clean] at full
  -- The next token is the mark of the end, so what is left is one gap.
  | case2 s room token behind next ends =>
    have room : s.found.full = false := Bool.eq_false_iff.2 room
    rcases next_cases_of_clean room (by rw [next]; exact clean) with
      ⟨skips, mark⟩ | ⟨gap, c, tail, rest, kind, passes, notEnd, reads⟩
    · obtain ⟨rfl, rfl⟩ := Prod.mk.inj (next.symm.trans mark)
      exact ⟨[], .gap skips, rfl⟩
    · obtain ⟨rfl, -⟩ := Prod.mk.inj (next.symm.trans (passes.next_of_sound room reads source))
      exact absurd (TokenKind.isEnd_iff.1 ends) notEnd
  -- Another token is next, read from a lexeme without flaws behind a gap.
  | case3 s room token behind next goes more found tokens ih =>
    have room : s.found.full = false := Bool.eq_false_iff.2 room
    have counted := total_le_tokens source behind
    rw [tokens] at counted ih
    rcases next_cases_of_clean room (by rw [next]; exact Nat.le_zero.1 (clean ▸ counted)) with
      ⟨skips, mark⟩ | ⟨gap, c, tail, rest, kind, passes, notEnd, reads⟩
    · obtain ⟨rfl, -⟩ := Prod.mk.inj (next.symm.trans mark)
      exact absurd rfl goes
    · obtain ⟨rfl, rfl⟩ := Prod.mk.inj (next.symm.trans (passes.next_of_sound room reads source))
      obtain ⟨lexed, tiles, result⟩ := ih clean
      obtain ⟨rfl, rfl⟩ := Prod.mk.inj result
      rw [passes.split]
      refine ⟨_, .lexeme passes.skips reads notEnd tiles, ?_⟩
      rw [Position.after_append, Position.after_append]
      rfl

end Scanner

/-- A text that is cut into gaps and lexemes scans without errors. -/
theorem Tiles.tokens_eq {here : Position} {cs : List Char} {lexed : List Token}
    (tiles : Tiles here cs lexed) (source : SourceText) {found : Diagnostics}
    (room : found.full = false) :
    Scanner.tokens source ⟨cs, here, found⟩ = (lexed ++ [endAt (here.after cs)], found) := by
  induction tiles with
  | @gap here gap skips =>
    have round := @Scanner.round_of_skipped ⟨gap, here, found⟩ skips source
    rw [Scanner.tokens_of_end room (Scanner.next_of_ended round) rfl]
    simp [Scanner.skip, skips]
  | @lexeme here gap tail rest c kind lexed skips reads notEnd more ih =>
    have passes : Scanner.Passes ⟨gap ++ (c :: tail ++ rest), here, found⟩ gap c tail rest :=
      ⟨rfl, skips, by rw [reads]; rfl⟩
    rw [Scanner.tokens_of_next room (passes.next_of_sound room reads source)
      (TokenKind.isEnd_eq_false_iff.2 notEnd), ih, Position.after_append, Position.after_append]
    rfl

/-- Scanning without errors is cutting a text into gaps and lexemes. -/
theorem scan_clean_iff {source : SourceText} :
    (scan source).2.any = false ↔ ∃ lexed, Tiles Position.start source.chars lexed ∧
      scan source = (lexed ++ [endAt (Position.start.after source.chars)], .empty) := by
  constructor
  · intro clean
    have none : (scan source).2.total = 0 := by simpa [Diagnostics.any] using clean
    exact Scanner.exists_tiles source _ none
  · rintro ⟨lexed, -, scanned⟩
    rw [scanned]
    rfl

/-! ### Gaps -/

/-- Skipping stops before a character that is neither blank nor the start of a comment. -/
theorem stop_of_skipped {comment : Bool} {gap rest : List Char} {c : Char}
    (skips : skipped comment (gap ++ c :: rest) = gap) : ¬ Text.isBlank c ∧ c ≠ ';' := by
  induction gap generalizing comment with
  | nil =>
    cases comment with
    | true => by_cases line : c = '\n' <;> simp [skipped, line] at skips
    | false =>
      by_cases blank : Text.isBlank c
      · simp [skipped, blank] at skips
      · exact ⟨blank, by rintro rfl; simp [skipped, blank] at skips⟩
  | cons d gap ih =>
    cases comment with
    | true =>
      by_cases line : d = '\n' <;> simp only [List.cons_append, skipped, line, if_true, if_false]
        at skips <;> exact ih (List.cons.inj skips).2
    | false =>
      simp only [List.cons_append, skipped] at skips
      split at skips
      · exact ih (List.cons.inj skips).2
      · split at skips
        · exact ih (List.cons.inj skips).2
        · cases skips

/-- A text up to one of its characters ends behind a semicolon on the same line. -/
def EndsInComment (text : List Char) : Prop :=
  ∃ earlier comment, text = earlier ++ ';' :: comment ∧ '\n' ∉ comment

theorem EndsInComment.cons {text : List Char} (within : EndsInComment text) (c : Char) :
    EndsInComment (c :: text) := by
  obtain ⟨earlier, comment, rfl, line⟩ := within
  exact ⟨c :: earlier, comment, rfl, line⟩

/-- What is skipped is blank or stands behind a semicolon on its line. -/
theorem blank_or_comment_of_skipped {comment : Bool} {cs before after : List Char} {c : Char}
    (skips : skipped comment cs = before ++ c :: after) :
    Text.isBlank c ∨ (comment ∧ '\n' ∉ before ++ [c]) ∨ EndsInComment (before ++ [c]) := by
  fun_induction skipped comment cs generalizing before with
  | case1 => simp at skips
  -- A line end within a comment, behind which no comment has begun.
  | case2 rest ih =>
    cases before with
    | nil =>
      obtain ⟨rfl, -⟩ := List.cons.inj skips
      exact Or.inl (by decide)
    | cons d before =>
      rcases ih (List.cons.inj skips).2 with blank | ⟨start, -⟩ | within
      · exact Or.inl blank
      · cases start
      · exact Or.inr (Or.inr (within.cons d))
  -- Another character of a comment.
  | case3 d rest line ih =>
    cases before with
    | nil =>
      obtain ⟨rfl, -⟩ := List.cons.inj skips
      exact Or.inr (Or.inl ⟨rfl, by simpa using Ne.symm line⟩)
    | cons e before =>
      obtain ⟨rfl, tail⟩ := List.cons.inj skips
      rcases ih tail with blank | ⟨-, still⟩ | within
      · exact Or.inl blank
      · exact Or.inr (Or.inl ⟨rfl, by simpa [Ne.symm line] using still⟩)
      · exact Or.inr (Or.inr (within.cons d))
  -- A blank outside comments.
  | case4 d rest blank ih =>
    cases before with
    | nil =>
      obtain ⟨rfl, -⟩ := List.cons.inj skips
      exact Or.inl blank
    | cons e before =>
      rcases ih (List.cons.inj skips).2 with blank | ⟨start, -⟩ | within
      · exact Or.inl blank
      · cases start
      · exact Or.inr (Or.inr (within.cons e))
  -- A semicolon: what follows on its line stands behind it.
  | case5 rest blank ih =>
    cases before with
    | nil =>
      obtain ⟨rfl, -⟩ := List.cons.inj skips
      exact Or.inr (Or.inr ⟨[], [], rfl, List.not_mem_nil⟩)
    | cons e before =>
      obtain ⟨rfl, tail⟩ := List.cons.inj skips
      rcases ih tail with blank | ⟨-, still⟩ | within
      · exact Or.inl blank
      · exact Or.inr (Or.inr ⟨[], before ++ [c], rfl, still⟩)
      · exact Or.inr (Or.inr (within.cons ';'))
  | case6 => simp at skips

/-! ### What the tokens account for -/

/-- A token stands for a lexeme of a text that starts at a place: it has the span of the lexeme,
and the lexeme scans on its own to this token. -/
structure StandsFor (token : Token) (here : Position) (before lexeme : List Char) : Prop where
  nonempty : lexeme ≠ []
  line : lexeme.getLast? ≠ some '\n'
  notEnd : token.kind ≠ .endOfText
  span : token.span = Span.upTo (here.after before) ((here.after before).after lexeme)
  alone : ∀ name, scan ⟨name, lexeme⟩ =
    ([⟨token.kind, Span.upTo Position.start (Position.start.after lexeme)⟩,
      endAt (Position.start.after lexeme)], .empty)

namespace Tiles

variable {here : Position} {cs : List Char} {lexed : List Token}

theorem standsFor_lexeme {gap tail rest : List Char} {c : Char} {kind : TokenKind}
    (skips : skipped false (gap ++ (c :: tail ++ rest)) = gap)
    (reads : Lexeme.read c (tail ++ rest) = Lexeme.sound tail kind) (notEnd : kind ≠ .endOfText) :
    StandsFor ⟨kind, Span.upTo (here.after gap) ((here.after gap).after (c :: tail))⟩ here gap
      (c :: tail) := by
  obtain ⟨notBlank, notComment⟩ := stop_of_skipped skips
  have flawless : (Lexeme.read c (tail ++ rest)).flaws = [] := by rw [reads]; rfl
  have again : Lexeme.read c tail = Lexeme.sound tail kind := by
    have alone := Lexeme.read_alone flawless
    rwa [reads] at alone
  refine ⟨List.cons_ne_nil _ _, ?_, notEnd, rfl, fun name => ?_⟩
  · have last := Lexeme.getLast_ne_lineFeed flawless (by rintro rfl; exact notBlank (by decide))
    rwa [reads] at last
  · have tiles : Tiles Position.start ([] ++ (c :: tail ++ []))
        [⟨kind, Span.upTo Position.start (Position.start.after (c :: tail))⟩] :=
      .lexeme (by simp [skipped, notBlank, notComment]) (by rwa [List.append_nil]) notEnd (.gap rfl)
    have scanned := @Tiles.tokens_eq _ _ _ tiles ⟨name, c :: tail⟩ .empty rfl
    rwa [List.nil_append, List.append_nil] at scanned

/-- Each token stands for a lexeme of the text. -/
theorem standsFor (tiles : Tiles here cs lexed) :
    ∀ token ∈ lexed, ∃ before lexeme after,
      cs = before ++ lexeme ++ after ∧ StandsFor token here before lexeme := by
  induction tiles with
  | gap skips => exact fun _ mem => absurd mem List.not_mem_nil
  | @lexeme here gap tail rest c kind lexed skips reads notEnd more ih =>
    intro token mem
    rcases List.mem_cons.1 mem with rfl | mem
    · exact ⟨gap, c :: tail, rest, by simp, standsFor_lexeme skips reads notEnd⟩
    · obtain ⟨before, lexeme, after, rfl, stands⟩ := ih token mem
      refine ⟨gap ++ c :: tail ++ before, lexeme, after, by simp, ?_⟩
      exact { stands with span := by simpa [Position.after_append] using stands.span }

/-- No token starts before the text does. -/
theorem not_first_before (tiles : Tiles here cs lexed) :
    ∀ token ∈ lexed, ¬ token.span.first.before here := by
  intro token mem
  obtain ⟨before, lexeme, after, -, stands⟩ := tiles.standsFor token mem
  rw [stands.span]
  exact Position.not_after_before _ _

section Spans

variable (pos : 0 < here.column)
include pos

theorem last_before {token : Token} {before lexeme : List Char}
    (stands : StandsFor token here before lexeme) :
    token.span.last.before (here.after (before ++ lexeme)) := by
  rw [stands.span, Position.after_append]
  exact Span.last_upTo_before (Position.column_pos_after pos before) stands.nonempty stands.line

/-- The spans follow each other in reading order and end within the text. -/
theorem pairwise_before (tiles : Tiles here cs lexed) :
    lexed.Pairwise (fun a b => a.span.last.before b.span.first) := by
  induction tiles with
  | gap skips => exact List.Pairwise.nil
  | @lexeme here gap tail rest c kind lexed skips reads notEnd more ih =>
    refine List.pairwise_cons.2 ⟨fun token mem => ?_, ih ?_⟩
    · have ends := last_before pos (standsFor_lexeme skips reads notEnd)
      rw [Position.after_append] at ends
      exact Position.before_of_before_of_not_before ends (more.not_first_before token mem)
    · exact Position.column_pos_after (Position.column_pos_after pos gap) (c :: tail)

theorem last_before_end (tiles : Tiles here cs lexed) :
    ∀ token ∈ lexed, token.span.last.before (here.after cs) := by
  intro token mem
  obtain ⟨before, lexeme, after, rfl, stands⟩ := tiles.standsFor token mem
  rw [Position.after_append]
  exact Position.before_of_before_of_not_before (last_before pos stands)
    (Position.not_after_before _ _)

end Spans

end Tiles

/-- A text up to one of its characters ends in a comment: behind a semicolon outside all spans, with
no line feed since. -/
def InComment (lexed : List Token) (here : Position) (text : List Char) : Prop :=
  ∃ earlier comment, text = earlier ++ ';' :: comment ∧ '\n' ∉ comment ∧
    ∀ token ∈ lexed, ¬ token.span.covers (here.after earlier)

/-- A character of two texts in a row belongs to the first or to the second. -/
theorem append_eq_append_cons {a b before after : List Char} {c : Char}
    (split : a ++ b = before ++ c :: after) :
    (∃ rest, a = before ++ c :: rest) ∨ ∃ front, before = a ++ front ∧ b = front ++ c :: after := by
  rcases List.append_eq_append_iff.1 split with ⟨front, rfl, rfl⟩ | ⟨rest, rfl, cut⟩
  · exact Or.inr ⟨front, rfl, rfl⟩
  · cases rest with
    | nil => exact Or.inr ⟨[], by simp, by simpa using cut.symm⟩
    | cons d rest =>
      obtain ⟨rfl, -⟩ := List.cons.inj cut
      exact Or.inl ⟨rest, rfl⟩

/-- What lies outside all spans is blank or in a comment. -/
theorem Tiles.blank_or_inComment {here : Position} {cs : List Char} {lexed : List Token}
    (tiles : Tiles here cs lexed) (pos : 0 < here.column) {before after : List Char} {c : Char}
    (split : cs = before ++ c :: after)
    (outside : ∀ token ∈ lexed, ¬ token.span.covers (here.after before)) :
    Text.isBlank c ∨ InComment lexed here (before ++ [c]) := by
  induction tiles generalizing before with
  | gap skips =>
    rcases blank_or_comment_of_skipped (skips.trans split) with blank | ⟨within, -⟩ | within
    · exact Or.inl blank
    · cases within
    · obtain ⟨earlier, comment, eq, line⟩ := within
      exact Or.inr ⟨earlier, comment, eq, line, nofun⟩
  | @lexeme here gap tail rest d kind lexed skips reads notEnd more ih =>
    have stands := @standsFor_lexeme here _ _ _ _ _ skips reads notEnd
    rcases append_eq_append_cons split with ⟨behind, inGap⟩ | ⟨front, rfl, inner⟩
    · rcases blank_or_comment_of_skipped (skips.trans inGap) with blank | ⟨within, -⟩ | within
      · exact Or.inl blank
      · cases within
      · obtain ⟨earlier, comment, eq, line⟩ := within
        refine Or.inr ⟨earlier, comment, eq, line, fun token mem cover => ?_⟩
        -- The semicolon stands in the gap, and no token starts before the gap ends.
        have gap_eq : gap = earlier ++ ';' :: (comment ++ behind) := by
          rw [inGap, ← List.singleton_append, ← List.append_assoc, eq]
          simp
        have earlier_before : (here.after earlier).before (here.after gap) := by
          rw [gap_eq, Position.after_append]
          exact Position.before_after _ (List.cons_ne_nil _ _)
        refine (Span.covers_iff.1 cover).1
          (Position.before_of_before_of_not_before earlier_before ?_)
        rcases List.mem_cons.1 mem with rfl | mem
        · exact Position.before_irrefl _
        · exact fun back => more.not_first_before token mem
            (Position.before_of_before_of_not_before back (Position.not_after_before _ _))
    · rcases append_eq_append_cons inner with ⟨behind, inLexeme⟩ | ⟨front, rfl, inRest⟩
      · refine absurd ?_ (outside _ List.mem_cons_self)
        rw [Position.after_append]
        refine Span.covers_of_mem_placed (Position.column_pos_after pos gap) stands.nonempty
          stands.line (?_ : (_, c) ∈ Span.placed _ _)
        rw [inLexeme]
        exact Span.mem_placed _ _ _ _
      · have place : ∀ text, here.after (gap ++ (d :: tail ++ text)) =
            ((here.after gap).after (d :: tail)).after text := fun text => by
          rw [Position.after_append, Position.after_append]
        have further := ih (Position.column_pos_after (Position.column_pos_after pos gap) _) inRest
          fun token mem => place front ▸ outside token (List.mem_cons_of_mem _ mem)
        refine further.imp_right ?_
        rintro ⟨earlier, comment, eq, line, uncovered⟩
        refine ⟨gap ++ (d :: tail ++ earlier), comment, by simp [eq], line, fun token mem => ?_⟩
        rw [place]
        rcases List.mem_cons.1 mem with rfl | mem
        · have ends := last_before pos stands
          rw [Position.after_append] at ends
          exact fun cover => (Span.covers_iff.1 cover).2
            (Position.before_of_before_of_not_before ends (Position.not_after_before _ _))
        · exact uncovered token mem

/-- Scanning loses nothing. In a text that scans without errors the spans follow each other in
reading order, the mark of the end last and behind the text; each other token reaches from the first
character of a lexeme to the last, has just that lexeme within its span, and is what the lexeme
scans to on its own; and what lies outside all spans is blank or in a comment. -/
theorem scan_faithful (source : SourceText) (clean : (scan source).2.any = false) :
    ∃ lexed : List Token,
      (scan source).1 = lexed ++ [endAt (Position.start.after source.chars)] ∧
      (scan source).1.Pairwise (fun a b => a.span.last.before b.span.first) ∧
      (∀ token ∈ lexed, token.kind ≠ .endOfText ∧
        ∃ before lexeme after, source.chars = before ++ lexeme ++ after ∧ lexeme ≠ [] ∧
          token.span = ⟨Position.start.after before,
            Position.start.after (before ++ lexeme.dropLast)⟩ ∧
          token.span.slice source.chars = lexeme ∧
          ∀ name, (scan ⟨name, lexeme⟩).1.map Token.kind = [token.kind, .endOfText] ∧
            (scan ⟨name, lexeme⟩).2 = .empty) ∧
      ∀ before c after, source.chars = before ++ c :: after →
        (∀ token ∈ lexed, ¬ token.span.covers (Position.start.after before)) →
        Text.isBlank c ∨ InComment lexed Position.start (before ++ [c]) := by
  have pos : 0 < Position.start.column := Nat.zero_lt_one
  obtain ⟨lexed, tiles, scanned⟩ := scan_clean_iff.1 clean
  rw [scanned]
  refine ⟨lexed, rfl, ?_, fun token mem => ?_, fun before c after split outside =>
    tiles.blank_or_inComment pos split outside⟩
  · refine List.pairwise_append.2 ⟨tiles.pairwise_before pos, List.pairwise_singleton _ _, ?_⟩
    intro token mem mark isMark
    rw [List.mem_singleton.1 isMark]
    exact tiles.last_before_end pos token mem
  · obtain ⟨before, lexeme, after, split, stands⟩ := tiles.standsFor token mem
    have column := Position.column_pos_after pos before
    refine ⟨stands.notEnd, before, lexeme, after, split, stands.nonempty, ?_, ?_, fun name => ?_⟩
    · rw [stands.span, Span.upTo_eq column stands.nonempty stands.line, Position.after_append]
    · rw [stands.span, split]
      exact Span.slice_placed column stands.nonempty stands.line rfl
    · rw [stands.alone name]
      exact ⟨rfl, rfl⟩

/-- A text over three lines, with a comment, a signed fraction and a line feed between quotes. -/
def annotated : SourceText := .ofString "note" "a: -1.5 ; sum\n[\"x\ny\" :b]"

theorem scan_faithful_annotated :
    (scan annotated).2.any = false ∧
      ∃ lexed, (scan annotated).1 = lexed ++ [endAt ⟨3, 7⟩] ∧
        (scan annotated).1.Pairwise (fun a b => a.span.last.before b.span.first) := by
  have clean : (scan annotated).2.any = false := by decide +kernel
  obtain ⟨lexed, tokens, ordered, -⟩ := scan_faithful annotated clean
  have behind : Position.start.after annotated.chars = ⟨3, 7⟩ := by decide
  exact ⟨clean, lexed, behind ▸ tokens, ordered⟩

end Token

end Wordstream
