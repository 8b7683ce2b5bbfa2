import Mathlib.Logic.Function.Iterate
import Wordstream.Proofs.Diagnostics
import Wordstream.Proofs.Scanning

/-!
# Rounds of scanning

Each round of scanning takes at least one character, whatever it finds, so a text is scanned in at
most as many rounds as it has characters. Every character behind a gap starts a lexeme: what is
neither blank, nor a bracket, a quote, a semicolon or a colon belongs to a symbol. What can be
wrong with a lexeme is therefore little, and each flaw is about a stretch of it that the problem
names.

## Main results

* `Lexeme.concerns_of_mem_flaws` — a flaw of a lexeme is about a stretch of the lexeme
* `Token.Scanner.exists_passed` — a round takes at least one character
* `Token.scan_progresses` — scanning gets on, ends with the only mark of the end, and knows every
  character
-/

namespace Wordstream

/-! ### What a problem is about -/

/-- The characters that a problem is about. -/
inductive Problem.Concerns : Problem → List Char → Prop
  | missingClose (bracket : Bracket) :
      Concerns (.missingClose bracket.closing) bracket.opening.toList
  | unterminatedText (body : List Char) : Concerns .unterminatedText ('"' :: body)
  | unexpectedClose (bracket : Bracket) :
      Concerns (.unexpectedClose bracket.closing) bracket.closing.toList
  | emptySymbol {sigil : Char} (known : sigil = '\'' ∨ sigil = ':') : Concerns .emptySymbol [sigil]
  | emptySegment (kind : WordKind) {c : Char} {rest : List Char} (symbol : Lexeme.isSymbolChar c) :
      Concerns (.emptySegment (String.ofList (c :: rest)))
        (kind.decorate (String.ofList (c :: rest))).toList
  | invalidEscape (c : Char) : Concerns (.invalidEscape c) ['\\', c]
  | malformedNumber {c : Char} {rest : List Char} (number : c.isDigit ∨ c = '-') :
      Concerns (.malformedNumber (String.ofList (c :: rest))) (c :: rest)
  | nestedTooDeep (bracket : Bracket) (limit : Nat) :
      Concerns (.nestedTooDeep limit) bracket.opening.toList

/-- No problem is about a character that is not expected at all. -/
theorem Problem.Concerns.code_ne {problem : Problem} {stretch : List Char}
    (about : problem.Concerns stretch) : problem.code ≠ 100 := by
  cases about <;> simp [Problem.code]

namespace Lexeme

/-- A flaw is about a stretch of the lexeme with the given characters. -/
def Concerns (flaw : Flaw) (lexeme : List Char) : Prop :=
  ∃ before stretch after, lexeme = before ++ stretch ++ after ∧ before.length = flaw.first ∧
    flaw.problem.Concerns stretch

/-- What is wrong within a quoted text is an escape that is not known. The characters `before` are
those of the lexeme in front of the quoted text. -/
theorem concerns_of_mem_quotedText {offset : Nat} {cs : List Char} {flaw : Flaw}
    (mem : flaw ∈ (quotedText offset cs).flaws) (before : List Char)
    (length : before.length = offset) :
    Concerns flaw (before ++ (quotedText offset cs).taken) := by
  fun_induction quotedText offset cs generalizing before with
  | case1 | case2 | case5 => cases mem
  | case3 offset c rest more meant known ih =>
    simpa using ih mem (before ++ ['\\', c]) (by simp [length])
  | case4 offset c rest more unknown ih =>
    rcases List.mem_cons.1 mem with rfl | mem
    · exact ⟨before, ['\\', c], more.taken, by simp, length, .invalidEscape c⟩
    · simpa using ih mem (before ++ ['\\', c]) (by simp [length])
  | case6 offset c rest alone escaped quote more ih =>
    simpa using ih mem (before ++ [c]) (by simp [length])

theorem concerns_of_mem_readText {cs : List Char} {flaw : Flaw} (mem : flaw ∈ (readText cs).flaws) :
    Concerns flaw ('"' :: (readText cs).tail) := by
  rcases List.mem_append.1 mem with within | unclosed
  · exact concerns_of_mem_quotedText within ['"'] rfl
  · split at unclosed
    · cases unclosed
    · rw [List.mem_singleton.1 unclosed]
      exact ⟨[], _, [], (List.append_nil _).symm, rfl, .unterminatedText _⟩

theorem concerns_of_mem_readSigil {sigil : Char} (known : sigil = '\'' ∨ sigil = ':')
    {kind : WordKind} {cs : List Char} {flaw : Flaw} (mem : flaw ∈ (readSigil kind cs).flaws) :
    Concerns flaw (sigil :: (readSigil kind cs).tail) := by
  unfold readSigil at mem ⊢
  split at mem
  · rw [List.mem_singleton.1 mem]
    exact ⟨[], [sigil], [], rfl, rfl, .emptySymbol known⟩
  · cases mem

theorem flaws_readSlash (cs : List Char) : (readSlash cs).flaws = [] := by
  unfold readSlash
  split <;> rfl

theorem flaws_readWord (c : Char) (cs : List Char) : (readWord c cs).flaws = [] := by
  unfold readWord
  split <;> rfl

/-- A number is malformed as a whole. -/
theorem concerns_of_mem_readNumber {negative : Bool} {cs : List Char} {c : Char}
    (first : (numeralChars negative cs).head? = some c) (number : c.isDigit ∨ c = '-') {flaw : Flaw}
    (mem : flaw ∈ (readNumber negative cs).flaws) :
    Concerns flaw (c :: (readNumber negative cs).tail) := by
  obtain ⟨rest, numeral⟩ : ∃ rest, numeralChars negative cs = c :: rest :=
    List.head?_eq_some_iff.1 first
  rw [readNumber_tail, numeral]
  rw [readNumber_eq, numeral] at mem
  split at mem
  · cases mem
  · rw [List.mem_singleton.1 mem]
    exact ⟨[], _, [], (List.append_nil _).symm, rfl, .malformedNumber number⟩

/-- A character that is neither blank nor starts a comment, and is no marker, belongs to a
symbol. -/
theorem isSymbolChar_of_not_mem_markers {c : Char} (notBlank : ¬ Text.isBlank c)
    (notComment : c ≠ ';') (bare : c ∉ markers) : isSymbolChar c := by
  simp only [markers, List.mem_cons, List.not_mem_nil, or_false, not_or] at bare
  simp_all [isSymbolChar]

theorem concerns_of_mem_readBare {c : Char} (symbol : isSymbolChar c) {cs : List Char} {flaw : Flaw}
    (mem : flaw ∈ (readBare c cs).flaws) : Concerns flaw (c :: (readBare c cs).tail) := by
  by_cases sign : c = '-' ∧ cs.head?.any Char.isDigit
  · obtain ⟨rfl, digits⟩ := sign
    rw [readBare_signed digits] at mem ⊢
    exact concerns_of_mem_readNumber (by simp [numeralChars]) (Or.inr rfl) mem
  by_cases digit : c.isDigit
  · rw [readBare_digit digit] at mem ⊢
    exact concerns_of_mem_readNumber (by simp [numeralChars, digit]) (Or.inl digit) mem
  · rw [readBare_word sign digit symbol, flaws_readWord] at mem
    cases mem

/-- A flaw of a lexeme is about a stretch of the lexeme. -/
theorem concerns_of_mem_flaws {c : Char} (notBlank : ¬ Text.isBlank c) (notComment : c ≠ ';')
    {cs : List Char} {flaw : Flaw} (mem : flaw ∈ (read c cs).flaws) :
    Concerns flaw (c :: (read c cs).tail) := by
  refine read_cases
    (P := fun c reader => ¬ Text.isBlank c → c ≠ ';' → flaw ∈ (reader cs).flaws →
      Concerns flaw (c :: (reader cs).tail)) ?_ ?_ ?_ ?_ ?_ ?_ ?_ c notBlank notComment mem
  · intro _ _ _ _ _ mem
    cases mem
  · intro _ _ _ _ _ mem
    cases mem
  · exact fun _ _ => concerns_of_mem_readText
  · exact fun _ _ => concerns_of_mem_readSigil (Or.inl rfl)
  · exact fun _ _ => concerns_of_mem_readSigil (Or.inr rfl)
  · intro _ _ mem
    rw [flaws_readSlash] at mem
    cases mem
  · -- A character that starts no lexeme of any kind would be blank or start a comment.
    intro c bare notBlank notComment
    exact concerns_of_mem_readBare (isSymbolChar_of_not_mem_markers notBlank notComment bare)

end Lexeme

/-! ### What is stored -/

namespace Token

theorem mem_stored_report {source : SourceText} {start : Position} {lexeme : List Char}
    {flaws : List Flaw} {found : Diagnostics} {d : Diagnostic}
    (mem : d ∈ (report source start lexeme flaws found).stored) :
    d ∈ found.stored ∨ ∃ flaw ∈ flaws, d = Diagnostic.ofProblem source flaw.problem
      (Span.upTo (start.after (lexeme.take flaw.first))
        (start.after (lexeme.take flaw.behind))) := by
  rw [report_eq] at mem
  refine (Diagnostics.mem_stored_foldl_push mem).imp_right fun among => ?_
  obtain ⟨flaw, listed, rfl⟩ := List.mem_map.1 among
  exact ⟨flaw, listed, rfl⟩

namespace Scanner

/-! ### One round after the other -/

/-- A round takes at least one character, unless it comes to the end, and knows where it stands. -/
theorem exists_passed (source : SourceText) (s : Scanner) (goes : (s.round source).1 ≠ .ended) :
    ∃ passed, passed ≠ [] ∧ s.rest = passed ++ (s.round source).2.rest ∧
      (s.round source).2.here = s.here.after passed := by
  rcases s.round_cases source with ⟨-, round⟩ | ⟨gap, c, tail, rest, passes, -, round⟩
  · rw [round] at goes
    exact absurd rfl goes
  · rw [round]
    refine ⟨gap ++ c :: tail, by simp, ?_, ?_⟩
    · simp [passes.split, behind]
    · simp [behind, Position.after_append]

/-- Scanning comes to the end after at most as many rounds as there are characters. -/
theorem exists_ended (source : SourceText) (s : Scanner) :
    ∃ rounds ≤ s.rest.length,
      (((fun t : Scanner => (t.round source).2)^[rounds] s).round source).1 = .ended := by
  -- The induction is on what is left: a round that does not come to the end leaves less.
  induction length : s.rest.length using Nat.strong_induction_on generalizing s with
  | _ length' ih =>
    subst length
    by_cases ends : (s.round source).1 = .ended
    · exact ⟨0, Nat.zero_le _, ends⟩
    · have shorter := length_round source s ends
      obtain ⟨rounds, few, ends⟩ := ih _ shorter (s.round source).2 rfl
      exact ⟨rounds + 1, Nat.lt_of_le_of_lt few shorter, ends⟩

section Induction

variable {source : SourceText} {Inv : Scanner → Prop} {Good : Token → Prop}
  (step : ∀ s, Inv s → Inv (s.round source).2)
  (made : ∀ s token, Inv s → (s.round source).1 = .token token → Good token)
include step made

/-- What every round keeps is kept up to the next token, and what holds of the tokens that rounds
make holds of that token. -/
theorem next_induction {s : Scanner} (start : Inv s) :
    Inv (s.next source).2 ∧ ((s.next source).1.kind = .endOfText ∨ Good (s.next source).1) := by
  fun_induction next source s with
  | case1 s behind round => exact ⟨by simpa [round] using step s start, Or.inl rfl⟩
  | case2 s token behind round =>
    exact ⟨by simpa [round] using step s start, Or.inr (made s token start (by rw [round]))⟩
  | case3 s behind round ih => exact ih (by simpa [round] using step s start)

/-- The tokens of a text are some that rounds made, no more of them than there are characters, and
then the mark of the end. -/
theorem tokens_induction {s : Scanner} (start : Inv s) :
    ∃ lexed mark last, s.tokens source = (lexed ++ [mark], last.found) ∧ Inv last ∧
      mark.kind = .endOfText ∧ (∀ token ∈ lexed, token.kind ≠ .endOfText ∧ Good token) ∧
      lexed.length ≤ s.rest.length := by
  fun_induction tokens source s with
  | case1 s full => exact ⟨[], endAt s.here, s, rfl, start, rfl, by simp, Nat.zero_le _⟩
  | case2 s room token behind next ends =>
    have kept := (next_induction step made start).1
    rw [next] at kept
    exact ⟨[], token, behind, rfl, kept, TokenKind.isEnd_iff.1 ends, by simp, Nat.zero_le _⟩
  | case3 s room token behind next goes more found tokens ih =>
    obtain ⟨kept, good⟩ := next_induction step made start
    have shorter := length_next source s
    rw [next] at kept good shorter
    obtain ⟨lexed, mark, last, result, inv, ends, all, few⟩ := ih kept
    obtain ⟨rfl, rfl⟩ := Prod.mk.inj (tokens.symm.trans result)
    -- Only the last token may be the mark, so the one in front was made by a round.
    have notEnd : token.kind ≠ .endOfText := fun ends => goes (TokenKind.isEnd_iff.2 ends)
    refine ⟨token :: lexed, mark, last, rfl, inv, ends,
      List.forall_mem_cons.2 ⟨⟨notEnd, good.resolve_left notEnd⟩, all⟩, ?_⟩
    exact Nat.lt_of_le_of_lt few (shorter (Bool.eq_false_iff.2 goes))

end Induction

/-- What a round reads starts with a character that is neither blank nor starts a comment. -/
theorem start_of_skip {s : Scanner} {c : Char} {rest : List Char} (left : s.skip.rest = c :: rest) :
    ¬ Text.isBlank c ∧ c ≠ ';' := by
  have front := List.prefix_iff_eq_append.1 (skipped_isPrefix false s.rest)
  rw [show s.rest.drop (skipped false s.rest).length = c :: rest from left] at front
  exact stop_of_skipped (congrArg (skipped false) front)

end Scanner

/-- Scanning gets on. Every round, wherever it starts, takes at least one character unless it
comes to the end, and so does every token but the mark of the end; so the end is reached after at
most as many rounds as there are characters. The tokens of a text end with the mark of the end,
which occurs nowhere else, also when too much is wrong; there are no more other tokens than
characters. No round finds a character that is not expected, and no such diagnostic is stored. -/
theorem scan_progresses (source : SourceText) :
    (∀ s : Scanner, (s.round source).1 ≠ .ended →
      ∃ passed, passed ≠ [] ∧ s.rest = passed ++ (s.round source).2.rest ∧
        (s.round source).2.here = s.here.after passed) ∧
    (∀ s : Scanner, (s.next source).1.kind ≠ .endOfText →
      (s.next source).2.rest.length < s.rest.length) ∧
    (∀ s : Scanner, ∃ rounds ≤ s.rest.length,
      (((fun t : Scanner => (t.round source).2)^[rounds] s).round source).1 = .ended) ∧
    (∃ lexed mark, (scan source).1 = lexed ++ [mark] ∧ mark.kind = .endOfText ∧
      (∀ token ∈ lexed, token.kind ≠ .endOfText) ∧ lexed.length ≤ source.chars.length) ∧
    (∀ (s : Scanner) (c : Char) (rest : List Char), s.skip.rest = c :: rest →
      ∀ flaw ∈ (Lexeme.read c rest).flaws, flaw.problem.code ≠ 100) ∧
    ∀ d ∈ (scan source).2.stored, d.code ≠ 100 := by
  have known : ∀ (s : Scanner) (c : Char) (rest : List Char), s.skip.rest = c :: rest →
      ∀ flaw ∈ (Lexeme.read c rest).flaws, flaw.problem.code ≠ 100 := by
    intro s c rest left flaw mem
    obtain ⟨notBlank, notComment⟩ := Scanner.start_of_skip left
    obtain ⟨-, stretch, -, -, -, about⟩ := Lexeme.concerns_of_mem_flaws notBlank notComment mem
    exact about.code_ne
  have step : ∀ s : Scanner, (∀ d ∈ s.found.stored, d.code ≠ 100) →
      ∀ d ∈ (s.round source).2.found.stored, d.code ≠ 100 := by
    intro s clear d mem
    rcases s.round_cases source with ⟨-, round⟩ | ⟨gap, c, tail, rest, passes, -, round⟩
    · rw [round] at mem
      exact clear d mem
    · -- A round adds what is wrong with the lexeme that it reads.
      rw [round] at mem
      rcases mem_stored_report mem with earlier | ⟨flaw, among, rfl⟩
      · exact clear d earlier
      · exact known s c (tail ++ rest) passes.skip_rest flaw among
  obtain ⟨lexed, mark, last, result, clear, ends, all, few⟩ :=
    @Scanner.tokens_induction source _ (fun _ => True) step (fun _ _ _ _ => trivial)
      ⟨source.chars, Position.start, .empty⟩ (by simp [Diagnostics.empty])
  refine ⟨Scanner.exists_passed source, fun s goes => ?_, Scanner.exists_ended source, ?_,
    known, ?_⟩
  · exact Scanner.length_next source s (TokenKind.isEnd_eq_false_iff.2 goes)
  · exact ⟨lexed, mark, congrArg Prod.fst result, ends, fun token mem => (all token mem).1, few⟩
  · rw [show (scan source).2 = last.found from congrArg Prod.snd result]
    exact clear

/-- A word and then more lone colons than diagnostics are kept, so that the last word is not
reached. -/
def crowded : SourceText := .ofString "crowded" "a: ::::::::::::::::::::: b"

theorem scan_progresses_of_crowded :
    (scan crowded).2.total = 20 ∧ (scan crowded).1.length = 2 ∧
      (∃ lexed mark, (scan crowded).1 = lexed ++ [mark] ∧ mark.kind = .endOfText ∧
        ∀ token ∈ lexed, token.kind ≠ .endOfText) ∧
      ∀ d ∈ (scan crowded).2.stored, d.code ≠ 100 := by
  obtain ⟨-, -, -, ⟨lexed, mark, tokens, ends, others, -⟩, -, codes⟩ := scan_progresses crowded
  exact ⟨by decide +kernel, by decide +kernel, ⟨lexed, mark, tokens, ends, others⟩, codes⟩

end Token

end Wordstream
