import Wordstream.Proofs.Grammar
import Wordstream.Proofs.Scanning

/-!
# Reading texts one after the other

Where a lexeme ends is decided by the character behind it, and a line feed ends every lexeme as the
end of the text does. Nothing else is carried from one place of a text to a later one but the place
itself. So two texts with a line feed between them read as the first and then the second, which
stands as many lines further down as it now has line feeds before it.

## Main results

* `Lexeme.read_append_stops` — what a lexeme is does not depend on a rest that stops it
* `Node.parse_eq_ok_iff` — reading a text is cutting it into lexemes and nesting their tokens
* `Node.parse_append_line` — a line feed between two texts keeps what each of them stands for
-/

namespace Wordstream

/-! ### What stops a lexeme -/

namespace Lexeme

/-- A rest of a text that no lexeme but an open quotation goes on into: it is empty, or it starts
with a character that neither belongs to a symbol nor assigns to the word before it. -/
def Stops (rest : List Char) : Prop := ∀ c ∈ rest.head?, isSymbolChar c = false ∧ c ≠ ':'

theorem isSymbolChar_of_isDigit {c : Char} (digit : c.isDigit) : isSymbolChar c := by
  have range : 48 ≤ c.toNat ∧ c.toNat ≤ 57 := by
    simpa [Char.isDigit, UInt32.le_iff_toNat_le] using digit
  have notBlank : Text.isBlank c = false := by
    simp only [Text.isBlank, Text.blankRanges, List.any_cons, List.any_nil, Bool.or_false,
      Bool.or_eq_false_iff, Bool.and_eq_false_iff, decide_eq_false_iff_not]
    omega
  have other : ∀ d : Char, d.toNat < 48 ∨ 57 < d.toNat → c ≠ d := by
    rintro d far rfl
    omega
  simp [isSymbolChar, notBlank, other '[' (by decide), other ']' (by decide), other '(' (by decide),
    other ')' (by decide), other '"' (by decide), other ';' (by decide), other ':' (by decide)]

section Stop

variable {rest : List Char} (stops : Stops rest)
include stops

theorem Stops.takeWhile_eq_nil {p : Char → Bool} (symbol : ∀ c, p c → isSymbolChar c) :
    rest.takeWhile p = [] := by
  cases rest with
  | nil => rfl
  | cons c rest =>
    have outside : ¬ p c := fun inside =>
      Bool.false_ne_true ((stops c rfl).1.symm.trans (symbol c inside))
    exact List.takeWhile_cons_of_neg outside

theorem Stops.takeWhile_append {p : Char → Bool} (symbol : ∀ c, p c → isSymbolChar c)
    (cs : List Char) : (cs ++ rest).takeWhile p = cs.takeWhile p := by
  rw [List.takeWhile_append]
  split
  · rename_i all
    rw [stops.takeWhile_eq_nil symbol, List.append_nil,
      (List.takeWhile_prefix p).eq_of_length all]
  · rfl

theorem Stops.dropWhile_append {p : Char → Bool} (symbol : ∀ c, p c → isSymbolChar c)
    (cs : List Char) : (cs ++ rest).dropWhile p = cs.dropWhile p ++ rest := by
  have whole := List.takeWhile_append_dropWhile (p := p) (l := cs ++ rest)
  have front := List.takeWhile_append_dropWhile (p := p) (l := cs)
  rw [stops.takeWhile_append symbol] at whole
  refine List.append_cancel_left (whole.trans ?_)
  rw [← List.append_assoc, front]

theorem Stops.fractionDigits_append (cs : List Char) :
    fractionDigits (cs ++ rest) = fractionDigits cs := by
  cases cs with
  | nil =>
    cases rest with
    | nil => rfl
    | cons c rest =>
      have point : c ≠ '.' := by
        rintro rfl
        exact absurd (stops '.' rfl).1 (by decide)
      simp [fractionDigits, point]
  | cons c cs =>
    by_cases point : c = '.'
    · subst point
      exact stops.takeWhile_append (fun _ => isSymbolChar_of_isDigit) cs
    · simp [fractionDigits, point]

theorem Stops.readNumber_append (negative : Bool) (cs : List Char) :
    readNumber negative (cs ++ rest) = readNumber negative cs := by
  have digits := stops.takeWhile_append (fun _ => isSymbolChar_of_isDigit) cs
  have behind := stops.dropWhile_append (fun _ => isSymbolChar_of_isDigit) cs
  have fraction := stops.fractionDigits_append (cs.dropWhile Char.isDigit)
  have point : pointed (cs.dropWhile Char.isDigit ++ rest) =
      pointed (cs.dropWhile Char.isDigit) := by
    simp only [pointed, fraction]
  have spoil : excess (cs ++ rest) = excess cs := by
    simp only [excess, behind, point]
    rw [List.drop_append_of_le_length (pointed_isPrefix _).length_le]
    exact stops.takeWhile_append (fun _ => id) _
  simp only [readNumber_eq, spoil, numeralChars, digits, behind, point, fraction]

theorem Stops.readWord_append (c : Char) (cs : List Char) :
    readWord c (cs ++ rest) = readWord c cs := by
  unfold readWord
  rw [stops.takeWhile_append (fun _ => id), stops.dropWhile_append (fun _ => id)]
  cases cs.dropWhile isSymbolChar with
  | cons d more =>
    by_cases colon : d = ':'
    · subst colon
      rfl
    · simp [colon]
  | nil =>
    cases rest with
    | nil => rfl
    | cons d more => simp [(stops d rfl).2]

theorem Stops.readBare_append (c : Char) (cs : List Char) :
    readBare c (cs ++ rest) = readBare c cs := by
  have sign : (cs ++ rest).head?.any Char.isDigit = cs.head?.any Char.isDigit := by
    cases cs with
    | cons d more => rfl
    | nil =>
      cases rest with
      | nil => rfl
      | cons d more =>
        have letter : d.isDigit = false := by
          by_contra digit
          exact Bool.false_ne_true ((stops d rfl).1.symm.trans
            (isSymbolChar_of_isDigit (by simpa using digit)))
        simp [letter]
  have number := stops.readNumber_append false (c :: cs)
  rw [List.cons_append] at number
  simp only [readBare, sign, stops.readNumber_append true, number, stops.readWord_append]

end Stop

/-- Nothing behind the closing quote was looked at. -/
theorem quotedText_append (offset : Nat) (cs more : List Char)
    (closed : (quotedText offset cs).closed) :
    quotedText offset (cs ++ more) = quotedText offset cs := by
  fun_induction quotedText offset cs with
  | case1 | case2 => cases closed
  | case3 offset c rest after meant known ih => simp [quotedText, known, after, ih closed]
  | case4 offset c rest after unknown ih => simp [quotedText, unknown, after, ih closed]
  | case5 => simp [quotedText]
  | case6 offset c rest alone escaped quote after ih =>
    have plain : c ≠ '\\' := by
      rintro rfl
      cases rest with
      | nil => exact alone rfl rfl
      | cons d rest => exact escaped d rest rfl rfl
    rw [List.cons_append,
      quotedText.eq_4 _ _ _ (fun h => absurd h plain) (fun _ _ h => absurd h plain)]
    simp [quote, after, ih closed]

/-- A lexeme without flaws is the same whatever stops it. -/
theorem read_append_stops {c : Char} {cs rest : List Char} (flawless : (read c cs).flaws = [])
    (stops : Stops rest) : read c (cs ++ rest) = read c cs := by
  refine read_induction
    (P := fun _ reader => ∀ cs, (reader cs).flaws = [] → reader (cs ++ rest) = reader cs)
    ?_ ?_ ?_ ?_ ?_ c cs flawless
  · exact fun _ _ _ _ _ => rfl
  · intro cs clean
    simp only [readText, quotedText_append 1 cs rest (closed_of_readText clean)]
  · intro _ kind cs _
    simp only [readSigil, stops.takeWhile_append (fun _ => id)]
  · intro cs _
    simp only [readSlash, stops.takeWhile_append (fun _ => id)]
  · exact fun c cs _ => stops.readBare_append c cs

end Lexeme

/-! ### Gaps and lexemes of two texts -/

namespace Token

/-- What is skipped at the front of a text is skipped whatever comes behind it; then skipping goes
on, within a comment or not. -/
theorem skipped_cons {comment : Bool} {d : Char} {rest gap : List Char}
    (skips : skipped comment (d :: rest) = d :: gap) :
    ∃ within, skipped within rest = gap ∧
      ∀ other, skipped comment (d :: other) = d :: skipped within other := by
  cases comment with
  | true =>
    by_cases line : d = '\n' <;> simp only [skipped, line, if_true, if_false] at skips ⊢
    · exact ⟨false, (List.cons.inj skips).2, fun _ => rfl⟩
    · exact ⟨true, (List.cons.inj skips).2, fun _ => rfl⟩
  | false =>
    simp only [skipped] at skips ⊢
    split at skips
    · next blank => exact ⟨false, (List.cons.inj skips).2, fun _ => if_pos blank⟩
    · next notBlank =>
      split at skips
      · next mark =>
        exact ⟨true, (List.cons.inj skips).2, fun _ => by rw [if_neg notBlank, if_pos mark]⟩
      · cases skips

/-- Where skipping stops does not depend on what comes behind. -/
theorem skipped_stop {comment : Bool} {gap rest : List Char} {c : Char} (other : List Char)
    (skips : skipped comment (gap ++ c :: rest) = gap) :
    skipped comment (gap ++ c :: other) = gap := by
  induction gap generalizing comment with
  | nil =>
    cases comment with
    | true => by_cases line : c = '\n' <;> simp [skipped, line] at skips
    | false =>
      obtain ⟨notBlank, notComment⟩ := stop_of_skipped skips
      simp [skipped, notBlank, notComment]
  | cons d gap ih =>
    obtain ⟨within, skips, goes⟩ := skipped_cons skips
    rw [List.cons_append, goes, ih skips]

/-- A line feed ends a comment, and skipping goes on behind it. -/
theorem skipped_append_line {comment : Bool} {gap : List Char} (rest : List Char)
    (skips : skipped comment gap = gap) :
    skipped comment (gap ++ '\n' :: rest) = gap ++ '\n' :: skipped false rest := by
  induction gap generalizing comment with
  | nil =>
    have blank : Text.isBlank '\n' := by decide
    cases comment <;> simp [skipped, blank]
  | cons d gap ih =>
    obtain ⟨within, skips, goes⟩ := skipped_cons skips
    rw [List.cons_append, goes, ih skips, List.cons_append]

theorem Tiles.notEnd {here : Position} {cs : List Char} {lexed : List Token}
    (tiles : Tiles here cs lexed) : ∀ token ∈ lexed, token.kind.isEnd = false := by
  induction tiles with
  | gap => simp
  | lexeme _ _ notEnd _ ih =>
    exact List.forall_mem_cons.2 ⟨TokenKind.isEnd_eq_false_iff.2 notEnd, ih⟩

/-- A text and a line feed behind it are cut as the text is, and then what comes behind. -/
theorem Tiles.append_line {here : Position} {a b : List Char} {lexed lexed' : List Token}
    (front : Tiles here a lexed) (rear : Tiles ((here.after a).advance '\n') b lexed') :
    Tiles here (a ++ '\n' :: b) (lexed ++ lexed') := by
  induction front with
  | @gap here gap skips =>
    -- What was skipped at the end of the first text reaches over the line end into the second.
    have widened := fun rest => skipped_append_line rest skips
    cases rear with
    | gap more => exact .gap (by rw [widened, more])
    | @lexeme _ gap' tail rest c kind lexed stop reads notEnd more =>
      have place : here.after (gap ++ '\n' :: gap') =
          ((here.after gap).advance '\n').after gap' := by
        rw [Position.after_append, Position.after_cons]
      have skipsBoth : skipped false ((gap ++ '\n' :: gap') ++ (c :: tail ++ rest)) =
          gap ++ '\n' :: gap' := by
        rw [List.append_assoc, List.cons_append, widened, stop]
      have joined :=
        @Tiles.lexeme here _ _ _ _ _ _ skipsBoth reads notEnd (by rw [place]; exact more)
      rw [place] at joined
      simpa only [List.append_assoc, List.cons_append, List.nil_append] using joined
  | @lexeme here gap tail rest c kind lexed skips reads notEnd _ ih =>
    have flawless : (Lexeme.read c (tail ++ rest)).flaws = [] := by rw [reads]; rfl
    -- No lexeme goes on over a line end, so the last one is read as before.
    have stops : Lexeme.Stops ('\n' :: b) := by
      intro d first
      obtain rfl := Option.some.inj first
      decide
    have readsOn : Lexeme.read c (tail ++ (rest ++ '\n' :: b)) = Lexeme.sound tail kind := by
      rw [← List.append_assoc, Lexeme.read_append_stops flawless stops, reads]
    have skipsOn : skipped false (gap ++ (c :: tail ++ (rest ++ '\n' :: b))) = gap :=
      skipped_stop _ skips
    rw [Position.after_append, Position.after_append] at rear
    simpa only [List.append_assoc, List.cons_append] using
      Tiles.lexeme skipsOn readsOn notEnd (ih rear)

end Token

/-! ### Other lines -/

/-- A place some lines further down, in the same column. -/
def Position.down (lines : Nat) (here : Position) : Position := ⟨here.line + lines, here.column⟩

/-- A span some lines further down. -/
def Span.down (lines : Nat) (span : Span) : Span := ⟨span.first.down lines, span.last.down lines⟩

/-- A token some lines further down. -/
def Token.down (lines : Nat) (token : Token) : Token := ⟨token.kind, token.span.down lines⟩

namespace Position

theorem after_down (lines : Nat) (here : Position) (cs : List Char) :
    (here.down lines).after cs = (here.after cs).down lines := by
  induction cs generalizing here with
  | nil => rfl
  | cons c rest ih =>
    have step : (here.down lines).advance c = (here.advance c).down lines := by
      unfold advance down
      split <;> simp [Nat.add_right_comm]
    rw [after_cons, after_cons, step, ih]

theorem before_down (lines : Nat) (a b : Position) :
    (a.down lines).before (b.down lines) = a.before b := by
  rw [Bool.eq_iff_iff, before_iff, before_iff]
  simp only [down]
  omega

/-- A text takes one down by its line feeds. -/
theorem line_after (here : Position) (cs : List Char) :
    (here.after cs).line = here.line + cs.count '\n' := by
  induction cs generalizing here with
  | nil => rfl
  | cons c rest ih =>
    rw [after_cons, ih, List.count_cons]
    by_cases line : c = '\n'
    · simp only [advance, line, if_true, beq_self_eq_true]
      omega
    · simp [advance, line]

/-- Behind a line feed one stands at the start of a line. -/
theorem advance_line_after (cs : List Char) :
    (start.after cs).advance '\n' = start.down (1 + cs.count '\n') := by
  simp only [advance, if_true, line_after, down, start]
  congr 1
  omega

end Position

theorem Span.merge_down (lines : Nat) (a b : Span) :
    (a.down lines).merge (b.down lines) = (a.merge b).down lines := by
  simp only [merge, down, Position.before_down]
  congr 1 <;> split <;> rfl

/-- A text that starts further down is cut in the same way. -/
theorem Token.Tiles.down (lines : Nat) {here : Position} {cs : List Char} {lexed : List Token}
    (tiles : Tiles here cs lexed) : Tiles (here.down lines) cs (lexed.map (Token.down lines)) := by
  induction tiles with
  | gap skips => exact .gap skips
  | @lexeme here gap tail rest c kind lexed skips reads notEnd _ ih =>
    have place : ∀ text, ((here.down lines).after gap).after text =
        ((here.after gap).after text).down lines := by simp only [Position.after_down, implies_true]
    have moved :=
      @Tiles.lexeme (here.down lines) _ _ _ _ _ _ skips reads notEnd (by rw [place]; exact ih)
    rw [place, Position.after_down] at moved
    exact moved

namespace Node

mutual

/-- A node with another span, found from the one it has, for itself and for each node below it. -/
def relocate (move : Span → Span) : Node → Node
  | word kind symbol span => word kind symbol (move span)
  | path kind segments span => path kind segments (move span)
  | group bracket items span => group bracket (relocateAll move items) (move span)
  | number value span => number value (move span)
  | text value span => text value (move span)
  | refinement name span => refinement name (move span)

/-- Nodes with other spans. -/
def relocateAll (move : Span → Span) : List Node → List Node
  | [] => []
  | node :: rest => relocate move node :: relocateAll move rest

end

/-- Where a token stands decides only where its node stands. -/
theorem leaf?_move (move : Span → Span) (kind : TokenKind) (span : Span) :
    leaf? ⟨kind, move span⟩ = (leaf? ⟨kind, span⟩).map (relocate move) := by
  cases kind with
  | word wordKind symbol =>
    simp only [leaf?, ofWord]
    split
    · split <;> rfl
    · rfl
  | _ => rfl

theorem Forest.down (lines : Nat) {depth : Nat} {tokens : List Token} {nodes : List Node}
    (forest : Forest depth tokens nodes) :
    Forest depth (tokens.map (Token.down lines)) (relocateAll (Span.down lines) nodes) := by
  induction forest with
  | nil => exact .nil
  | @leaf _ token node _ _ stands _ ih =>
    refine .leaf ?_ ih
    rw [Token.down, leaf?_move, show leaf? ⟨token.kind, token.span⟩ = some node from stands]
    rfl
  | @group _ bracket opened closed _ _ _ _ _ _ insideIh restIh =>
    have moved := @Forest.group _ bracket (opened.down lines) (closed.down lines) _ _ _ _
      insideIh restIh
    rw [Span.merge_down] at moved
    simpa [relocateAll, relocate, Token.down] using moved

/-! ### Reading -/

/-- A text is read when it is cut into lexemes and their tokens stand for nodes. -/
theorem parse_eq_ok_iff {source : SourceText} {nodes : List Node} :
    parse source = .ok nodes ↔ ∃ lexed, Token.Tiles Position.start source.chars lexed ∧
      Forest maxDepth lexed nodes := by
  have marks : ∀ place, Trailing [Token.endAt place] := by
    rintro place token first
    obtain rfl := Option.some.inj first
    rfl
  constructor
  · intro parsed
    have none : ((Token.scan source).2.extend (ofTokens source (Token.scan source).1).2).any =
        false := by
      by_contra found
      rw [Bool.not_eq_false] at found
      simp [parse, found] at parsed
    have result : (ofTokens source (Token.scan source).1).1 = nodes := by
      simpa [parse, none] using parsed
    obtain ⟨scanned, nested⟩ := Diagnostics.any_extend_eq_false none
    obtain ⟨lexed, tiles, scan⟩ := Token.scan_clean_iff.1 scanned
    rw [scan] at nested result
    exact ⟨lexed, tiles, result ▸ (forest_of_clean tiles.notEnd (marks _) nested).1⟩
  · rintro ⟨lexed, tiles, forest⟩
    have scan : Token.scan source = (lexed ++ [Token.endAt (Position.start.after source.chars)],
        Diagnostics.empty) := tiles.tokens_eq source rfl
    have nested := (@ofTokens_eq_iff source _ _ _ tiles.notEnd
      (marks (Position.start.after source.chars))).2 forest
    have none : (Diagnostics.empty.extend Diagnostics.empty).any = false := rfl
    simp [parse, scan, nested, none]

/-- Two texts that can be read, with a line feed between them, are read as the nodes of the first
and then those of the second. These stand, at every depth, as many lines further down as there are
line feeds before the second text, in the same columns. -/
theorem parse_append_line (a b joined : SourceText) (nodes nodes' : List Node)
    (text : joined.chars = a.chars ++ '\n' :: b.chars) (first : parse a = .ok nodes)
    (second : parse b = .ok nodes') :
    parse joined =
      .ok (nodes ++ relocateAll (Span.down (1 + a.chars.count '\n')) nodes') := by
  obtain ⟨lexed, tiles, forest⟩ := parse_eq_ok_iff.1 first
  obtain ⟨lexed', tiles', forest'⟩ := parse_eq_ok_iff.1 second
  refine parse_eq_ok_iff.2
    ⟨lexed ++ lexed'.map (Token.down (1 + a.chars.count '\n')), ?_, forest.append (forest'.down _)⟩
  have below := tiles'.down (1 + a.chars.count '\n')
  rw [← Position.advance_line_after] at below
  rw [text]
  exact tiles.append_line below

/-- The first text ends in a comment, and the second one has a line feed of its own. -/
theorem parse_append_line_behind_comment :
    ∃ nodes nodes', parse (.ofString "a" "a: 'x ; note") = .ok nodes ∧
      parse (.ofString "b" "[b]\n:c") = .ok nodes' ∧
      parse (.ofString "both" "a: 'x ; note\n[b]\n:c") =
        .ok (nodes ++ relocateAll (Span.down 1) nodes') := by
  have readable : ∀ source, (parse source).isOk → ∃ nodes, parse source = .ok nodes := by
    intro source
    cases parse source with
    | error found => nofun
    | ok nodes => exact fun _ => ⟨nodes, rfl⟩
  obtain ⟨nodes, first⟩ := readable (.ofString "a" "a: 'x ; note") (by decide +kernel)
  obtain ⟨nodes', second⟩ := readable (.ofString "b" "[b]\n:c") (by decide +kernel)
  exact ⟨nodes, nodes', first, second, parse_append_line _ _ _ _ _ (by decide) first second⟩

end Node

end Wordstream
