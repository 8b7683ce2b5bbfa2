import Wordstream.Proofs.Composition

/-!
# Printing and reading again

A node in source notation is read as the same node. Sigils stand in front of symbols as they did,
a text is quoted with escapes that the scanner knows, and a path has a slash wherever it had a
separator. Every printed lexeme is followed by a space, a bracket or the end, and each of those
stops it.

Numbers are left out: a number is printed as an integer within sixty-four bits and loses what does
not fit.

## Main results

* `Lexeme.Wordly.spells` — a word that could be written is written as it is printed
* `Node.Forest.prints` — the printed nodes of a text are read again
* `Node.parse_displays` — printing and reading give the nodes of a text back
-/

namespace Wordstream

/-! ### Lexemes on their own -/

namespace Lexeme

/-- The characters of a lexeme and the token that they make. -/
def Spells (cs : List Char) (kind : TokenKind) : Prop :=
  ∃ c tail, cs = c :: tail ∧ Text.isBlank c = false ∧ c ≠ ';' ∧ read c tail = sound tail kind

/-- A word without a sigil in front: no marker and no number starts it. -/
structure Bare (c : Char) (rest : List Char) : Prop where
  unmarked : c ∉ markers
  unsigned : ¬ (c = '-' ∧ rest.head?.any Char.isDigit)
  letter : ¬ c.isDigit
  symbol : ∀ d ∈ c :: rest, isSymbolChar d

/-- The symbols that a word of a kind can have. A slash alone is a word; every other word without a
sigil in front is bare. -/
def Wordly : WordKind → List Char → Prop
  | .quote, symbol | .get, symbol => symbol ≠ [] ∧ ∀ c ∈ symbol, isSymbolChar c
  | .set, symbol => ∃ c rest, symbol = c :: rest ∧ Bare c rest
  | .plain, symbol => symbol = ['/'] ∨ ∃ c rest, symbol = c :: rest ∧ Bare c rest

/-! What is read behind a marker, and what without one. -/

theorem token_readSigil {kind : WordKind} {cs : List Char} {token : TokenKind}
    (reads : (readSigil kind cs).token = some token) :
    ∃ symbol, token = .word kind symbol ∧ symbol.toList ≠ [] ∧
      ∀ c ∈ symbol.toList, isSymbolChar c := by
  unfold readSigil at reads
  split at reads
  · cases reads
  · rename_i some
    cases reads
    refine ⟨_, rfl, ?_⟩
    rw [String.toList_ofList]
    exact ⟨some, fun c mem => List.mem_takeWhile_imp mem⟩

theorem token_readSlash {cs : List Char} {token : TokenKind}
    (reads : (readSlash cs).token = some token) :
    token = .word .plain "/" ∨ ∃ name, token = .refinement name ∧ name.toList ≠ [] ∧
      ∀ c ∈ name.toList, isSymbolChar c := by
  unfold readSlash at reads
  split at reads
  · cases reads
    exact Or.inl rfl
  · rename_i some
    cases reads
    refine Or.inr ⟨_, rfl, ?_⟩
    rw [String.toList_ofList]
    exact ⟨some, fun c mem => List.mem_takeWhile_imp mem⟩

theorem token_readNumber {negative : Bool} {cs : List Char} {token : TokenKind}
    (reads : (readNumber negative cs).token = some token) : ∃ value, token = .number value := by
  rw [readNumber_eq] at reads
  split at reads <;> cases reads <;> exact ⟨_, rfl⟩

/-- What starts without a marker is a number or a bare word. -/
theorem token_readBare {c : Char} {cs : List Char} {token : TokenKind} (unmarked : c ∉ markers)
    (reads : (readBare c cs).token = some token) :
    (∃ value, token = .number value) ∨ ∃ kind symbol, token = .word kind symbol ∧
      (kind = .plain ∨ kind = .set) ∧ ∃ d rest, symbol.toList = d :: rest ∧ Bare d rest := by
  -- A sign with a digit behind it or a digit begins a number, and any other symbol a word.
  by_cases sign : c = '-' ∧ cs.head?.any Char.isDigit
  · obtain ⟨rfl, digits⟩ := sign
    exact Or.inl (token_readNumber (readBare_signed digits ▸ reads))
  by_cases digit : c.isDigit
  · exact Or.inl (token_readNumber (readBare_digit digit cs ▸ reads))
  have isSymbol : isSymbolChar c := by
    by_contra other
    have unsigned : (c = '-' && cs.head?.any Char.isDigit) = false := by simpa using sign
    simp [readBare, unsigned, digit, other] at reads
  rw [readBare_word sign digit isSymbol] at reads
  have bare : Bare c (cs.takeWhile isSymbolChar) := by
    refine ⟨unmarked, fun signed => sign ⟨signed.1, ?_⟩, digit, ?_⟩
    · have digits := signed.2
      -- The digit behind the sign would be the first character of the symbol that was taken.
      cases cs with
      | nil => cases digits
      | cons d rest =>
        rw [List.takeWhile_cons] at digits
        split at digits
        · exact digits
        · cases digits
    · exact List.forall_mem_cons.2 ⟨isSymbol, fun d mem => List.mem_takeWhile_imp mem⟩
  have symbol : (String.ofList (c :: cs.takeWhile isSymbolChar)).toList =
      c :: cs.takeWhile isSymbolChar := String.toList_ofList
  unfold readWord at reads
  split at reads <;> cases reads
  · exact Or.inr ⟨.set, _, rfl, Or.inr rfl, c, _, symbol, bare⟩
  · exact Or.inr ⟨.plain, _, rfl, Or.inl rfl, c, _, symbol, bare⟩

/-- What a token can be that was read: a word or a refinement has a symbol that its kind can
have. -/
theorem Spells.wellFormed {cs : List Char} {token : TokenKind} (spells : Spells cs token) :
    (∀ kind symbol, token = .word kind symbol → Wordly kind symbol.toList) ∧
      ∀ name, token = .refinement name → name.toList ≠ [] ∧ ∀ c ∈ name.toList, isSymbolChar c := by
  obtain ⟨c, tail, rfl, -, -, reads⟩ := spells
  replace reads : (read c tail).token = some token := by rw [reads]; rfl
  by_cases mark : c ∈ markers
  · simp only [markers, List.mem_cons, List.not_mem_nil, or_false] at mark
    rcases mark with rfl | rfl | rfl | rfl | rfl | rfl | rfl | rfl
    -- The two sigils, the slash, and then all that is no word.
    case inr.inr.inr.inr.inr.inl | inr.inr.inr.inr.inr.inr.inl =>
      obtain ⟨symbol, rfl, made⟩ := token_readSigil reads
      refine ⟨fun kind other same => ?_, fun _ same => by cases same⟩
      cases same
      exact made
    case inr.inr.inr.inr.inr.inr.inr =>
      rcases token_readSlash reads with rfl | ⟨name, rfl, made⟩
      · refine ⟨fun kind other same => ?_, fun _ same => by cases same⟩
        cases same
        exact Or.inl rfl
      · refine ⟨fun _ _ same => (by cases same), fun other same => ?_⟩
        cases same
        exact made
    all_goals
      cases reads
      exact ⟨fun _ _ same => (by cases same), fun _ same => by cases same⟩
  · rw [read_eq_readBare mark] at reads
    rcases token_readBare mark reads with ⟨value, rfl⟩ | ⟨kind, symbol, rfl, unsealed, made⟩
    · exact ⟨fun _ _ same => (by cases same), fun _ same => by cases same⟩
    · refine ⟨fun kind other same => ?_, fun _ same => by cases same⟩
      cases same
      rcases unsealed with rfl | rfl
      · exact Or.inr made
      · exact made

/-! ### What is printed is spelled -/

theorem takeWhile_symbol {cs : List Char} (symbol : ∀ c ∈ cs, isSymbolChar c) :
    cs.takeWhile isSymbolChar = cs :=
  List.takeWhile_eq_self_iff.2 symbol

theorem readSigil_symbol (kind : WordKind) {cs : List Char} (some : cs ≠ [])
    (symbol : ∀ c ∈ cs, isSymbolChar c) :
    readSigil kind cs = sound cs (.word kind (String.ofList cs)) := by
  unfold readSigil
  rw [takeWhile_symbol symbol]
  split
  · contradiction
  · rfl

theorem readSlash_symbol {cs : List Char} (some : cs ≠ []) (symbol : ∀ c ∈ cs, isSymbolChar c) :
    readSlash cs = sound cs (.refinement (String.ofList cs)) := by
  unfold readSlash
  rw [takeWhile_symbol symbol]
  split
  · contradiction
  · rfl

section Bare

variable {c : Char} {rest : List Char} (bare : Bare c rest)
include bare

theorem Bare.skips : Text.isBlank c = false ∧ c ≠ ';' := by
  have symbol := bare.symbol c List.mem_cons_self
  refine ⟨?_, ?_⟩
  · by_contra blank
    simp [isSymbolChar, blank] at symbol
  · rintro rfl
    exact absurd symbol (by decide)

theorem Bare.read_plain : read c rest = sound rest (.word .plain (String.ofList (c :: rest))) := by
  have all : ∀ d ∈ rest, isSymbolChar d := fun d mem => bare.symbol d (List.mem_cons_of_mem _ mem)
  rw [read_eq_readBare bare.unmarked,
    readBare_word bare.unsigned bare.letter (bare.symbol c List.mem_cons_self), readWord,
    takeWhile_symbol all, List.dropWhile_eq_nil_iff.2 all]

theorem Bare.read_set :
    read c (rest ++ [':']) = sound (rest ++ [':']) (.word .set (String.ofList (c :: rest))) := by
  have all : ∀ d ∈ rest, isSymbolChar d := fun d mem => bare.symbol d (List.mem_cons_of_mem _ mem)
  have colon : [':'].takeWhile isSymbolChar = [] := by decide
  have unsigned : ¬ (c = '-' ∧ (rest ++ [':']).head?.any Char.isDigit) := by
    rintro ⟨minus, digits⟩
    cases rest with
    | nil => exact absurd digits (by decide)
    | cons d rest => exact bare.unsigned ⟨minus, digits⟩
  rw [read_eq_readBare bare.unmarked,
    readBare_word unsigned bare.letter (bare.symbol c List.mem_cons_self), readWord,
    takeWhile_append_stop all colon, dropWhile_append_stop all colon]
  rfl

end Bare

/-- A word is printed as it can be written. -/
theorem Wordly.spells {kind : WordKind} {symbol : String} (wordly : Wordly kind symbol.toList) :
    Spells (kind.decorate symbol).toList (.word kind symbol) := by
  have back : String.ofList symbol.toList = symbol := String.ofList_toList
  cases kind with
  | quote =>
    have reads := readSigil_symbol .quote wordly.1 wordly.2
    rw [back] at reads
    exact ⟨'\'', symbol.toList, by simp [WordKind.decorate], by decide, by decide, reads⟩
  | get =>
    have reads := readSigil_symbol .get wordly.1 wordly.2
    rw [back] at reads
    exact ⟨':', symbol.toList, by simp [WordKind.decorate], by decide, by decide, reads⟩
  | set =>
    obtain ⟨c, rest, split, bare⟩ := wordly
    refine ⟨c, rest ++ [':'], by simp [WordKind.decorate, split], bare.skips.1, bare.skips.2, ?_⟩
    rw [bare.read_set, ← split, back]
  | plain =>
    -- The slash alone is a word, though words cannot start with it.
    rcases wordly with slash | ⟨c, rest, split, bare⟩
    · obtain rfl : symbol = "/" := by rw [← back, slash]
      exact ⟨'/', [], rfl, by decide, by decide, rfl⟩
    · refine ⟨c, rest, by simp [WordKind.decorate, split], bare.skips.1, bare.skips.2, ?_⟩
      rw [bare.read_plain, ← split, back]

theorem spells_refinement {name : String} (some : name.toList ≠ [])
    (symbol : ∀ c ∈ name.toList, isSymbolChar c) :
    Spells ("/" ++ name).toList (.refinement name) := by
  refine ⟨'/', name.toList, by simp, by decide, by decide, ?_⟩
  rw [show read '/' name.toList = readSlash name.toList from rfl, readSlash_symbol some symbol,
    String.ofList_toList]

end Lexeme

/-- Characters that quoted text shows as themselves or by one of the escapes that are read. -/
def Text.Escapable (c : Char) : Prop :=
  Text.escape c ∈ [[c], ['\\', '"'], ['\\', '\\'], ['\\', 'n'], ['\\', 'r'], ['\\', 't']]

instance : DecidablePred Text.Escapable := fun c =>
  inferInstanceAs (Decidable (Text.escape c ∈ _))

namespace Lexeme

/-- A character stands for itself between quotes, or behind a backslash for a letter that is read
as the character. -/
theorem escape_cases {c : Char} (escapable : Text.Escapable c) :
    (Text.escape c = [c] ∧ c ≠ '"' ∧ c ≠ '\\') ∨
      ∃ letter, Text.escape c = ['\\', letter] ∧ unescape? letter = some c := by
  unfold Text.Escapable at escapable
  unfold Text.escape at escapable ⊢
  split
  · exact Or.inr ⟨_, rfl, rfl⟩
  · exact Or.inr ⟨_, rfl, rfl⟩
  · exact Or.inr ⟨_, rfl, rfl⟩
  · exact Or.inr ⟨_, rfl, rfl⟩
  · exact Or.inr ⟨_, rfl, rfl⟩
  · exact absurd escapable (by decide)
  · rename_i quote backslash _ _ _ _
    split
    · exact Or.inl ⟨rfl, quote, backslash⟩
    · rename_i hidden
      simp [hidden] at escapable

/-- A text between quotes is read as the text. -/
theorem quotedText_flatMap_escape {value : List Char} (escapable : ∀ c ∈ value, Text.Escapable c)
    (offset : Nat) :
    quotedText offset (value.flatMap Text.escape ++ ['"']) =
      ⟨value.flatMap Text.escape ++ ['"'], value, [], true⟩ := by
  induction value generalizing offset with
  | nil => simp [quotedText]
  | cons c value ih =>
    obtain ⟨first, others⟩ := List.forall_mem_cons.1 escapable
    rcases escape_cases first with ⟨itself, quote, backslash⟩ | ⟨letter, escaped, meant⟩
    · rw [List.flatMap_cons, itself, List.append_assoc, List.singleton_append, quotedText.eq_4 _ _ _
        (fun h => absurd h backslash) (fun _ _ h => absurd h backslash)]
      simp [quote, ih others]
    · rw [List.flatMap_cons, escaped]
      simp [quotedText, meant, ih others]

theorem spells_quoted {value : String} (escapable : ∀ c ∈ value.toList, Text.Escapable c) :
    Spells (Text.quoted value).toList (.text value) := by
  refine ⟨'"', value.toList.flatMap Text.escape ++ ['"'], by simp [Text.quoted], by decide,
    by decide, ?_⟩
  have body := quotedText_flatMap_escape escapable 1
  rw [show ∀ cs, read '"' cs = readText cs from fun _ => rfl]
  simp [readText, body, sound]

end Lexeme

/-! ### Paths -/

namespace Node

/-- The character with which a separator is printed. -/
def slash (c : Char) : Char := if isSeparator c then '/' else c

theorem isSeparator_slash (c : Char) : isSeparator (slash c) = isSeparator c := by
  unfold slash
  split
  · rename_i divides
    rw [divides]
    rfl
  · rfl

theorem slash_of_not_isSeparator {c : Char} (within : ¬ isSeparator c) : slash c = c :=
  if_neg within

theorem isSymbolChar_slash {c : Char} (symbol : Lexeme.isSymbolChar c) :
    Lexeme.isSymbolChar (slash c) := by
  unfold slash
  split
  · decide
  · exact symbol

theorem segments_ne_nil (cs : List Char) : segments cs ≠ [] := by
  rw [segments_eq_splitOnP]
  exact List.splitOnP_ne_nil _ _

/-- The segments of a path with slashes between them: the path with slashes for separators. -/
theorem intercalate_segments (cs : List Char) :
    ['/'].intercalate (segments cs) = cs.map slash := by
  induction cs with
  | nil => rfl
  | cons c rest ih =>
    cases cut : segments rest with
    | nil => exact absurd cut (segments_ne_nil rest)
    | cons segment more =>
      rw [cut] at ih
      by_cases divides : isSeparator c
      · simp [segments, divides, cut, List.map_cons, ← ih, slash, List.intercalate]
      · rw [segments, if_neg divides, cut, List.map_cons, ← ih, slash_of_not_isSeparator divides]
        cases more <;> simp [List.intercalate]

/-- Which separator divides a path makes no difference to its segments. -/
theorem segments_map_slash (cs : List Char) : segments (cs.map slash) = segments cs := by
  induction cs with
  | nil => rfl
  | cons c rest ih =>
    rw [List.map_cons, segments, segments, isSeparator_slash, ih]
    by_cases divides : isSeparator c
    · simp [divides]
    · simp [divides, slash_of_not_isSeparator divides]

theorem toList_joinPath (symbol : String) :
    (joinPath ((segments symbol.toList).map String.ofList)).toList = symbol.toList.map slash := by
  rw [joinPath, String.toList_intercalate, List.map_map]
  have back : (String.toList ∘ String.ofList) = id := by
    funext cs
    exact String.toList_ofList
  rw [back, List.map_id]
  exact intercalate_segments _

/-- A path is printed as a word that its kind can have. -/
theorem wordly_joinPath {kind : WordKind} {symbol : String}
    (wordly : Lexeme.Wordly kind symbol.toList) (path : isPath symbol)
    (full : ¬ (segments symbol.toList).any List.isEmpty) :
    Lexeme.Wordly kind (joinPath ((segments symbol.toList).map String.ofList)).toList := by
  rw [toList_joinPath]
  have symbols : (∀ c ∈ symbol.toList, Lexeme.isSymbolChar c) →
      ∀ c ∈ symbol.toList.map slash, Lexeme.isSymbolChar c := by
    intro all c mem
    obtain ⟨d, within, rfl⟩ := List.mem_map.1 mem
    exact isSymbolChar_slash (all d within)
  have bare : (∃ c rest, symbol.toList = c :: rest ∧ Lexeme.Bare c rest) →
      ∃ c rest, symbol.toList.map slash = c :: rest ∧ Lexeme.Bare c rest := by
    rintro ⟨c, rest, split, bare⟩
    -- A separator in front would leave an empty segment.
    have first : slash c = c := by
      refine slash_of_not_isSeparator fun divides => full ?_
      simp [split, segments, divides]
    refine ⟨c, rest.map slash, by rw [split, List.map_cons, first], bare.unmarked, ?_,
      bare.letter, ?_⟩
    · rintro ⟨minus, digits⟩
      refine bare.unsigned ⟨minus, ?_⟩
      cases rest with
      | nil => exact digits
      | cons d rest =>
        -- A separator that was changed is no digit, and the others are as they were.
        by_cases divides : isSeparator d
        · simp [slash, divides] at digits
        · simpa [slash_of_not_isSeparator divides] using digits
    · have all := symbols (split ▸ bare.symbol)
      rwa [split, List.map_cons, first] at all
  cases kind with
  | quote | get => exact ⟨by simpa using wordly.1, symbols wordly.2⟩
  | set => exact bare wordly
  | plain =>
    rcases wordly with alone | wordly
    · exact absurd path (by simp [isPath, alone])
    · exact Or.inr (bare wordly)

theorem isPath_joinPath {symbol : String} (path : isPath symbol) :
    isPath (joinPath ((segments symbol.toList).map String.ofList)) := by
  rw [isPath_iff] at path ⊢
  obtain ⟨c, mem, divides⟩ := path
  refine ⟨slash c, ?_, by rwa [isSeparator_slash]⟩
  rw [toList_joinPath, ← List.map_tail]
  exact List.mem_map_of_mem mem

/-! ### Nodes -/

/-- Nodes without their places. -/
def bare (nodes : List Node) : List Node := relocateAll (fun _ => Span.point Position.start) nodes

/-- A node that is printed without loss, apart from those below it: no number, and no text with a
character that is printed by an escape which is not read. -/
def Printable : Node → Prop
  | number _ _ => False
  | text value _ => ∀ c ∈ value.toList, Text.Escapable c
  | _ => True

instance : DecidablePred Printable
  | number _ _ => isFalse id
  | text value _ => List.decidableBAll Text.Escapable value.toList
  | word .. | path .. | group .. | refinement .. => isTrue trivial

mutual

theorem relocate_relocate (f g : Span → Span) : ∀ node : Node,
    relocate f (relocate g node) = relocate (f ∘ g) node
  | word .. | path .. | number .. | text .. | refinement .. => rfl
  | group bracket items span => by
    rw [relocate, relocate, relocate, relocateAll_relocateAll f g items]
    rfl

theorem relocateAll_relocateAll (f g : Span → Span) : ∀ nodes : List Node,
    relocateAll f (relocateAll g nodes) = relocateAll (f ∘ g) nodes
  | [] => rfl
  | node :: rest => by
    rw [relocateAll, relocateAll, relocateAll, relocate_relocate f g node,
      relocateAll_relocateAll f g rest]

end

/-- A leaf is printed as a lexeme that is read as the same leaf, wherever it stands. -/
theorem spells_display {token : Token} {node : Node} (stands : leaf? token = some node)
    {cs : List Char} (spells : Lexeme.Spells cs token.kind) (printable : node.Printable) :
    ∃ kind, Lexeme.Spells node.display.toList kind ∧
      ∀ span, ∃ node', leaf? ⟨kind, span⟩ = some node' ∧ bare [node'] = bare [node] := by
  have anywhere : ∀ span, ∃ node', leaf? ⟨token.kind, span⟩ = some node' ∧
      bare [node'] = bare [node] := by
    intro span
    refine ⟨relocate (fun _ => span) node, ?_, ?_⟩
    · have moved := leaf?_move (fun _ => span) token.kind token.span
      rwa [show leaf? ⟨token.kind, token.span⟩ = some node from stands] at moved
    · rw [bare, relocateAll, relocate_relocate]
      rfl
  obtain ⟨kind, span⟩ := token
  cases kind with
  | opening | closing | endOfText => cases stands
  | number value =>
    cases stands
    exact absurd printable id
  | text value =>
    cases stands
    exact ⟨_, Lexeme.spells_quoted printable, anywhere⟩
  | refinement name =>
    cases stands
    obtain ⟨some, symbol⟩ := spells.wellFormed.2 name rfl
    exact ⟨_, Lexeme.spells_refinement some symbol, anywhere⟩
  | word kind symbol =>
    have wordly := spells.wellFormed.1 kind symbol rfl
    by_cases path : isPath symbol
    · by_cases empty : (segments symbol.toList).any List.isEmpty
      · simp [leaf?, ofWord, path, empty, Except.toOption] at stands
      · -- Whatever divided the segments, they are printed with slashes and divided there again.
        have whole : leaf? ⟨.word kind symbol, span⟩ =
            some (.path kind ((segments symbol.toList).map String.ofList) span) := by
          simp only [leaf?, ofWord, path, empty, Except.toOption, if_true]
          rfl
        obtain rfl := Option.some.inj (whole.symm.trans stands)
        refine ⟨_, (wordly_joinPath wordly path empty).spells, fun span' => ?_⟩
        refine ⟨.path kind ((segments symbol.toList).map String.ofList) span', ?_, rfl⟩
        have same : segments (joinPath ((segments symbol.toList).map String.ofList)).toList =
            segments symbol.toList := by rw [toList_joinPath, segments_map_slash]
        simp only [leaf?, ofWord, isPath_joinPath path, same, empty, Except.toOption, if_true]
        rfl
    · have whole : leaf? ⟨.word kind symbol, span⟩ = some (.word kind symbol span) := by
        simp only [leaf?, ofWord, path, Except.toOption]
        rfl
      obtain rfl := Option.some.inj (whole.symm.trans stands)
      exact ⟨_, wordly.spells, anywhere⟩

/-! ### Texts of nodes -/

end Node

namespace Token.Tiles

variable {here : Position} {rest : List Char} {lexed : List Token}

/-- A lexeme in front of a text that is cut. -/
theorem cons_lexeme {c : Char} {tail : List Char} {kind : TokenKind}
    (shown : Text.isBlank c = false) (code : c ≠ ';')
    (reads : Lexeme.read c (tail ++ rest) = Lexeme.sound tail kind)
    (more : Tiles (here.after (c :: tail)) rest lexed) :
    Tiles here (c :: tail ++ rest) (⟨kind, Span.upTo here (here.after (c :: tail))⟩ :: lexed) := by
  have flawless : (Lexeme.read c (tail ++ rest)).flaws = [] := by rw [reads]; rfl
  obtain ⟨kind', same, notEnd⟩ := Lexeme.exists_sound flawless
  rw [reads] at same
  obtain rfl : kind = kind' := by cases same; rfl
  exact @Tiles.lexeme _ [] _ _ _ _ _ (by simp [skipped, shown, code]) reads notEnd more

theorem cons_spells {cs : List Char} {kind : TokenKind} (spells : Lexeme.Spells cs kind)
    (stops : Lexeme.Stops rest) (more : Tiles (here.after cs) rest lexed) :
    Tiles here (cs ++ rest) (⟨kind, Span.upTo here (here.after cs)⟩ :: lexed) := by
  obtain ⟨c, tail, rfl, shown, code, reads⟩ := spells
  refine cons_lexeme shown code ?_ more
  rw [Lexeme.read_append_stops (by rw [reads]; rfl) stops, reads]

/-- A blank in front of a text that is cut. -/
theorem cons_blank {b : Char} (blank : Text.isBlank b) (more : Tiles (here.advance b) rest lexed) :
    Tiles here (b :: rest) lexed := by
  cases more with
  | gap skips => exact .gap (by simp [skipped, blank, skips])
  | @lexeme _ gap _ _ _ _ _ skips reads notEnd more =>
    exact @Tiles.lexeme _ (b :: gap) _ _ _ _ _ (by simpa [skipped, blank] using skips) reads notEnd
      more

/-- Each token of a text is spelled somewhere in it. -/
theorem spells {here : Position} {cs : List Char} {lexed : List Token}
    (tiles : Tiles here cs lexed) : ∀ token ∈ lexed, ∃ cs, Lexeme.Spells cs token.kind := by
  induction tiles with
  | gap => simp
  | @lexeme _ _ tail rest c kind _ skips reads _ _ ih =>
    refine List.forall_mem_cons.2 ⟨⟨c :: tail, c, tail, rfl, ?_⟩, ih⟩
    obtain ⟨notBlank, notComment⟩ := stop_of_skipped skips
    have alone := @Lexeme.read_alone c (tail ++ rest) (by rw [reads]; rfl)
    rw [reads] at alone
    exact ⟨by simpa using notBlank, notComment, alone⟩

end Token.Tiles

namespace Node

/-- A text that is read as given nodes up to their spans, wherever it starts and whatever comes
behind it and stops it. -/
def Prints (depth : Nat) (nodes : List Node) (text : List Char) : Prop :=
  ∀ (here : Position) (rest : List Char) (behind : List Token), Lexeme.Stops rest →
    Token.Tiles (here.after text) rest behind →
    ∃ lexed nodes', Token.Tiles here (text ++ rest) (lexed ++ behind) ∧
      Forest depth lexed nodes' ∧ bare nodes' = bare nodes

theorem Prints.nil {depth : Nat} : Prints depth [] [] :=
  fun _ _ _ _ tiles => ⟨[], [], tiles, .nil, rfl⟩

theorem Prints.space {depth : Nat} {nodes : List Node} {text : List Char}
    (prints : Prints depth nodes text) : Prints depth nodes (' ' :: text) := by
  intro here rest behind stops tiles
  obtain ⟨lexed, nodes', cut, forest, same⟩ := prints (here.advance ' ') rest behind stops tiles
  exact ⟨lexed, nodes', cut.cons_blank (by decide), forest, same⟩

theorem Prints.leaf {depth : Nat} {node : Node} {nodes : List Node} {kind : TokenKind}
    {text : List Char} (spells : Lexeme.Spells node.display.toList kind)
    (stands : ∀ span, ∃ node', leaf? ⟨kind, span⟩ = some node' ∧ bare [node'] = bare [node])
    (apart : Lexeme.Stops text) (prints : Prints depth nodes text) :
    Prints depth (node :: nodes) (node.display.toList ++ text) := by
  intro here rest behind stops tiles
  rw [Position.after_append] at tiles
  obtain ⟨lexed, nodes', cut, forest, same⟩ := prints _ rest behind stops tiles
  have stopped : Lexeme.Stops (text ++ rest) := by
    cases text with
    | nil => exact stops
    | cons c text => exact apart
  obtain ⟨node', read, alike⟩ := stands (Span.upTo here (here.after node.display.toList))
  refine ⟨_, node' :: nodes', ?_, .leaf read forest, ?_⟩
  · rw [List.append_assoc]
    exact cut.cons_spells spells stopped
  · simp only [bare, relocateAll, List.cons.injEq, and_true] at alike same ⊢
    exact ⟨alike, same⟩

/-- How a bracket is read. -/
theorem read_opening (bracket : Bracket) : ∃ c, bracket.opening.toList = [c] ∧
    Text.isBlank c = false ∧ c ≠ ';' ∧
    ∀ rest, Lexeme.read c rest = Lexeme.sound [] (.opening bracket) := by
  cases bracket with
  | square => exact ⟨'[', by decide, by decide, by decide, fun _ => rfl⟩
  | round => exact ⟨'(', by decide, by decide, by decide, fun _ => rfl⟩

theorem read_closing (bracket : Bracket) : ∃ c, bracket.closing.toList = [c] ∧
    Text.isBlank c = false ∧ c ≠ ';' ∧ (Lexeme.isSymbolChar c = false ∧ c ≠ ':') ∧
    ∀ rest, Lexeme.read c rest = Lexeme.sound [] (.closing bracket) := by
  cases bracket with
  | square => exact ⟨']', by decide, by decide, by decide, by decide, fun _ => rfl⟩
  | round => exact ⟨')', by decide, by decide, by decide, by decide, fun _ => rfl⟩

theorem Prints.group {depth : Nat} {bracket : Bracket} {items nodes : List Node} {span : Span}
    {inner text : List Char} (within : Prints depth items inner)
    (prints : Prints (depth + 1) nodes text) :
    Prints (depth + 1) (.group bracket items span :: nodes)
      (bracket.opening.toList ++ (inner ++ (bracket.closing.toList ++ text))) := by
  obtain ⟨opens, openEq, openShown, openCode, openRead⟩ := read_opening bracket
  obtain ⟨closes, closeEq, closeShown, closeCode, closeStops, closeRead⟩ := read_closing bracket
  intro here rest behind stops tiles
  rw [openEq, closeEq] at tiles ⊢
  simp only [List.cons_append, List.nil_append, Position.after_cons, Position.after_append]
    at tiles ⊢
  obtain ⟨lexed, nodes', cut, forest, same⟩ := prints _ rest behind stops tiles
  -- From behind: what follows the group, the closing bracket, what is inside, the opening bracket.
  have closing := @Token.Tiles.cons_lexeme _ _ _ closes [] _ closeShown closeCode (closeRead _) cut
  have closingStops : Lexeme.Stops (closes :: (text ++ rest)) := by
    intro c first
    obtain rfl := Option.some.inj first
    exact closeStops
  obtain ⟨inside, items', innerCut, innerForest, innerSame⟩ :=
    within (here.advance opens) (closes :: (text ++ rest)) _ closingStops closing
  have whole := @Token.Tiles.cons_lexeme _ _ _ opens [] _ openShown openCode (openRead _) innerCut
  refine ⟨_, _, ?_, @Forest.group _ bracket (Span.upTo here (here.after [opens]))
    (Span.upTo ((here.advance opens).after inner)
      (((here.advance opens).after inner).after [closes])) _ _ _ _ innerForest forest, ?_⟩
  · simpa using whole
  · simp only [bare, relocateAll, relocate] at same innerSame ⊢
    rw [same, innerSame]

/-- Nodes as they are printed in a row. -/
def line (nodes : List Node) : List Char := (" ".intercalate (displays nodes)).toList

/-- What is printed behind a node: the other nodes, each behind a space. -/
def others : List Node → List Char
  | [] => []
  | node :: rest => ' ' :: line (node :: rest)

theorem line_cons (node : Node) (nodes : List Node) :
    line (node :: nodes) = node.display.toList ++ others nodes := by
  cases nodes with
  | nil => simp [line, displays, others]
  | cons next nodes => simp [line, displays, others, String.toList_intercalate]

theorem stops_others (nodes : List Node) : Lexeme.Stops (others nodes) := by
  cases nodes with
  | nil => nofun
  | cons node nodes =>
    intro c first
    obtain rfl := Option.some.inj first
    decide

theorem Prints.others {depth : Nat} {nodes : List Node} (prints : Prints depth nodes (line nodes)) :
    Prints depth nodes (others nodes) := by
  cases nodes with
  | nil => exact .nil
  | cons node nodes => exact prints.space

/-- The nodes of a text are read again from what is printed of them. -/
theorem Forest.prints {depth : Nat} {tokens : List Token} {nodes : List Node}
    (forest : Forest depth tokens nodes)
    (spelled : ∀ token ∈ tokens, ∃ cs, Lexeme.Spells cs token.kind) (level : Nat)
    (printable : ∀ entry ∈ preorders level nodes, entry.2.Printable) :
    Prints depth nodes (line nodes) := by
  induction forest generalizing level with
  | nil => exact .nil
  | @leaf _ token node _ nodes stands _ ih =>
    obtain ⟨⟨cs, first⟩, spelled⟩ := List.forall_mem_cons.1 spelled
    -- A leaf is an entry of its own, so it is among those that can be printed.
    have own : node.Printable := by
      refine printable (level, node) (List.mem_append_left _ ?_)
      cases node with
      | group => simpa [flatten] using (says_of_leaf? stands).1
      | _ => exact List.mem_singleton.2 rfl
    obtain ⟨kind, spells, anywhere⟩ := spells_display stands first own
    rw [line_cons]
    exact (ih spelled level fun entry mem =>
      printable entry (List.mem_append_right _ mem)).others.leaf spells anywhere
        (stops_others nodes)
  | @group _ bracket _ _ inside rest items nodes _ _ insideIh restIh =>
    have within := insideIh (fun token mem => spelled token (by simp [mem])) (level + 1)
      fun entry mem => printable entry (by simp [preorders, preorder, mem])
    have behind := restIh (fun token mem => spelled token (by simp [mem])) level
      fun entry mem => printable entry (by simp [preorders, mem])
    rw [line_cons]
    simpa [display, line] using within.group behind.others

/-- Printing the nodes of a text and reading what is printed gives the nodes back, up to their
spans, for nodes without numbers and with texts whose characters are printed as themselves or by an
escape that is read. -/
theorem parse_displays (source printed : SourceText) (nodes : List Node)
    (parsed : parse source = .ok nodes)
    (printable : ∀ entry ∈ preorders 0 nodes, entry.2.Printable)
    (text : printed.chars = (" ".intercalate (displays nodes)).toList) :
    ∃ nodes', parse printed = .ok nodes' ∧ bare nodes' = bare nodes := by
  obtain ⟨lexed, tiles, forest⟩ := parse_eq_ok_iff.1 parsed
  have behind : Token.Tiles (Position.start.after (line nodes)) [] [] := .gap rfl
  obtain ⟨lexed', nodes', cut, forest', same⟩ :=
    forest.prints tiles.spells _ printable Position.start [] [] nofun behind
  rw [List.append_nil, List.append_nil] at cut
  exact ⟨nodes', parse_eq_ok_iff.2 ⟨lexed', text ▸ cut, forest'⟩, same⟩

/-- Sigils in front of odd symbols, a path with both separators, and a text with escapes. -/
def oddities : SourceText := .ofString "odd" "a.b/c: [:/x '1 -(/) \"é\\n\\\"\"] /local"

theorem parse_displays_of_oddities :
    ∃ nodes nodes', parse oddities = .ok nodes ∧
      (∀ entry ∈ preorders 0 nodes, entry.2.Printable) ∧
      parse (.ofString "printed" (" ".intercalate (displays nodes))) = .ok nodes' ∧
      bare nodes' = bare nodes := by
  have checked : (match parse oddities with
      | .ok nodes => decide (∀ entry ∈ preorders 0 nodes, entry.2.Printable)
      | .error _ => false) = true := by decide +kernel
  cases parsed : parse oddities with
  | error found => simp [parsed] at checked
  | ok nodes =>
    rw [parsed] at checked
    have printable := of_decide_eq_true checked
    obtain ⟨nodes', again, same⟩ := parse_displays oddities
      (.ofString "printed" (" ".intercalate (displays nodes))) nodes parsed printable rfl
    exact ⟨nodes, nodes', rfl, printable, again, same⟩

end Node

end Wordstream
