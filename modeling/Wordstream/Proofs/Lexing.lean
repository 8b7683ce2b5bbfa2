import Mathlib.Data.List.TakeWhile
import Wordstream.Token.Lexeme

/-!
# What a lexeme depends on

A lexeme is a stretch at the start of the text it is read from. One without flaws is read again
from its own characters alone: what followed it decided only where it ends. Its last character is
never a line feed, so the place of that character is one column to the left of what follows.

## Main results

* `Lexeme.tail_isPrefix` — a lexeme is a stretch of the text
* `Lexeme.read_alone` — a lexeme without flaws is read again from its own characters
* `Lexeme.getLast_ne_lineFeed` — it does not end with a line feed
* `Lexeme.written_of_token` — a lexeme is how its token is written
-/

namespace Wordstream

namespace Lexeme

/-! ### Quoted texts -/

theorem quotedText_isPrefix (offset : Nat) (cs : List Char) :
    (quotedText offset cs).taken <+: cs := by
  fun_induction quotedText offset cs with
  | case1 | case2 => exact List.prefix_refl _
  | case3 _ _ _ _ _ _ ih | case4 _ _ _ _ _ ih =>
    exact List.cons_prefix_cons.2 ⟨rfl, List.cons_prefix_cons.2 ⟨rfl, ih⟩⟩
  | case5 => exact List.cons_prefix_cons.2 ⟨rfl, List.nil_prefix⟩
  | case6 _ _ _ _ _ _ _ ih => exact List.cons_prefix_cons.2 ⟨rfl, ih⟩

/-- A closed quoted text ends with its quote, so nothing behind it was looked at. -/
theorem quotedText_taken (offset : Nat) (cs : List Char) (closed : (quotedText offset cs).closed) :
    quotedText offset (quotedText offset cs).taken = quotedText offset cs := by
  fun_induction quotedText offset cs with
  | case1 | case2 => cases closed
  | case3 offset c rest more meant known ih => simp [quotedText, known, more, ih closed]
  | case4 offset c rest more unknown ih => simp [quotedText, unknown, more, ih closed]
  | case5 => simp [quotedText]
  | case6 offset c rest alone escaped quote more ih =>
    have plain : c ≠ '\\' := by
      rintro rfl
      cases rest with
      | nil => exact alone rfl rfl
      | cons d rest => exact escaped d rest rfl rfl
    have again : quotedText (offset + 1) more.taken = more := ih closed
    dsimp only
    rw [quotedText.eq_4 _ _ _ (fun h => absurd h plain) (fun _ _ h => absurd h plain)]
    simp [quote, again]

theorem quotedText_getLast (offset : Nat) (cs : List Char)
    (closed : (quotedText offset cs).closed) :
    (quotedText offset cs).taken.getLast? = some '"' := by
  fun_induction quotedText offset cs with
  | case1 | case2 => cases closed
  | case3 offset c rest more meant known ih => simp [List.getLast?_cons, more, ih closed]
  | case4 offset c rest more unknown ih => simp [List.getLast?_cons, more, ih closed]
  | case5 => rfl
  | case6 offset c rest alone escaped quote more ih => simp [List.getLast?_cons, more, ih closed]

/-- A text without flaws is closed. -/
theorem closed_of_readText {cs : List Char} (flawless : (readText cs).flaws = []) :
    (quotedText 1 cs).closed := by
  by_contra unclosed
  simp [readText, unclosed] at flawless

theorem readText_alone {cs : List Char} (flawless : (readText cs).flaws = []) :
    readText (readText cs).tail = readText cs := by
  have again := quotedText_taken 1 cs (closed_of_readText flawless)
  simp only [readText, again]

/-! ### Words and refinements -/

/-- Characters of a kind and then nothing more of the kind: taking the kind takes just those. -/
theorem takeWhile_append_stop {p : Char → Bool} {taken stop : List Char} (all : ∀ c ∈ taken, p c)
    (stops : stop.takeWhile p = []) : (taken ++ stop).takeWhile p = taken := by
  rw [List.takeWhile_append_of_pos all, stops, List.append_nil]

theorem dropWhile_append_stop {p : Char → Bool} {taken stop : List Char} (all : ∀ c ∈ taken, p c)
    (stops : stop.takeWhile p = []) : (taken ++ stop).dropWhile p = stop := by
  have cut := List.takeWhile_append_dropWhile (p := p) (l := taken ++ stop)
  rw [takeWhile_append_stop all stops] at cut
  exact List.append_cancel_left cut

theorem readSigil_alone {kind : WordKind} {cs : List Char}
    (flawless : (readSigil kind cs).flaws = []) :
    readSigil kind (readSigil kind cs).tail = readSigil kind cs := by
  cases symbol : cs.takeWhile isSymbolChar with
  | nil => simp [readSigil, symbol] at flawless
  | cons c rest =>
    have again : (c :: rest).takeWhile isSymbolChar = c :: rest := symbol ▸ List.takeWhile_idem
    simp [readSigil, symbol, sound, again]

theorem readSlash_alone (cs : List Char) : readSlash (readSlash cs).tail = readSlash cs := by
  cases symbol : cs.takeWhile isSymbolChar with
  | nil => simp [readSlash, symbol, sound]
  | cons c rest =>
    have again : (c :: rest).takeWhile isSymbolChar = c :: rest := symbol ▸ List.takeWhile_idem
    simp [readSlash, symbol, sound, again]

/-- What a word takes behind its first character: symbol characters, and a colon if one follows. -/
theorem readWord_tail (c : Char) (cs : List Char) :
    (readWord c cs).tail = cs.takeWhile isSymbolChar ∨
      (readWord c cs).tail = cs.takeWhile isSymbolChar ++ [':'] := by
  unfold readWord
  split
  · exact Or.inr rfl
  · exact Or.inl rfl

theorem readWord_alone (c : Char) (cs : List Char) :
    readWord c (readWord c cs).tail = readWord c cs := by
  have all : ∀ c ∈ cs.takeWhile isSymbolChar, isSymbolChar c := fun _ => List.mem_takeWhile_imp
  unfold readWord
  split
  · have colon : [':'].takeWhile isSymbolChar = [] := by decide
    simp [sound, takeWhile_append_stop all colon, dropWhile_append_stop all colon]
  · simp [sound, List.takeWhile_idem, List.dropWhile_eq_nil_iff.2 all]

/-! ### Numbers -/

/-- The point of a numeral and the digits behind it. -/
def pointed (rest : List Char) : List Char :=
  if (fractionDigits rest).isEmpty then [] else '.' :: fractionDigits rest

/-- The symbol characters behind the digits of a numeralChars, which spoil it. -/
def excess (cs : List Char) : List Char :=
  let rest := cs.dropWhile Char.isDigit
  (rest.drop (pointed rest).length).takeWhile isSymbolChar

/-- The characters of a number, its sign included and nothing that spoils it. -/
def numeralChars (negative : Bool) (cs : List Char) : List Char :=
  (if negative then ['-'] else []) ++ cs.takeWhile Char.isDigit ++
    pointed (cs.dropWhile Char.isDigit)

theorem readNumber_eq (negative : Bool) (cs : List Char) :
    readNumber negative cs =
      if (excess cs).isEmpty then
        sound (numeralChars negative cs ++ excess cs).tail (.number (Decimal.read negative
          (cs.takeWhile Char.isDigit) (fractionDigits (cs.dropWhile Char.isDigit))))
      else
        ⟨(numeralChars negative cs ++ excess cs).tail, some (.number 0),
          [⟨.malformedNumber (String.ofList (numeralChars negative cs ++ excess cs)), 0,
            (numeralChars negative cs ++ excess cs).length⟩]⟩ := rfl

theorem readNumber_tail (negative : Bool) (cs : List Char) :
    (readNumber negative cs).tail = (numeralChars negative cs ++ excess cs).tail := by
  rw [readNumber_eq]
  split <;> rfl

/-- Only what follows its digits makes a number malformed. -/
theorem excess_eq_nil {negative : Bool} {cs : List Char}
    (flawless : (readNumber negative cs).flaws = []) : excess cs = [] := by
  by_contra spoiled
  simp [readNumber_eq, spoiled] at flawless

theorem pointed_isPrefix (rest : List Char) : pointed rest <+: rest := by
  unfold pointed
  split
  · exact List.nil_prefix
  · rename_i digits
    unfold fractionDigits at digits ⊢
    split
    · exact List.cons_prefix_cons.2 ⟨rfl, List.takeWhile_prefix _⟩
    · simp at digits

theorem isDigit_of_mem_fractionDigits {rest : List Char} {c : Char}
    (mem : c ∈ fractionDigits rest) : c.isDigit := by
  unfold fractionDigits at mem
  split at mem
  · exact List.mem_takeWhile_imp mem
  · cases mem

/-- The digits behind a point are read again when nothing follows them. -/
theorem fractionDigits_pointed (rest : List Char) :
    fractionDigits (pointed rest) = fractionDigits rest := by
  unfold pointed
  split
  · rename_i none
    rw [List.isEmpty_iff.1 none]
    rfl
  · exact List.takeWhile_eq_self_iff.2 fun _ => isDigit_of_mem_fractionDigits

theorem pointed_pointed (rest : List Char) : pointed (pointed rest) = pointed rest := by
  rw [pointed, fractionDigits_pointed]
  rfl

theorem pointed_stops (rest : List Char) : (pointed rest).takeWhile Char.isDigit = [] := by
  unfold pointed
  split
  · rfl
  · exact List.takeWhile_cons_of_neg (by decide)

/-- The digits of a numeral are read again from the numeral alone. -/
theorem numeral_digits (cs : List Char) :
    let digits := cs.takeWhile Char.isDigit ++ pointed (cs.dropWhile Char.isDigit)
    digits.takeWhile Char.isDigit = cs.takeWhile Char.isDigit ∧
      digits.dropWhile Char.isDigit = pointed (cs.dropWhile Char.isDigit) :=
  have all : ∀ c ∈ cs.takeWhile Char.isDigit, c.isDigit := fun _ => List.mem_takeWhile_imp
  ⟨takeWhile_append_stop all (pointed_stops _), dropWhile_append_stop all (pointed_stops _)⟩

theorem readNumber_alone {negative : Bool} {cs : List Char}
    (flawless : (readNumber negative cs).flaws = []) :
    readNumber negative (cs.takeWhile Char.isDigit ++ pointed (cs.dropWhile Char.isDigit)) =
      readNumber negative cs := by
  obtain ⟨whole, rest⟩ := numeral_digits cs
  have clean : excess (cs.takeWhile Char.isDigit ++ pointed (cs.dropWhile Char.isDigit)) = [] := by
    simp [excess, rest, pointed_pointed]
  simp [readNumber_eq, clean, excess_eq_nil flawless, numeralChars, whole, rest, pointed_pointed,
    fractionDigits_pointed]

/-- The digits of a number and what spoils it are a stretch of the text. -/
theorem numeral_isPrefix (cs : List Char) : numeralChars false cs ++ excess cs <+: cs := by
  have digits := List.takeWhile_append_dropWhile (p := Char.isDigit) (l := cs)
  obtain ⟨behind, cut⟩ := pointed_isPrefix (cs.dropWhile Char.isDigit)
  have spoil : excess cs <+: behind := by
    have rest : (cs.dropWhile Char.isDigit).drop (pointed (cs.dropWhile Char.isDigit)).length =
        behind := by
      conv => lhs; arg 2; rw [← cut]
      exact List.drop_left
    simpa only [excess, rest] using List.takeWhile_prefix _
  conv => rhs; rw [← digits, ← cut]
  simpa [numeralChars] using spoil

/-- A number without flaws gives a token. -/
theorem exists_number {negative : Bool} {cs : List Char}
    (flawless : (readNumber negative cs).flaws = []) :
    ∃ kind, readNumber negative cs = sound (readNumber negative cs).tail kind ∧
      kind ≠ .endOfText := by
  rw [readNumber_eq, if_pos (List.isEmpty_iff.2 (excess_eq_nil flawless))]
  exact ⟨_, rfl, nofun⟩

/-! ### Lexemes -/

/-- The characters that decide by themselves what is read. -/
def markers : List Char := ['[', ']', '(', ')', '"', '\'', ':', '/']

/-- The lexeme that starts with any other character: a number, a word or nothing. -/
def readBare (c : Char) (cs : List Char) : Lexeme :=
  if c = '-' && cs.head?.any Char.isDigit then readNumber true cs
  else if c.isDigit then readNumber false (c :: cs)
  else if isSymbolChar c then readWord c cs
  else ⟨[], none, [⟨.unexpectedCharacter c, 0, 1⟩]⟩

theorem read_eq_readBare {c : Char} (bare : c ∉ markers) : read c = readBare c := by
  funext cs
  simp only [markers, List.mem_cons, List.not_mem_nil, or_false, not_or] at bare
  obtain ⟨open₁, close₁, open₂, close₂, quote, tick, colon, slash⟩ := bare
  exact read.eq_9 c cs open₁ close₁ open₂ close₂ quote tick colon slash

/-- What holds of each way to read a lexeme, for the characters that call for it, holds of
`read`. -/
theorem read_cases {P : Char → (List Char → Lexeme) → Prop}
    (opening : ∀ c bracket, bracket.opening.toList = [c] → P c fun _ => sound [] (.opening bracket))
    (closing : ∀ c bracket, bracket.closing.toList = [c] → P c fun _ => sound [] (.closing bracket))
    (text : P '"' readText) (quote : P '\'' (readSigil .quote)) (get : P ':' (readSigil .get))
    (slash : P '/' readSlash) (bare : ∀ c, c ∉ markers → P c (readBare c)) (c : Char) :
    P c (read c) := by
  by_cases mark : c ∈ markers
  · simp only [markers, List.mem_cons, List.not_mem_nil, or_false] at mark
    rcases mark with rfl | rfl | rfl | rfl | rfl | rfl | rfl | rfl
    · exact opening _ .square rfl
    · exact closing _ .square rfl
    · exact opening _ .round rfl
    · exact closing _ .round rfl
    · exact text
    · exact quote
    · exact get
    · exact slash
  · rw [read_eq_readBare mark]
    exact bare c mark

/-- What holds of each way to read a lexeme holds of the one its first character decides. -/
theorem read_induction {P : Char → (List Char → Lexeme) → Prop}
    (bracket : ∀ c kind, kind ≠ .endOfText → P c fun _ => sound [] kind) (text : P '"' readText)
    (sigil : ∀ c kind, P c (readSigil kind)) (slash : P '/' readSlash)
    (bare : ∀ c, P c (readBare c)) (c : Char) : P c (read c) :=
  read_cases (P := P) (fun c _ _ => bracket c _ nofun) (fun c _ _ => bracket c _ nofun) text
    (sigil _ _) (sigil _ _) slash (fun c _ => bare c) c

theorem readSigil_tail (kind : WordKind) (cs : List Char) :
    (readSigil kind cs).tail = cs.takeWhile isSymbolChar := by
  unfold readSigil
  split <;> simp_all [sound]

theorem readSlash_tail (cs : List Char) : (readSlash cs).tail = cs.takeWhile isSymbolChar := by
  unfold readSlash
  split <;> simp_all [sound]

theorem readWord_isPrefix (c : Char) (cs : List Char) : (readWord c cs).tail <+: cs := by
  conv => rhs; rw [← List.takeWhile_append_dropWhile (p := isSymbolChar) (l := cs)]
  unfold readWord
  split
  case h_1 colon => simp [colon, sound]
  case h_2 => exact List.prefix_append _ _

/-- The characters of a bare lexeme behind its first one are a stretch of the text. -/
theorem readBare_isPrefix (c : Char) (cs : List Char) : (readBare c cs).tail <+: cs := by
  unfold readBare
  split
  · simpa [readNumber_tail, numeralChars] using numeral_isPrefix cs
  · split
    · rename_i digit
      have whole := numeral_isPrefix (c :: cs)
      rw [readNumber_tail]
      simpa [numeralChars, digit] using whole
    · split
      · exact readWord_isPrefix c cs
      · exact List.nil_prefix

/-- A lexeme is a stretch of the text it is read from. -/
theorem tail_isPrefix (c : Char) : ∀ cs, (read c cs).tail <+: cs := by
  refine read_induction (P := fun _ reader => ∀ cs, (reader cs).tail <+: cs) ?_ ?_ ?_ ?_ ?_ c
  · intro _ _ _ cs
    exact List.nil_prefix
  · exact quotedText_isPrefix 1
  · intro _ kind cs
    exact readSigil_tail kind cs ▸ List.takeWhile_prefix _
  · intro cs
    exact readSlash_tail cs ▸ List.takeWhile_prefix _
  · exact readBare_isPrefix

/-! Which bare lexeme is read depends on the first character and on whether a digit follows. -/

theorem readBare_signed {cs : List Char} (digits : cs.head?.any Char.isDigit) :
    readBare '-' cs = readNumber true cs := by
  simp [readBare, digits]

theorem readBare_digit {c : Char} (digit : c.isDigit) (cs : List Char) :
    readBare c cs = readNumber false (c :: cs) := by
  have unsigned : c ≠ '-' := by rintro rfl; cases digit
  simp [readBare, unsigned, digit]

theorem readBare_word {c : Char} {cs : List Char}
    (unsigned : ¬ (c = '-' ∧ cs.head?.any Char.isDigit))
    (letter : ¬ c.isDigit) (symbol : isSymbolChar c) : readBare c cs = readWord c cs := by
  simp_all [readBare]

/-- A bare lexeme without flaws is a signed number, a number or a word. -/
theorem readBare_cases {P : Char → List Char → Prop}
    (signed : ∀ cs, cs.head?.any Char.isDigit → (readNumber true cs).flaws = [] → P '-' cs)
    (unsigned : ∀ c cs, c.isDigit → (readNumber false (c :: cs)).flaws = [] → P c cs)
    (word : ∀ c cs, ¬ (c = '-' ∧ cs.head?.any Char.isDigit) → ¬ c.isDigit → isSymbolChar c → P c cs)
    {c : Char} {cs : List Char} (flawless : (readBare c cs).flaws = []) : P c cs := by
  by_cases sign : c = '-' ∧ cs.head?.any Char.isDigit
  · obtain ⟨rfl, digits⟩ := sign
    exact signed cs digits (readBare_signed digits ▸ flawless)
  · by_cases digit : c.isDigit
    · exact unsigned c cs digit (readBare_digit digit cs ▸ flawless)
    · by_cases symbol : isSymbolChar c
      · exact word c cs sign digit symbol
      · simp_all [readBare]

/-- No digit comes to stand behind the first character of a word. -/
theorem head_readWord {c : Char} {cs : List Char} (letter : ¬ cs.head?.any Char.isDigit) :
    ¬ (readWord c cs).tail.head?.any Char.isDigit := by
  cases cs with
  | nil => simp [readWord, sound]
  | cons d rest =>
    have head : d.isDigit = false := by simpa using letter
    rcases readWord_tail c (d :: rest) with tail | tail <;> rw [tail, List.takeWhile_cons] <;>
      split <;> simp [head]

theorem readBare_alone {c : Char} {cs : List Char} (flawless : (readBare c cs).flaws = []) :
    readBare c (readBare c cs).tail = readBare c cs := by
  refine readBare_cases (P := fun c cs => readBare c (readBare c cs).tail = readBare c cs)
    ?_ ?_ ?_ flawless
  · intro cs digits clean
    have tail : (readNumber true cs).tail =
        cs.takeWhile Char.isDigit ++ pointed (cs.dropWhile Char.isDigit) := by
      simp [readNumber_tail, numeralChars, excess_eq_nil clean]
    have still : (readNumber true cs).tail.head?.any Char.isDigit := by
      cases cs with
      | nil => cases digits
      | cons d rest => simp_all
    rw [readBare_signed digits, readBare_signed still, tail, readNumber_alone clean]
  · intro c cs digit clean
    have tail : c :: (readNumber false (c :: cs)).tail =
        (c :: cs).takeWhile Char.isDigit ++ pointed ((c :: cs).dropWhile Char.isDigit) := by
      simp [readNumber_tail, numeralChars, excess_eq_nil clean, digit]
    rw [readBare_digit digit, readBare_digit digit, tail, readNumber_alone clean]
  · intro c cs unsigned letter symbol
    have still : ¬ (c = '-' ∧ (readWord c cs).tail.head?.any Char.isDigit) :=
      fun sign => head_readWord (fun digits => unsigned ⟨sign.1, digits⟩) sign.2
    rw [readBare_word unsigned letter symbol, readBare_word still letter symbol, readWord_alone]

/-- A lexeme without flaws is read again from its own characters alone. -/
theorem read_alone {c : Char} {cs : List Char} (flawless : (read c cs).flaws = []) :
    read c (read c cs).tail = read c cs := by
  refine read_induction
    (P := fun _ reader => ∀ cs, (reader cs).flaws = [] → reader (reader cs).tail = reader cs)
    ?_ ?_ ?_ ?_ ?_ c cs flawless
  · intros
    rfl
  · exact fun _ => readText_alone
  · exact fun _ _ _ => readSigil_alone
  · exact fun cs _ => readSlash_alone cs
  · exact fun _ _ => readBare_alone

/-! ### The last character -/

theorem lineFeed_not_mem_symbol (cs : List Char) : '\n' ∉ cs.takeWhile isSymbolChar :=
  fun mem => absurd (List.mem_takeWhile_imp mem) (by decide)

theorem lineFeed_not_mem_numeral (negative : Bool) (cs : List Char) :
    '\n' ∉ numeralChars negative cs := by
  have whole : '\n' ∉ cs.takeWhile Char.isDigit :=
    fun mem => absurd (List.mem_takeWhile_imp mem) (by decide)
  have fraction : '\n' ∉ pointed (cs.dropWhile Char.isDigit) := by
    unfold pointed
    split
    · exact List.not_mem_nil
    · exact fun mem =>
        absurd (isDigit_of_mem_fractionDigits (List.mem_of_ne_of_mem (by decide) mem))
        (by decide)
  unfold numeralChars
  split <;> simp [whole, fraction]

/-- A bare lexeme without flaws stands on one line. -/
theorem lineFeed_not_mem_readBare {c : Char} {cs : List Char}
    (flawless : (readBare c cs).flaws = []) : '\n' ∉ (readBare c cs).tail := by
  refine readBare_cases (P := fun c cs => '\n' ∉ (readBare c cs).tail) ?_ ?_ ?_ flawless
  · intro cs digits clean mem
    rw [readBare_signed digits, readNumber_tail, excess_eq_nil clean, List.append_nil] at mem
    exact lineFeed_not_mem_numeral true cs (List.mem_of_mem_tail mem)
  · intro c cs digit clean mem
    rw [readBare_digit digit, readNumber_tail, excess_eq_nil clean, List.append_nil] at mem
    exact lineFeed_not_mem_numeral false (c :: cs) (List.mem_of_mem_tail mem)
  · intro c cs unsigned letter symbol
    rw [readBare_word unsigned letter symbol]
    rcases readWord_tail c cs with tail | tail <;> simp [tail, lineFeed_not_mem_symbol]

/-- A lexeme without flaws does not end with a line feed, unless it starts with one. -/
theorem getLast_ne_lineFeed {c : Char} {cs : List Char} (flawless : (read c cs).flaws = [])
    (first : c ≠ '\n') : (c :: (read c cs).tail).getLast? ≠ some '\n' := by
  have tail : (read c cs).tail.getLast? ≠ some '\n' := by
    refine read_induction
      (P := fun _ reader => ∀ cs, (reader cs).flaws = [] → (reader cs).tail.getLast? ≠ some '\n')
      ?_ ?_ ?_ ?_ ?_ c cs flawless
    · intro _ kind _ cs _
      simp [sound]
    · intro cs clean
      have last := quotedText_getLast 1 cs (closed_of_readText clean)
      simp [readText, last]
    · intro _ kind cs _ last
      exact lineFeed_not_mem_symbol cs (readSigil_tail kind cs ▸ List.mem_of_getLast? last)
    · intro cs _ last
      exact lineFeed_not_mem_symbol cs (readSlash_tail cs ▸ List.mem_of_getLast? last)
    · intro _ cs clean last
      exact lineFeed_not_mem_readBare clean (List.mem_of_getLast? last)
  cases last : (read c cs).tail.getLast? with
  | none => simp [List.getLast?_cons, last, first]
  | some d =>
    have other : d ≠ '\n' := by rintro rfl; exact tail last
    simp [List.getLast?_cons, last, other]

/-- A lexeme without flaws gives a token, and not the mark of the end. -/
theorem exists_sound {c : Char} {cs : List Char} (flawless : (read c cs).flaws = []) :
    ∃ kind, read c cs = sound (read c cs).tail kind ∧ kind ≠ .endOfText := by
  -- The first character decides which reader takes over; none of them gives the end.
  refine read_induction
    (P := fun _ reader => ∀ cs, (reader cs).flaws = [] →
      ∃ kind, reader cs = sound (reader cs).tail kind ∧ kind ≠ .endOfText)
    ?bracket ?text ?sigil ?slash ?bare c cs flawless
  case bracket =>
    intro _ kind token cs _
    exact ⟨kind, rfl, token⟩
  case text =>
    intro cs clean
    exact ⟨_, congrArg (Lexeme.mk _ _) clean, nofun⟩
  case sigil =>
    intro _ kind cs clean
    unfold readSigil at clean ⊢
    split
    · simp_all
    · exact ⟨_, rfl, nofun⟩
  case slash =>
    intro cs _
    unfold readSlash
    split
    · exact ⟨_, rfl, nofun⟩
    · exact ⟨_, rfl, nofun⟩
  case bare =>
    intro c cs clean
    refine readBare_cases
      (P := fun c cs => ∃ kind, readBare c cs = sound (readBare c cs).tail kind ∧ kind ≠ .endOfText)
      ?signed ?digit ?word clean
    case signed =>
      intro cs digits clean
      rw [readBare_signed digits]
      exact exists_number clean
    case digit =>
      intro c cs digit clean
      rw [readBare_digit digit]
      exact exists_number clean
    case word =>
      intro c cs unsigned letter symbol
      rw [readBare_word unsigned letter symbol]
      unfold readWord
      split
      · exact ⟨_, rfl, nofun⟩
      · exact ⟨_, rfl, nofun⟩

end Lexeme

/-! ### How tokens are written -/

/-- How a bracket or a word is written: a bracket as it is, and a word as its symbol, which starts
with a symbol character, with its sigil. Nothing is said of other tokens. -/
def TokenKind.Written : TokenKind → List Char → Prop
  | .opening bracket, lexeme => lexeme = bracket.opening.toList
  | .closing bracket, lexeme => lexeme = bracket.closing.toList
  | .word kind symbol, lexeme => lexeme = (kind.decorate symbol).toList ∧
      ∃ c rest, symbol = String.ofList (c :: rest) ∧ Lexeme.isSymbolChar c
  | _, _ => True

namespace Lexeme

theorem written_readSigil {sigil : Char} {kind : WordKind}
    (decorate : ∀ symbol, (kind.decorate symbol).toList = sigil :: symbol.toList) {cs : List Char}
    {token : TokenKind} (made : (readSigil kind cs).token = some token) :
    token.Written (sigil :: (readSigil kind cs).tail) := by
  rw [readSigil_tail]
  unfold readSigil at made
  cases symbol : cs.takeWhile isSymbolChar with
  | nil =>
    rw [symbol] at made
    cases made
  | cons c rest =>
    have first : isSymbolChar c := List.mem_takeWhile_imp (symbol ▸ List.mem_cons_self)
    rw [symbol] at made
    cases made
    exact ⟨by rw [decorate, String.toList_ofList], c, rest, rfl, first⟩

theorem written_readSlash {cs : List Char} {token : TokenKind}
    (made : (readSlash cs).token = some token) : token.Written ('/' :: (readSlash cs).tail) := by
  unfold readSlash at made ⊢
  split at made
  · cases made
    exact ⟨rfl, '/', [], rfl, rfl⟩
  · cases made
    trivial

theorem written_readWord {c : Char} (symbol : isSymbolChar c) {cs : List Char} {token : TokenKind}
    (made : (readWord c cs).token = some token) : token.Written (c :: (readWord c cs).tail) := by
  unfold readWord at made ⊢
  split at made
  · cases made
    exact ⟨by simp [sound, WordKind.decorate], c, _, rfl, symbol⟩
  · cases made
    exact ⟨by simp [sound, WordKind.decorate], c, _, rfl, symbol⟩

theorem written_readNumber {negative : Bool} {cs lexeme : List Char} {token : TokenKind}
    (made : (readNumber negative cs).token = some token) : token.Written lexeme := by
  rw [readNumber_eq] at made
  split at made <;> cases made <;> trivial

theorem written_readBare {c : Char} {cs : List Char} {token : TokenKind}
    (made : (readBare c cs).token = some token) : token.Written (c :: (readBare c cs).tail) := by
  by_cases sign : c = '-' ∧ cs.head?.any Char.isDigit
  · obtain ⟨rfl, digits⟩ := sign
    rw [readBare_signed digits] at made
    exact written_readNumber made
  by_cases digit : c.isDigit
  · rw [readBare_digit digit] at made
    exact written_readNumber made
  by_cases symbol : isSymbolChar c
  · rw [readBare_word sign digit symbol] at made ⊢
    exact written_readWord symbol made
  · simp_all [readBare]

/-- A lexeme is how its token is written. -/
theorem written_of_token {c : Char} {cs : List Char} {token : TokenKind}
    (made : (read c cs).token = some token) : token.Written (c :: (read c cs).tail) := by
  refine read_cases (P := fun c reader => (reader cs).token = some token →
    token.Written (c :: (reader cs).tail)) ?_ ?_ ?_ ?_ ?_ ?_ ?_ c made
  · rintro c bracket one ⟨⟩
    exact one.symm
  · rintro c bracket one ⟨⟩
    exact one.symm
  · rintro ⟨⟩
    trivial
  · exact written_readSigil fun symbol => by simp [WordKind.decorate]
  · exact written_readSigil fun symbol => by simp [WordKind.decorate]
  · exact written_readSlash
  · exact fun c _ => written_readBare

end Lexeme

end Wordstream
