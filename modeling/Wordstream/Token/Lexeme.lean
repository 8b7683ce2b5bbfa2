import Wordstream.Source.Diagnostic
import Wordstream.Text.Blank
import Wordstream.Token.Basic

/-!
# Lexemes

A lexeme is the stretch of characters that one token takes. What token it is depends on its own
characters only; those that follow decide just where it ends.
-/

namespace Wordstream

/-- A problem within a lexeme: it was noticed behind `behind` characters of the lexeme and starts
behind `first` of them. -/
structure Flaw where
  problem : Problem
  first : Nat
  behind : Nat
  deriving DecidableEq, Repr

/-- What was read behind the first character of a lexeme: its other characters, the token if there
is one, and what is wrong with it. -/
structure Lexeme where
  tail : List Char
  token : Option TokenKind
  flaws : List Flaw

namespace Lexeme

/-- Symbols are made of everything but blanks, brackets, quotes, semicolons and colons. -/
def isSymbolChar (c : Char) : Bool :=
  !Text.isBlank c && !(['[', ']', '(', ')', '"', ';', ':'].contains c)

/-- A lexeme without flaws. -/
def sound (tail : List Char) (token : TokenKind) : Lexeme := ⟨tail, some token, []⟩

/-- What is read of a quoted text behind its opening quote: the characters taken, the characters
meant, the flaws, and whether the closing quote was found. -/
structure QuotedText where
  taken : List Char
  value : List Char
  flaws : List Flaw
  closed : Bool

/-- The character that stands for itself behind a backslash, or that a letter stands for there. -/
def unescape? : Char → Option Char
  | '"' => some '"'
  | '\\' => some '\\'
  | 'n' => some '\n'
  | 't' => some '\t'
  | 'r' => some '\r'
  | _ => none

/-- Read a quoted text up to its closing quote; `offset` characters of the lexeme came before. An
escape that is not known is a flaw and stands for its character. -/
def quotedText (offset : Nat) : List Char → QuotedText
  | [] => ⟨[], [], [], false⟩
  | ['\\'] => ⟨['\\'], [], [], false⟩
  | '\\' :: c :: rest =>
    let more := quotedText (offset + 2) rest
    match unescape? c with
    | some meant => ⟨'\\' :: c :: more.taken, meant :: more.value, more.flaws, more.closed⟩
    | none =>
      ⟨'\\' :: c :: more.taken, c :: more.value,
        ⟨.invalidEscape c, offset, offset + 2⟩ :: more.flaws, more.closed⟩
  | c :: rest =>
    if c = '"' then ⟨['"'], [], [], true⟩
    else
      let more := quotedText (offset + 1) rest
      ⟨c :: more.taken, c :: more.value, more.flaws, more.closed⟩

/-- A text, read behind its opening quote. -/
def readText (cs : List Char) : Lexeme :=
  let body := quotedText 1 cs
  let length := body.taken.length + 1
  let unclosed := if body.closed then [] else [⟨.unterminatedText, 0, length⟩]
  ⟨body.taken, some (.text (String.ofList body.value)), body.flaws ++ unclosed⟩

/-- A word with a sigil in front, read behind the sigil. -/
def readSigil (kind : WordKind) (cs : List Char) : Lexeme :=
  match cs.takeWhile isSymbolChar with
  | [] => ⟨[], none, [⟨.emptySymbol, 0, 1⟩]⟩
  | symbol => sound symbol (.word kind (String.ofList symbol))

/-- A refinement, read behind its slash. A slash alone is a word. -/
def readSlash (cs : List Char) : Lexeme :=
  match cs.takeWhile isSymbolChar with
  | [] => sound [] (.word .plain "/")
  | name => sound name (.refinement (String.ofList name))

/-- A word without a sigil in front; a colon behind it belongs to it. -/
def readWord (c : Char) (cs : List Char) : Lexeme :=
  let symbol := cs.takeWhile isSymbolChar
  let word := String.ofList (c :: symbol)
  match cs.dropWhile isSymbolChar with
  | ':' :: _ => sound (symbol ++ [':']) (.word .set word)
  | _ => sound symbol (.word .plain word)

/-- The fraction of a numeral, its point left out: digits behind a point. -/
def fractionDigits : List Char → List Char
  | '.' :: rest => rest.takeWhile Char.isDigit
  | _ => []

/-- A number whose digits start a text, with a sign in front or not. Symbol characters that follow
directly make it malformed and belong to it. -/
def readNumber (negative : Bool) (cs : List Char) : Lexeme :=
  let wholeDigits := cs.takeWhile Char.isDigit
  let rest := cs.dropWhile Char.isDigit
  let fraction := fractionDigits rest
  let point := if fraction.isEmpty then [] else '.' :: fraction
  let excess := (rest.drop point.length).takeWhile isSymbolChar
  let sign := if negative then ['-'] else []
  let whole := sign ++ wholeDigits ++ point ++ excess
  if excess.isEmpty then
    sound whole.tail (.number (Decimal.read negative wholeDigits fraction))
  else
    ⟨whole.tail, some (.number 0), [⟨.malformedNumber (String.ofList whole), 0, whole.length⟩]⟩

/-- The lexeme that starts with `c` and goes on in `cs`, for a `c` that is not skipped. -/
def read (c : Char) (cs : List Char) : Lexeme :=
  match c with
  | '[' => sound [] (.opening .square)
  | ']' => sound [] (.closing .square)
  | '(' => sound [] (.opening .round)
  | ')' => sound [] (.closing .round)
  | '"' => readText cs
  | '\'' => readSigil .quote cs
  | ':' => readSigil .get cs
  | '/' => readSlash cs
  | c =>
    if c = '-' && cs.head?.any Char.isDigit then readNumber true cs
    else if c.isDigit then readNumber false (c :: cs)
    else if isSymbolChar c then readWord c cs
    else ⟨[], none, [⟨.unexpectedCharacter c, 0, 1⟩]⟩

end Lexeme

end Wordstream
