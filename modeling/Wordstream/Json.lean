/-!
# JSON texts

Settings come as JSON texts. The reader is strict: nothing but blanks may stand around the value,
numerals have no leading zeros, and control characters are not allowed inside strings. Numerals are
kept as they were written, since a setting may ask for an integer that was written as one.
-/

namespace Wordstream

/-- A numeral as written: sign, digits before and behind the point, and the exponent. -/
structure Numeral where
  negative : Bool
  digits : List Char
  fraction : Option (List Char)
  exponent : Option Int
  deriving DecidableEq, Repr

/-- A JSON value. A string with an unpaired surrogate escape is no text and is kept apart; a member
whose name is such a string has no name. -/
inductive Json where
  | null
  | bool (value : Bool)
  | number (numeral : Numeral)
  | text (value : String)
  | brokenText
  | array (items : List Json)
  | object (members : List (Option String × Json))

namespace Numeral

/-- The number that a run of digits stands for. -/
def digitsValue (digits : List Char) : Nat :=
  digits.foldl (fun n c => n * 10 + (c.toNat - 48)) 0

/-- The natural number, for a numeral without sign, point and exponent. -/
def toNat? (numeral : Numeral) : Option Nat :=
  if numeral.negative || numeral.fraction.isSome || numeral.exponent.isSome then none
  else some (digitsValue numeral.digits)

/-- The double nearest to a numeral. -/
def toFloat (numeral : Numeral) : Float :=
  let fraction := numeral.fraction.getD []
  let exponent := numeral.exponent.getD 0 - fraction.length
  let mantissa := digitsValue (numeral.digits ++ fraction)
  let magnitude := Float.ofScientific mantissa (exponent < 0) exponent.natAbs
  if numeral.negative then -magnitude else magnitude

end Numeral

namespace Json

/-- The characters that may stand between the parts of a JSON text. -/
def isSpace (c : Char) : Bool := c = ' ' || c = '\n' || c = '\t' || c = '\r'

/-- A text without the blanks at its start. -/
def skipSpace (cs : List Char) : List Char := cs.dropWhile isSpace

/-- The value of a hexadecimal digit. -/
def hexDigit? (c : Char) : Option Nat :=
  if c.isDigit then some (c.toNat - 48)
  else if 'a' ≤ c && c ≤ 'f' then some (c.toNat - 87)
  else if 'A' ≤ c && c ≤ 'F' then some (c.toNat - 55)
  else none

/-- The number that four hexadecimal digits stand for, and what follows them. -/
def hex4? : List Char → Option (Nat × List Char)
  | a :: b :: c :: d :: rest => do
    let a ← hexDigit? a
    let b ← hexDigit? b
    let c ← hexDigit? c
    let d ← hexDigit? d
    some (((a * 16 + b) * 16 + c) * 16 + d, rest)
  | _ => none

/-- The character that a letter behind a backslash stands for. -/
def escape? : Char → Option Char
  | '"' => some '"'
  | '\\' => some '\\'
  | '/' => some '/'
  | 'b' => some '\x08'
  | 'f' => some '\x0c'
  | 'n' => some '\n'
  | 'r' => some '\r'
  | 't' => some '\t'
  | _ => none

/-- One unit of a string: a character, or half of a surrogate pair. -/
inductive Piece where
  | char (c : Char)
  | high (unit : Nat)
  | low (unit : Nat)

/-- The piece that a four-digit escape stands for. -/
def Piece.ofUnit (unit : Nat) : Piece :=
  if 0xD800 ≤ unit && unit < 0xDC00 then .high unit
  else if 0xDC00 ≤ unit && unit < 0xE000 then .low unit
  else .char (Char.ofNat unit)

/-- The pieces of a string up to its closing quote, and what follows. -/
def pieces? : (fuel : Nat) → List Char → Option (List Piece × List Char)
  | 0, _ => none
  | _ + 1, [] => none
  | _ + 1, '"' :: rest => some ([], rest)
  | fuel + 1, '\\' :: 'u' :: rest => do
    let (unit, rest) ← hex4? rest
    let (more, rest) ← pieces? fuel rest
    some (Piece.ofUnit unit :: more, rest)
  | fuel + 1, '\\' :: c :: rest => do
    let c ← escape? c
    let (more, rest) ← pieces? fuel rest
    some (.char c :: more, rest)
  | fuel + 1, c :: rest =>
    if c.toNat < 0x20 then none
    else do
      let (more, rest) ← pieces? fuel rest
      some (.char c :: more, rest)

/-- The text that pieces stand for; every surrogate must have its other half. -/
def join? : List Piece → Option (List Char)
  | [] => some []
  | .char c :: rest => (join? rest).map (c :: ·)
  | .high a :: .low b :: rest =>
    (join? rest).map (Char.ofNat (0x10000 + (a - 0xD800) * 0x400 + (b - 0xDC00)) :: ·)
  | _ :: _ => none

/-- The text of a string behind its opening quote, if it is one, and what follows. -/
def string? (cs : List Char) : Option (Option String × List Char) := do
  let (pieces, rest) ← pieces? (cs.length + 1) cs
  some ((join? pieces).map String.ofList, rest)

/-- The value of a string. -/
def ofString : Option String → Json
  | some value => .text value
  | none => .brokenText

/-- At least one digit, and what follows the run of digits. -/
def digits? (cs : List Char) : Option (List Char × List Char) :=
  match cs.takeWhile Char.isDigit with
  | [] => none
  | digits => some (digits, cs.dropWhile Char.isDigit)

/-- The digits before the point: a zero alone, or a run that starts otherwise. -/
def wholeDigits? : List Char → Option (List Char × List Char)
  | '0' :: rest => if rest.head?.any Char.isDigit then none else some (['0'], rest)
  | cs => digits? cs

/-- The fraction of a numeral, if there is one. -/
def fraction? : List Char → Option (Option (List Char) × List Char)
  | '.' :: rest => (digits? rest).map fun (digits, rest) => (some digits, rest)
  | cs => some (none, cs)

/-- The sign of an exponent, and what follows. -/
def exponentSign : List Char → Bool × List Char
  | '+' :: rest => (false, rest)
  | '-' :: rest => (true, rest)
  | cs => (false, cs)

/-- The exponent of a numeral, if there is one. -/
def exponent? (cs : List Char) : Option (Option Int × List Char) :=
  match cs with
  | c :: rest =>
    if c = 'e' || c = 'E' then do
      let (negative, rest) := exponentSign rest
      let (digits, rest) ← digits? rest
      let value : Int := Numeral.digitsValue digits
      some (some (if negative then -value else value), rest)
    else some (none, cs)
  | [] => some (none, [])

/-- A numeral, and what follows. -/
def numeral? (negative : Bool) (cs : List Char) : Option (Numeral × List Char) := do
  let (digits, rest) ← wholeDigits? cs
  let (fraction, rest) ← fraction? rest
  let (exponent, rest) ← exponent? rest
  some (⟨negative, digits, fraction, exponent⟩, rest)

mutual

/-- A value, and what follows. -/
def value? : (fuel : Nat) → List Char → Option (Json × List Char)
  | 0, _ => none
  | fuel + 1, cs =>
    match skipSpace cs with
    | 'n' :: 'u' :: 'l' :: 'l' :: rest => some (.null, rest)
    | 't' :: 'r' :: 'u' :: 'e' :: rest => some (.bool true, rest)
    | 'f' :: 'a' :: 'l' :: 's' :: 'e' :: rest => some (.bool false, rest)
    | '"' :: rest => (string? rest).map fun (string, rest) => (ofString string, rest)
    | '-' :: rest => (numeral? true rest).map fun (n, rest) => (.number n, rest)
    | '[' :: rest =>
      match skipSpace rest with
      | ']' :: rest => some (.array [], rest)
      | rest => (elements? fuel rest).map fun (items, rest) => (.array items, rest)
    | '\x7b' :: rest =>
      match skipSpace rest with
      | '\x7d' :: rest => some (.object [], rest)
      | rest => (members? fuel rest).map fun (members, rest) => (.object members, rest)
    | rest => (numeral? false rest).map fun (n, rest) => (.number n, rest)

/-- The elements of an array up to its closing bracket, at least one. -/
def elements? : (fuel : Nat) → List Char → Option (List Json × List Char)
  | 0, _ => none
  | fuel + 1, cs => do
    let (item, rest) ← value? fuel cs
    match skipSpace rest with
    | ',' :: rest => do
      let (items, rest) ← elements? fuel rest
      some (item :: items, rest)
    | ']' :: rest => some ([item], rest)
    | _ => none

/-- The members of an object up to its closing brace, at least one. -/
def members? : (fuel : Nat) → List Char → Option (List (Option String × Json) × List Char)
  | 0, _ => none
  | fuel + 1, cs =>
    match skipSpace cs with
    | '"' :: rest => do
      let (key, rest) ← string? rest
      match skipSpace rest with
      | ':' :: rest => do
        let (value, rest) ← value? fuel rest
        match skipSpace rest with
        | ',' :: rest => do
          let (members, rest) ← members? fuel rest
          some ((key, value) :: members, rest)
        | '\x7d' :: rest => some ([(key, value)], rest)
        | _ => none
      | _ => none
    | _ => none

end

/-- The value that a text stands for, if it is a JSON text. Every step of reading takes a character,
so the length of the text bounds them. -/
def read? (text : String) : Option Json :=
  let cs := text.toList
  match value? (cs.length + 1) cs with
  | some (value, rest) => if (skipSpace rest).isEmpty then some value else none
  | none => none

/-- The first member of an object with a given name. -/
def member? (name : String) : Json → Option Json
  | object members => members.lookup (some name)
  | _ => none

end Json

end Wordstream
