import Wordstream.Decimal.Binary
import Wordstream.Decimal.Shortest

/-!
# Numbers as text

Two notations for doubles. The plain one is positional for every number. The exact one keeps a point
in every number and leaves positional notation for very large and very small ones. A number without
fraction is often wanted as an integer; `wholeText?` writes it so.
-/

namespace Wordstream.Decimal

/-- The decisions of a notation: whether a whole number keeps a point and a zero, and which powers
of ten its leading digit may stand for before an exponent is written (`none`: always positional). -/
structure Style where
  keepPoint : Bool
  positional : Option (Int × Int)

/-- Positional at any size, and no point in a whole number. -/
def plain : Style := ⟨false, none⟩

/-- A point in every number, and positional from a ten-thousandth up to, and not including, ten to
the sixteenth. -/
def exact : Style := ⟨true, some (-4, 15)⟩

/-- A run of zeros. -/
def zeros (n : Int) : String := String.ofList (List.replicate n.toNat '0')

/-- Digits in positional notation. -/
def Digits.positional (keepPoint : Bool) (d : Digits) : String :=
  let digits := Nat.repr d.digits
  let count : Int := digits.length
  if 0 ≤ d.exponent then
    digits ++ zeros d.exponent ++ (if keepPoint then ".0" else "")
  else if -d.exponent < count then
    let kept := (count + d.exponent).toNat
    String.ofList (digits.toList.take kept) ++ "." ++ String.ofList (digits.toList.drop kept)
  else
    "0." ++ zeros (-d.exponent - count) ++ digits

/-- Digits with one of them before the point and an exponent. -/
def Digits.scientific (d : Digits) : String :=
  let digits := (Nat.repr d.digits).toList
  let power := d.exponent + digits.length - 1
  let fraction := match digits.drop 1 with
    | [] => ""
    | rest => "." ++ String.ofList rest
  String.ofList (digits.take 1) ++ fraction ++ "e" ++ toString power

/-- Digits in a notation. -/
def Digits.text (style : Style) (d : Digits) : String :=
  match style.positional with
  | none => d.positional style.keepPoint
  | some (low, high) =>
    let power := d.exponent + (Nat.repr d.digits).length - 1
    if d.digits = 0 || (low ≤ power && power ≤ high) then d.positional style.keepPoint
    else d.scientific

/-- A double in a notation. -/
def text (style : Style) (x : Float) : String :=
  match Parts.ofFloat x with
  | .finite negative m q narrow =>
    (if negative then "-" else "") ++ (shortest m q narrow).text style
  | .infinite negative => if negative then "-inf" else "inf"
  | .notANumber => "NaN"

/-- The integer that a double is, if it is finite and has no fraction. -/
def whole? (x : Float) : Option Int := (Parts.ofFloat x).whole?

/-- An integer held within the limits of sixty-four signed bits. -/
def clamp64 (n : Int) : Int := max (-Int.pow 2 63) (min n (Int.pow 2 63 - 1))

/-- A numeral of digits and, optionally, a fraction, as a double: the nearest one, and an infinity
beyond the range. -/
def read (negative : Bool) (wholeDigits fractionDigits : List Char) : Float :=
  let mantissa := (wholeDigits ++ fractionDigits).foldl (fun n c => n * 10 + (c.toNat - 48)) 0
  let magnitude := Float.ofScientific mantissa true fractionDigits.length
  if negative then -magnitude else magnitude

end Wordstream.Decimal
