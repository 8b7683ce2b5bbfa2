/-!
# Binary numbers taken apart

A double is read off its bits as a sign, a whole mantissa and a power of two. Everything that is
printed about a number starts from these parts, so that it is settled in exact arithmetic.
-/

namespace Wordstream.Decimal

/-- What the bits of a double say. A finite one is `mantissa * 2 ^ exponent` with a sign; its lower
neighbour is nearer than its upper one when `narrow` holds. -/
inductive Parts where
  | finite (negative : Bool) (mantissa : Nat) (exponent : Int) (narrow : Bool)
  | infinite (negative : Bool)
  | notANumber
  deriving DecidableEq, Repr

namespace Parts

/-- The parts that a pattern of sixty-four bits stands for. -/
def ofBits (bits : Nat) : Parts :=
  let negative : Bool := 1 ≤ bits / Nat.pow 2 63
  let scale : Nat := bits / Nat.pow 2 52 % 2048
  let fraction := bits % Nat.pow 2 52
  if scale = 2047 then
    if fraction = 0 then .infinite negative else .notANumber
  else if scale = 0 then
    .finite negative fraction (-1074) false
  else
    .finite negative (Nat.pow 2 52 + fraction) ((scale : Int) - 1075) (fraction = 0 && 1 < scale)

/-- The parts of a double. -/
def ofFloat (x : Float) : Parts := ofBits x.toBits.toNat

/-- A sign put before a natural number. -/
def signed (negative : Bool) (n : Nat) : Int := if negative then -(n : Int) else n

/-- The integer that a finite number is, when it has no fraction. -/
def whole? : Parts → Option Int
  | .finite negative mantissa exponent _ =>
    if 0 ≤ exponent then
      some (signed negative (mantissa * Nat.pow 2 exponent.toNat))
    else
      let divisor := Nat.pow 2 (-exponent).toNat
      if mantissa % divisor = 0 then some (signed negative (mantissa / divisor)) else none
  | .infinite _ => none
  | .notANumber => none

end Parts

end Wordstream.Decimal
