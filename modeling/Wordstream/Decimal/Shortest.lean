/-!
# Shortest decimals

The shortest decimal that reads back as a given binary number. The reals that round to `m * 2 ^ q`
form an interval around it, whose ends belong to it exactly when `m` is even. On the grid of
decimals with one, two, … seventeen digits the two neighbours of the number are tried in turn; the
first grid with a neighbour inside the interval wins. Of two neighbours inside, the nearer is taken,
and of two equally near the upper.
-/

namespace Wordstream.Decimal

/-- A decimal `digits * 10 ^ exponent`. -/
structure Digits where
  digits : Nat
  exponent : Int
  deriving DecidableEq, Repr

namespace Shortest

/-- The number of decimal digits of a natural number. -/
def digitCount (n : Nat) : Nat := (Nat.toDigits 10 n).length

/-- The least `t` up to a bound for which `n * 10 ^ t` reaches `d`, counted on from `t`. -/
def scaleUp (d : Nat) : (bound : Nat) → (n t : Nat) → Nat
  | 0, _, t => t
  | bound + 1, n, t => if d ≤ n then t else scaleUp d bound (n * 10) (t + 1)

/-- The exponent of the greatest power of ten that is at most `m * 2 ^ q`, for `m` above zero. -/
def magnitude (m : Nat) (q : Int) : Int :=
  if 0 ≤ q then
    (digitCount (m * Nat.pow 2 q.toNat) : Int) - 1
  else
    let d := Nat.pow 2 (-q).toNat
    if d ≤ m then (digitCount (m / d) : Int) - 1 else -(scaleUp d 400 m 0 : Int)

/-- Natural numbers `(step, unit)` in the proportion of `10 ^ s` to `2 ^ (q - 2)`: on a common scale
the decimal grid has its points at the multiples of `step`, and `m * 2 ^ q` lies at `4 * m * unit`.
-/
def scales (q s : Int) : Nat × Nat :=
  (Nat.pow 10 s.toNat * Nat.pow 2 (2 - q).toNat, Nat.pow 2 (q - 2).toNat * Nat.pow 10 (-s).toNat)

/-- The multiple of `10 ^ s` next to `m * 2 ^ q` that rounds to it, if one of its two neighbours
does. -/
def onGrid? (m : Nat) (q : Int) (narrow : Bool) (s : Int) : Option Nat :=
  let (step, unit) := scales q s
  let value := 4 * m * unit
  let low := (4 * m - if narrow then 1 else 2) * unit
  let high := (4 * m + 2) * unit
  let inside (d : Nat) : Bool :=
    if m % 2 = 0 then low ≤ d * step && d * step ≤ high else low < d * step && d * step < high
  let below := value / step
  match inside below, inside (below + 1) with
  | true, true => if 2 * (value - below * step) < step then some below else some (below + 1)
  | true, false => some below
  | false, true => some (below + 1)
  | false, false => none

/-- Drop the zeros at the end of a digit string, at most `bound` of them. -/
def trim : (bound : Nat) → Digits → Digits
  | 0, d => d
  | bound + 1, d =>
    if d.digits % 10 = 0 then trim bound ⟨d.digits / 10, d.exponent + 1⟩ else d

end Shortest

open Shortest in
/-- The shortest decimal that reads back as `m * 2 ^ q`, without zeros at its end. -/
def shortest (m : Nat) (q : Int) (narrow : Bool) : Digits :=
  if m = 0 then ⟨0, 0⟩
  else
    let top := magnitude m q
    let found := (List.range 17).findSome? fun (n : Nat) =>
      let s : Int := top - n
      (onGrid? m q narrow s).map fun d => (⟨d, s⟩ : Digits)
    trim 20 (found.getD ⟨m, q⟩)

end Wordstream.Decimal
