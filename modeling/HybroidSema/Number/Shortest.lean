import HybroidSema.Number.Binary64

/-!
# The text of a number

A number is written with the fewest digits that read back as the same number, and always
positionally: no exponent, and no point in a whole number.

The digits are found on decimal grids. The reals that round to a number form an interval around
it. For one digit, two digits and so on, the two neighbours of the number on the grid with that
many digits are tested against the interval: the first grid with a hit wins, of two hits the
nearer one, and of two equally near ones the larger.

* `Binary64.Interval`: the reals that round to a number.
* `Binary64.shortestDigits`: the digits and the exponent of the grid.
* `Binary64.render`: the text.
-/

namespace HybroidSema.Binary64

/-! ## The interval of a number -/

/-- The ends of an interval in quarters of a unit. The ends belong to it iff `closed`. -/
structure Interval where
  low : Nat
  high : Nat
  closed : Bool

/-- The reals that round to the finite positive number of `units`. The gap below a power of two is
half the gap above it, and ties go to the even significand. -/
def interval (units : Nat) : Interval :=
  let step := gap units
  let below := if units = step <<< 52 ∧ 1 < step then step else 2 * step
  { low := 4 * units - below
    high := 4 * units + 2 * step
    closed := units / step % 2 == 0 }

/-- `digits * 10 ^ exponent`, as a fraction of quarters of a unit. -/
def quarters (digits : Nat) (exponent : Int) : Nat × Nat :=
  match exponent with
  | .ofNat e => (digits * Nat.pow 10 e * (4 * one), 1)
  | .negSucc e => (digits * (4 * one), Nat.pow 10 (e + 1))

/-- Whether the decimal `digits * 10 ^ exponent` lies in the interval. -/
def Interval.holds (i : Interval) (digits : Nat) (exponent : Int) : Bool :=
  let (num, den) := quarters digits exponent
  let low := i.low * den
  let high := i.high * den
  (low < num && num < high) || (i.closed && (num == low || num == high))

/-! ## The digits -/

/-- The number of decimal digits of a natural number. -/
def digitCount (n : Nat) : Nat := (Nat.toDigits 10 n).length

/-- The exponent `d` with `10 ^ (d - 1) ≤ x < 10 ^ d`, for the positive number `x` of `units`. -/
def magnitude (units : Nat) : Int :=
  if one ≤ units then digitCount (units / one)
  else 1 - (digitCount ((one + units - 1) / units - 1) : Int)

/-- The part of the number before the grid of `10 ^ exponent`, and the remainder as a fraction of
one step of the grid. -/
def onGrid (units : Nat) (exponent : Int) : Nat × Nat × Nat :=
  let (num, den) := match exponent with
    | .ofNat e => (units, one * Nat.pow 10 e)
    | .negSucc e => (units * Nat.pow 10 (e + 1), one)
  (num / den, num % den, den)

/-- The neighbour of the number on a grid that reads back as the number, if one does: the nearer
one, and the larger one of two equally near. -/
def neighbour? (units : Nat) (exponent : Int) : Option Nat :=
  let (digits, rest, step) := onGrid units exponent
  let i := interval units
  let down := i.holds digits exponent
  let up := i.holds (digits + 1) exponent
  if up && (!down || step ≤ 2 * rest) then some (digits + 1)
  else if down then some digits
  else none

/-- The fewest digits that read back as the positive number of `units`, with the exponent of the
last digit. Seventeen digits always do. A number just below a power of ten has that power as its
upper neighbour, `10` on the grid of one digit, which is the digit `1` one place higher. -/
def shortestDigits (units : Nat) : Nat × Int :=
  let top := magnitude units
  let grids := (List.range 17).map fun k => top - (k + 1 : Nat)
  match grids.findSome? fun x => (neighbour? units x).map (·, x) with
  | some (10, exponent) => (1, exponent + 1)
  | some found => found
  | none => ((onGrid units (top - 17)).1, top - 17)

/-! ## The text -/

/-- Digits written positionally: `exponent` places are shifted out of the fraction or filled with
zeros. -/
def positional (digits : Nat) (exponent : Int) : String :=
  let text := Nat.toDigits 10 digits
  match exponent with
  | .ofNat e => String.ofList (text ++ List.replicate e '0')
  | .negSucc e =>
    let places := e + 1
    if places < text.length then
      let whole := text.length - places
      String.ofList (text.take whole ++ '.' :: text.drop whole)
    else String.ofList ('0' :: '.' :: (List.replicate (places - text.length) '0' ++ text))

/-- The text of a number: the fewest digits that read back, positional, with a sign for negative
numbers including zero, and words for what is not finite. -/
def render : Binary64 → String
  | nan => "NaN"
  | infinite negative => if negative then "-inf" else "inf"
  | finite negative units =>
    let magnitudeText :=
      if units = 0 then "0"
      else
        let (digits, exponent) := shortestDigits units
        positional digits exponent
    if negative then "-" ++ magnitudeText else magnitudeText

end HybroidSema.Binary64
