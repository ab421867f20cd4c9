/-!
# Double-precision numbers as exact data

The analyzer folds number literals, so it needs to read a literal, negate it, compare it with 1,
ask whether it is whole, and print it. Every finite double is a whole multiple of `2 ^ (-1074)`,
so a finite number is a sign and a count of those units, and each question above is a question
about natural numbers.

* `Binary64` and its sign, order and wholeness.
* `Binary64.ofRatio` rounds an exact quotient to the nearest double, a tie going to the even one.
-/

namespace HybroidSema

/-- A double-precision number. A finite one is `units * 2 ^ (-1074)` with a sign, so zero has two
forms. -/
inductive Binary64 where
  | nan
  | infinite (negative : Bool)
  | finite (negative : Bool) (units : Nat)
deriving DecidableEq, Repr

namespace Binary64

/-- How many units make 1. -/
def one : Nat := 1 <<< 1074

/-- The first count of units that is too large for a finite number. -/
def limit : Nat := 1 <<< 2098

/-- The distance, in units, between neighbouring numbers from `units` on: numbers have 53
significant bits, and never less than one unit of resolution. -/
def gap (units : Nat) : Nat := 1 <<< (units.log2 - 52)

/-- The number with the opposite sign. -/
def neg : Binary64 → Binary64
  | nan => nan
  | infinite n => infinite (!n)
  | finite n u => finite (!n) u

/-- Whether the number is below 1. -/
def isBelowOne : Binary64 → Bool
  | nan => false
  | infinite n => n
  | finite n u => n || u < one

/-- Whether the number is finite and has no fractional part. -/
def isWhole : Binary64 → Bool
  | finite _ u => u % one == 0
  | _ => false

/-- The natural number nearest to `num / den`, a tie going to the even neighbour. -/
def roundToEven (num den : Nat) : Nat :=
  let q := num / den
  let r := num % den
  if 2 * r < den then q
  else if den < 2 * r then q + 1
  else q + q % 2

/-- The double nearest to `num / den`, a tie going to the one with the even significand. -/
def ofRatio (negative : Bool) (num den : Nat) : Binary64 :=
  let step := gap (num * one / den)
  let units := roundToEven (num * one) (den * step) * step
  if units < limit then finite negative units else infinite negative

/-- The double nearest to a whole number. -/
def ofInt (n : Int) : Binary64 := ofRatio (n < 0) n.natAbs 1

@[simp] theorem neg_neg (x : Binary64) : x.neg.neg = x := by
  cases x <;> simp [neg]

end Binary64

end HybroidSema
