import HybroidSema.Number.Binary64

/-!
# Reading numbers

Two readers share the digits. `Binary64.ofText?` reads a decimal: a sign, digits with an optional
point, an optional exponent, or one of the words for what is not finite. `Binary64.ofLiteral?`
reads a number literal of the language: underscores are dropped, and `0x` and `0b` start whole
numbers of 64 bits with a sign.

What does not follow the grammar to its last character is no number.
-/

namespace HybroidSema.Binary64

/-! ## Digits -/

/-- The value of a digit in a base up to 16. -/
def digitValue? (base : Nat) (c : Char) : Option Nat :=
  let n := c.toNat
  let value :=
    if '0'.toNat ≤ n ∧ n ≤ '9'.toNat then some (n - '0'.toNat)
    else if 'a'.toNat ≤ n ∧ n ≤ 'f'.toNat then some (n - 'a'.toNat + 10)
    else if 'A'.toNat ≤ n ∧ n ≤ 'F'.toNat then some (n - 'A'.toNat + 10)
    else none
  value.filter (· < base)

/-- Whether the character is a decimal digit. -/
def isDecimal (c : Char) : Bool := (digitValue? 10 c).isSome

/-- The number written by digits, if all characters are digits of the base. -/
def digitsValue? (base : Nat) (text : List Char) : Option Nat :=
  text.foldl (fun acc c => do
    let n ← acc
    let d ← digitValue? base c
    pure (n * base + d)) (some 0)

/-- A sign in front of a text: whether it is a minus, and the rest. -/
def splitSign : List Char → Bool × List Char
  | '-' :: rest => (true, rest)
  | '+' :: rest => (false, rest)
  | text => (false, text)

/-! ## Decimals -/

/-- The nearest double of `digits * 10 ^ exponent`. Beyond the range of doubles no power of ten is
computed: with `n` digits the decimal is below `10 ^ (n + exponent)`. -/
def ofDecimal (negative : Bool) (digits : Nat) (exponent : Int) : Binary64 :=
  if digits = 0 then finite negative 0
  else
    let top := (Nat.toDigits 10 digits).length + exponent
    if 400 < top then infinite negative
    else if top < -400 then finite negative 0
    else match exponent with
      | .ofNat e => ofRatio negative (digits * Nat.pow 10 e) 1
      | .negSucc e => ofRatio negative digits (Nat.pow 10 (e + 1))

/-- The exponent at the end of a decimal: nothing, or `e` with a sign and at least one digit. -/
def exponent? : List Char → Option Int
  | [] => some 0
  | c :: rest =>
    if c = 'e' ∨ c = 'E' then
      let (negative, digits) := splitSign rest
      if digits.isEmpty then none
      else (digitsValue? 10 digits).map fun n => if negative then -(n : Int) else n
    else none

/-- A decimal without a sign: digits around an optional point, at least one of them, and an
optional exponent. -/
def decimal? (negative : Bool) (text : List Char) : Option Binary64 := do
  let whole := text.takeWhile isDecimal
  let rest := text.dropWhile isDecimal
  let (fraction, rest) := match rest with
    | '.' :: rest => (rest.takeWhile isDecimal, rest.dropWhile isDecimal)
    | rest => ([], rest)
  if whole.isEmpty && fraction.isEmpty then none
  let digits ← digitsValue? 10 (whole ++ fraction)
  let exponent ← exponent? rest
  pure (ofDecimal negative digits (exponent - fraction.length))

/-- The words for what is not finite, in any case. -/
def word? (negative : Bool) (text : List Char) : Option Binary64 :=
  match String.ofList (text.map Char.toLower) with
  | "nan" => some nan
  | "inf" | "infinity" => some (infinite negative)
  | _ => none

/-- The double that a decimal text denotes. -/
def ofText? (text : String) : Option Binary64 :=
  let (negative, rest) := splitSign text.toList
  decimal? negative rest <|> word? negative rest

/-! ## Literals -/

/-- A whole number of 64 bits with a sign, in a base. -/
def whole64? (base : Nat) (text : List Char) : Option Int := do
  let (negative, digits) := splitSign text
  if digits.isEmpty then none
  let n ← digitsValue? base digits
  if negative then
    if n ≤ 1 <<< 63 then pure (-(n : Int)) else none
  else
    if n < 1 <<< 63 then pure (n : Int) else none

/-- The double that a number literal of the language denotes. -/
def ofLiteral? (text : String) : Option Binary64 :=
  match text.toList.filter (· != '_') with
  | '0' :: 'x' :: rest | '0' :: 'X' :: rest => (whole64? 16 rest).map ofInt
  | '0' :: 'b' :: rest | '0' :: 'B' :: rest => (whole64? 2 rest).map ofInt
  | clean => ofText? (String.ofList clean)

end HybroidSema.Binary64
