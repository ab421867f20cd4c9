import HybroidSema.Arguments
import HybroidSema.Check.Basic

/-!
# Value lists

An expression has one value, several or none. Where exactly one is needed the first one counts;
in a list of expressions the last one may spread. The number of values and their types are then
compared with what the place expects.
-/

namespace HybroidSema.Check

/-- Reduce a value to its first one, reporting that there is none. -/
def expectSingle (value : Value) (span : Span) : Check Value := do
  match value with
  | .tuple [] =>
    report (.tooFewValuesGiven 1 0 "expression") span
    return .invalid
  | value => return value.single

/-- An expression that must have a value. -/
def single (checked : Check (Expr × Value)) : Check (Expr × Value) := do
  let (e, value) ← checked
  let value ← expectSingle value e.span
  return (e, value)

/-- The types of values with their positions. -/
def typesOf (values : List (Value × Span)) : List Ty := values.map (·.1.ty)

/-- Report a missing or surplus run of values, and tell whether the number is right. -/
def checkValueCount (expected : Nat) (values : List (Value × Span)) (span : Span)
    (context : String) : Check Bool := do
  let spans := values.map Prod.snd
  let got := values.length
  if got < expected then
    report (.tooFewValuesGiven expected got context) (spans.getLast?.getD span)
    return false
  match surplusSpan? expected spans with
  | some surplus =>
    report (.tooManyValuesGiven expected got context) surplus
    return false
  | none => return true

/-- Report a type that is not the expected one. -/
def checkType (expected got : Ty) (context : String) (span : Span) : Check Unit := do
  if !got.agrees expected then report (.typeMismatch expected got context) span

/-- Compare values with expected types, pair by pair. -/
def checkValueTypes (expected : List Ty) (values : List (Value × Span)) (context : String) :
    Check Unit :=
  (expected.zip values).forM fun (ty, value, span) => checkType ty value.ty context span

end HybroidSema.Check
