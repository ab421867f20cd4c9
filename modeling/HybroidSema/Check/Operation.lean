import HybroidSema.Check.Values

/-!
# Operators

The value of an operation on operands that are already checked. The error sentinel is never
reported again: an operation on it is invalid too, or has the type that every operation of its
kind has.
-/

namespace HybroidSema.Check

/-- Report two operands that an operator cannot combine. -/
def reportTypes (op : BinaryOp) (left right : Ty) (span : Span) : Check Unit :=
  report (.typesMismatch op.spelling left right) span

/-- Report an operand that an operator does not take. -/
def checkOperand (op : String) (expected : Ty) (got : Ty) (span : Span) : Check Unit := do
  if !got.agrees expected then report (.invalidOperand op expected.render got) span

/-- The value of an arithmetic operation with a left operand. -/
def arithmeticValue : Value → Value
  | .number _ | .enumType _ | .enumField _ => .number none
  | value => value

/-- The value of a binary operation. -/
def binaryValue (op : BinaryOp) (left right : Value) (span : Span) : Check Value := do
  let lt := left.ty
  let rt := right.ty
  if lt.isInvalid || rt.isInvalid then
    match op.group with
    | .comparison | .logical => return .bool
    | _ => return .invalid
  match op.group with
  | .arithmetic =>
    if !lt.isNumeric || !rt.isNumeric || !lt.agrees rt then
      reportTypes op lt rt span
      return .invalid
    return arithmeticValue left
  | .concatenation =>
    if !lt.isText && !rt.isText then
      reportTypes op lt rt span
      return .invalid
    return .text
  | .comparison =>
    if !lt.agrees rt then reportTypes op lt rt span
    return .bool
  | .logical =>
    checkOperand op.spelling .bool lt span
    checkOperand op.spelling .bool rt span
    return .bool
  | .bitwise =>
    checkOperand op.spelling .number lt span
    checkOperand op.spelling .number rt span
    return .number none

/-- The value of the negation of a numeric value. A folded number is negated. -/
def negatedValue : Value → Value
  | .number literal => .number (literal.map Binary64.neg)
  | .enumType _ | .enumField _ => .number none
  | value => value

/-- The value of a unary operation. -/
def unaryValue (op : UnaryOp) (operand : Value) (span : Span) : Check Value := do
  let ty := operand.ty
  match op with
  | .not =>
    if !ty.isInvalid then checkOperand op.spelling .bool ty span
    return .bool
  | .neg =>
    if ty.isInvalid then return .invalid
    if !ty.isNumeric then
      report (.invalidOperand op.spelling "a number" ty) span
      return .invalid
    return negatedValue operand
  | .len =>
    let isList := match operand with
      | .list _ => true
      | _ => false
    if !ty.isInvalid && !isList && !ty.isText then
      report (.invalidOperand op.spelling "a list or text" ty) span
    return .number none

/-- Forget the narrowings that an `or` would have to bind on one side only, and report them. -/
def dropUnderOr (before : Nat) (span : Span) : Check Unit := do
  let narrowings := (← get).narrowings
  if before < narrowings.length then
    report .entityConversionWithOrCondition span
    modify fun s => { s with narrowings := narrowings.take before }

end HybroidSema.Check
