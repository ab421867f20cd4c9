import HybroidSema.Check.Values

/-!
# Exit statements

`return`, `yield`, `break` and `continue` are accepted where the scope permits them. The values
of a `return` are compared with the return types of the function; the first `yield` of a match
expression decides what the others must yield.
-/

namespace HybroidSema.Check

/-- Whether an exit statement is permitted; it is reported if it is not. -/
def exitAllowed (asked : Permissions) (statement : String) (span : Span) : Check Bool := do
  if (← scopes).allows asked then return true
  report (.invalidUseOfExitStatement statement) span
  return false

/-- Record an exit in the innermost scope. -/
def markExit (kind : Exits) : Check Unit := modifyScopes (·.markExit kind)

/-- The types that a `return` must give. -/
def returnTypes : Check (List Ty) := do
  return ((← scopes).func?.map (·.returns)).getD []

/-- Check the values of a `return`. -/
def checkReturn (expected : List Ty) (values : List (Value × Span)) (span : Span) :
    Check Unit := do
  if ← checkValueCount expected.length values span "return" then
    checkValueTypes expected values "return"
  markExit .ofReturn

/-- The innermost match expression, with the types that were yielded in it. -/
def yieldTarget : Check (Option Nat × Option (List Ty)) := do
  let stack ← scopes
  let position := stack.innermost? (·.tag.matchExpr?.isSome)
  let tag := (position.bind stack.get?).bind (·.tag.matchExpr?)
  return (position, tag.bind (·.yields))

/-- Fix the types that a match expression yields. -/
def setYields (types : List Ty) (scope : Scope) : Scope :=
  match scope.tag with
  | .matchExpr tag => { scope with tag := .matchExpr { tag with yields := some types } }
  | _ => scope

/-- Check the values of a `yield`. -/
def checkYield (position : Option Nat) (known : Option (List Ty))
    (values : List (Value × Span)) (span : Span) : Check Unit := do
  match known with
  | some expected =>
    if ← checkValueCount expected.length values span "yield" then
      checkValueTypes expected values "yield"
  | none =>
    match position with
    | some position => modifyScopes (·.modifyAt position (setYields (typesOf values)))
    | none => pure ()
  markExit .ofYield

end HybroidSema.Check
