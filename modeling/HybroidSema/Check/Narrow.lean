import HybroidSema.Check.Values
import HybroidSema.Check.WrittenType

/-!
# Entity tests

`value is Entity` asks for the kind of an entity and may bind the narrowed entity to a name. The
name is declared where the test holds: an `is` in the branch after the condition, an `isnt` in the
`else` branch, and after the chain if the first branch always leaves.
-/

namespace HybroidSema.Check

/-- Check the type of an entity test after its value, and collect the name that it binds. The
result tells whether the type is an entity of the engine. -/
def entityTest (ty : TypeExpr) (binding : Option Ident) (negated : Bool) (span : Span) :
    Check Bool := do
  let isEngine ←
    if ty.env.isNone && isOfficialEntity ty.name.name then
      pure (!(← environment).declaresType ty.name.name)
    else pure false
  if isEngine then
    if binding.isSome then report (.officialEntityConversion ty.name.name) span
    return true
  match ← resolveType ty with
  | .named env name .entityDecl =>
    match binding with
    | some id =>
      modify fun s => { s with narrowings := s.narrowings ++ [⟨id, ⟨env, name⟩, negated⟩] }
    | none => pure ()
  | .invalid => pure ()
  | other => report (.typeMismatch .rawEntity other "entity evaluation") ty.span
  return false

/-- Check the type of a condition and take over the narrowings that it binds. -/
def conditionNarrowings (condition : Expr) (value : Value) : Check (List Narrowing) := do
  checkType .bool value.ty "condition" condition.span
  takeNarrowings

/-- Bind the name of a narrowing. -/
def declareNarrowing (n : Narrowing) : Check Unit :=
  declare { name := n.name.name, value := .entityObject n.entity, span := n.name.span } "variable"

/-- Bind the names of the narrowings of one polarity. -/
def declareNarrowings (narrowings : List Narrowing) (negated : Bool) : Check Unit :=
  (narrowings.filter (·.negated == negated)).forM declareNarrowing

end HybroidSema.Check
